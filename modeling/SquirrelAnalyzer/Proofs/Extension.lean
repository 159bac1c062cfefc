import SquirrelAnalyzer.Proofs.Forest

namespace SquirrelAnalyzer

theorem Branch.mem_enclosing_go {b : Branch} {inner : NodeId} {ids : List NodeId}
    {e : Branch × NodeId} (h : e ∈ enclosing.go b inner ids) :
    e.1.unit = b.unit ∧ ∀ id, id = e.1.target ∨ id ∈ e.1.ancestors → id ∈ ids := by
  induction ids generalizing inner with
  | nil => cases h
  | cons x ids ih =>
    rcases List.mem_cons.mp h with rfl | h
    · exact ⟨rfl, fun id hid => List.mem_cons.mpr hid⟩
    · exact ⟨(ih h).1, fun id hid => List.mem_cons_of_mem _ ((ih h).2 id hid)⟩

theorem Branch.unit_of_mem_upward {b c : Branch} (h : c ∈ b.upward) : c.unit = b.unit := by
  rcases List.mem_cons.mp h with rfl | h
  · rfl
  · obtain ⟨e, he, rfl⟩ := List.mem_map.mp h
    exact (mem_enclosing_go he).1

namespace Arena

structure Extends (a a' : Arena) : Prop where
  unit : a'.unit = a.unit
  root : a'.root = a.root
  parsedSize : a'.parsedSize = a.parsedSize
  size : a.size ≤ a'.size
  kept : ∀ id : NodeId, id.index < a.size → a'.get? id = a.get? id

structure Holds (a : Arena) (b : Branch) : Prop where
  target : b.target.index < a.size
  ancestors : ∀ id ∈ b.ancestors, id.index < a.size

def Ascending (a : Arena) : Prop :=
  ∀ id c, c ∈ a.children .full id → c.index < id.index

variable {a a' a'' : Arena} {b b' : Branch} {lo hi : Nat} {ids : List NodeId}

theorem index_lt_of_children {id c : NodeId} {table : FieldTable} (h : c ∈ a.children table id) :
    id.index < a.size := by
  unfold children at h
  split at h
  · next n hn => exact lt_size_of_get? hn
  · cases h

theorem lt_size_of_shape? {id : NodeId} {s : Shape NodeId} (h : a.shape? id = some s) :
    id.index < a.size := by
  obtain ⟨n, hn, -⟩ := Option.map_eq_some_iff.mp h
  exact lt_size_of_get? hn

theorem lt_size_of_kind? {id : NodeId} {kind : Kind} (h : a.kind? id = some kind) :
    id.index < a.size := by
  obtain ⟨n, hn, -⟩ := Option.map_eq_some_iff.mp h
  exact lt_size_of_get? hn

theorem size_add (a : Arena) (location : Location) (shape : Shape NodeId) :
    (a.add location shape).2.size = a.size + 1 := Array.size_push _

namespace Extends

theorem refl (a : Arena) : a.Extends a := ⟨rfl, rfl, rfl, Nat.le_refl _, fun _ _ => rfl⟩

theorem trans (h : a.Extends a') (h' : a'.Extends a'') : a.Extends a'' where
  unit := h'.unit.trans h.unit
  root := h'.root.trans h.root
  parsedSize := h'.parsedSize.trans h.parsedSize
  size := Nat.le_trans h.size h'.size
  kept id hid := (h'.kept id (Nat.lt_of_lt_of_le hid h.size)).trans (h.kept id hid)

theorem add (a : Arena) (location : Location) (shape : Shape NodeId) :
    a.Extends (a.add location shape).2 where
  unit := rfl
  root := rfl
  parsedSize := rfl
  size := by
    rw [size_add]
    exact Nat.le_succ _
  kept id hid := by
    simp only [Arena.get?, Arena.add, pushNode]
    rw [Array.getElem?_push_lt hid, Array.getElem?_eq_getElem hid]

theorem shape?_eq (h : a.Extends a') {id : NodeId} (hid : id.index < a.size) :
    a'.shape? id = a.shape? id := by
  simp only [shape?, h.kept id hid]

theorem kind?_eq (h : a.Extends a') {id : NodeId} {kind : Kind} (hk : a.kind? id = some kind) :
    a'.kind? id = some kind := by
  rw [kind?_eq_map] at hk ⊢
  obtain ⟨s, hs, hkind⟩ := Option.map_eq_some_iff.mp hk
  rw [h.shape?_eq (lt_size_of_shape? hs), hs, Option.map_some, hkind]

theorem children_eq (h : a.Extends a') {id : NodeId} (hid : id.index < a.size)
    (table : FieldTable) : a'.children table id = a.children table id := by
  simp only [children, h.kept id hid]

theorem holds (h : a.Extends a') (hb : a.Holds b) : a'.Holds b where
  target := Nat.lt_of_lt_of_le hb.target h.size
  ancestors id hid := Nat.lt_of_lt_of_le (hb.ancestors id hid) h.size

theorem forest (h : a.Extends a') (hf : a.Forest lo ids hi) : a'.Forest lo ids hi := by
  induction hf with
  | nil lo => exact .nil lo
  | @cons lo hi id n ids hn hspan inner rest ihi ihr =>
    have hid := lt_size_of_get? hn
    refine .cons ((h.kept id hid).trans hn) (fun c hc l hl => hspan c hc l ?_) ihi ihr
    have hlt := (inner.bounds hc).2
    rw [← hl]
    simp only [location?, h.kept c (by omega)]

theorem rooted (h : a.Extends a') (hr : a.Rooted) : a'.Rooted where
  forest := by
    rw [h.root, h.parsedSize]
    exact h.forest hr.forest
  parsedSize_le := by
    rw [h.parsedSize]
    exact Nat.le_trans hr.parsedSize_le h.size

theorem below (h : a.Extends a') (hb : a.Below b b') : a'.Below b b' := by
  induction hb with
  | refl b => exact .refl b
  | child hc _ ih =>
    refine .child ?_ ih
    rw [h.children_eq (index_lt_of_children hc)]
    exact hc

end Extends

theorem Ascending.add (h : a.Ascending) {location : Location} {shape : Shape NodeId}
    (hs : ∀ c ∈ shape.children .full, c.index < a.size) : (a.add location shape).2.Ascending := by
  intro id c hc
  by_cases hid : id.index < a.size
  · rw [(Extends.add a location shape).children_eq hid] at hc
    exact h id c hc
  · have hlt := index_lt_of_children hc
    simp only [Arena.add, pushNode, Arena.size, Array.size_push] at hlt hid
    have he : id.index = a.nodes.size := by omega
    have hn : (a.add location shape).2.get? id = some ⟨⟨a.nodes.size⟩, location, shape⟩ := by
      simp [Arena.get?, Arena.add, pushNode, he]
    rw [children_of_get? hn] at hc
    rw [he]
    exact hs c hc

theorem Rooted.ascending (h : a.Rooted) (hsize : a.parsedSize = a.size) : a.Ascending := by
  intro id c hc
  have hid : id.index < a.parsedSize := by
    rw [hsize]
    exact index_lt_of_children hc
  obtain ⟨b, low, n, -, rfl, hn⟩ := h.exists_below hid
  rw [hn.children_eq] at hc
  exact (hn.inner.bounds hc).2

namespace Holds

theorem child (h : a.Holds b) (ha : a.Ascending) {c : NodeId}
    (hc : c ∈ a.children .full b.target) : a.Holds (b.child c) where
  target := Nat.lt_trans (ha b.target c hc) h.target
  ancestors id hid := by
    rcases List.mem_cons.mp hid with rfl | hid
    · exact h.target
    · exact h.ancestors id hid

theorem below (h : a.Holds b) (ha : a.Ascending) (hb : a.Below b b') : a.Holds b' := by
  induction hb with
  | refl b => exact h
  | child hc _ ih => exact ih (h.child ha hc)

theorem of_enclosing (h : a.Holds b) {e : Branch × NodeId} (he : e ∈ b.enclosing) :
    a.Holds e.1 := by
  have hmem := (Branch.mem_enclosing_go he).2
  exact ⟨h.ancestors _ (hmem _ (.inl rfl)), fun id hid => h.ancestors _ (hmem _ (.inr hid))⟩

end Holds

theorem descendTo_below {target : NodeId} {goal : Location} {n : Nat}
    (h : a.descendTo target goal n b = some b') : a.Below b b' := by
  induction n generalizing b with
  | zero =>
    unfold descendTo at h
    split at h
    · cases h
      exact .refl _
    · cases h
  | succ n ih =>
    unfold descendTo at h
    split at h
    · cases h
      exact .refl _
    · split at h
      · next c hc => exact .child (List.mem_of_find?_eq_some hc) (ih h)
      · cases h

theorem branchTo_below {id : NodeId} (h : a.branchTo id = some b) : a.Below a.rootBranch b := by
  unfold branchTo at h
  split at h
  · exact descendTo_below h
  · cases h

theorem target_of_descendTo {target : NodeId} {goal : Location} {n : Nat}
    (h : a.descendTo target goal n b = some b') : b'.target = target := by
  induction n generalizing b with
  | zero =>
    unfold descendTo at h
    split at h
    · next ht =>
      cases h
      exact ht
    · cases h
  | succ n ih =>
    unfold descendTo at h
    split at h
    · next ht =>
      cases h
      exact ht
    · split at h
      · exact ih h
      · cases h

theorem target_of_branchTo {id : NodeId} (h : a.branchTo id = some b) : b.target = id := by
  unfold branchTo at h
  split at h
  · exact target_of_descendTo h
  · cases h

theorem ref_anchor (hb : b.unit = a.unit) : (a.anchor b).ref = b.ref := by
  unfold anchor
  split
  · rfl
  · cases hto : a.branchTo b.target with
    | none => rfl
    | some b' =>
      have hu : b'.unit = b.unit := (branchTo_below hto).unit_eq.trans hb.symm
      have ht : b'.target = b.target := target_of_branchTo hto
      simp only [Option.getD_some, Branch.ref, hu, ht]

theorem branchTo_of_synthetic (h : a.Rooted) {id : NodeId} (hid : a.isSynthetic id = true) :
    a.branchTo id = none := by
  cases hto : a.branchTo id with
  | none => rfl
  | some b =>
    obtain ⟨n, hn, hsize⟩ := h.subtree
    have hup := ((branchTo_below hto).within (b := a.rootBranch) hn).2.1
    have hid : a.parsedSize ≤ id.index := of_decide_eq_true hid
    have hup : b.target.index ≤ a.root.index := hup
    rw [target_of_branchTo hto] at hup
    omega

theorem anchor_of_synthetic (h : a.Rooted) (hid : a.isSynthetic b.target = true) :
    a.anchor b = b := by
  unfold anchor
  split
  · rfl
  · rw [branchTo_of_synthetic h hid]
    rfl

theorem Rooted.holds_root (h : a.Rooted) : a.Holds a.rootBranch where
  target := by
    obtain ⟨n, hn, -⟩ := h.subtree
    exact lt_size_of_get? hn.node
  ancestors _ hid := nomatch hid

theorem preorderUpTo_below {n : Nat} (h : b' ∈ a.preorderUpTo n b) : a.Below b b' := by
  induction n generalizing b with
  | zero => cases h
  | succ n ih =>
    rcases List.mem_cons.mp h with rfl | h
    · exact .refl b'
    · obtain ⟨c, hc, h⟩ := List.mem_flatMap.mp h
      exact .child hc (ih h)

theorem Forest.nodup_preorderUpTo {n : Nat} (hf : a.Forest lo ids hi)
    (hn : ∀ low c node, a.Subtree low c node →
      ((a.preorderUpTo n (b.child c)).map (·.target)).Nodup) :
    ((ids.flatMap fun c => a.preorderUpTo n (b.child c)).map (·.target)).Nodup ∧
      ∀ x ∈ ids.flatMap fun c => a.preorderUpTo n (b.child c),
        lo ≤ x.target.index ∧ x.target.index < hi := by
  induction hf with
  | nil lo => exact ⟨List.nodup_nil, nofun⟩
  | @cons lo hi id node ids hm hspan inner rest _ ihr =>
    have hsub : a.Subtree lo id node := ⟨hm, hspan, inner⟩
    have hrest := rest.le
    have hinner := inner.le
    have hin : ∀ x ∈ a.preorderUpTo n (b.child id),
        lo ≤ x.target.index ∧ x.target.index ≤ id.index := fun x hx =>
      have hx := (preorderUpTo_below hx).within (b := b.child id) hsub
      ⟨hx.1, hx.2.1⟩
    rw [List.flatMap_cons, List.map_append]
    refine ⟨List.nodup_append.mpr ⟨hn lo id node hsub, ihr.1, ?_⟩, fun x hx => ?_⟩
    · intro _ hx _ hy he
      obtain ⟨x, hxmem, rfl⟩ := List.mem_map.mp hx
      obtain ⟨y, hymem, rfl⟩ := List.mem_map.mp hy
      have hx := (hin x hxmem).2
      have hy := (ihr.2 y hymem).1
      rw [he] at hx
      omega
    · rcases List.mem_append.mp hx with hx | hx
      · have := hin x hx
        omega
      · have := ihr.2 x hx
        omega

theorem Subtree.nodup_preorderUpTo {node : Node} (h : a.Subtree lo b.target node) (n : Nat) :
    ((a.preorderUpTo n b).map (·.target)).Nodup := by
  induction n generalizing b lo node with
  | zero => exact List.nodup_nil
  | succ n ih =>
    obtain ⟨hnodup, hbounds⟩ := h.inner.nodup_preorderUpTo (b := b) (n := n) fun low c node hc =>
      ih (b := b.child c) hc
    simp only [preorderUpTo, h.children_eq, List.map_cons]
    refine List.nodup_cons.mpr ⟨fun hmem => ?_, hnodup⟩
    obtain ⟨x, hx, he⟩ := List.mem_map.mp hmem
    have := (hbounds x hx).2
    rw [he] at this
    omega

theorem Rooted.nodup_preorder (h : a.Rooted) :
    ((a.preorder a.rootBranch).map (·.target)).Nodup := by
  obtain ⟨n, hn, -⟩ := h.subtree
  exact hn.nodup_preorderUpTo (b := a.rootBranch) a.size

end Arena

end SquirrelAnalyzer
