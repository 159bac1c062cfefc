import Mathlib.Data.List.Flatten
import Mathlib.Data.List.Nodup
import SquirrelAnalyzer.Proofs.Parser.Source

namespace SquirrelAnalyzer

namespace Arena

def postOrder (a : Arena) : Nat → NodeId → List NodeId
  | 0, _ => []
  | depth + 1, id => (a.children .full id).flatMap (a.postOrder depth) ++ [id]

variable {a : Arena} {lo hi : Nat} {ids : List NodeId}

theorem range'_eq_append {lo mid hi : Nat} (hlow : lo ≤ mid) (hhigh : mid < hi) :
    List.range' lo (hi - lo) =
      List.range' lo (mid - lo) ++ mid :: List.range' (mid + 1) (hi - (mid + 1)) := by
  have happend := List.range'_append_1 (s := lo) (m := mid - lo) (n := hi - mid)
  rw [Nat.add_sub_cancel' hlow] at happend
  rw [← List.range'_succ, show hi - (mid + 1) + 1 = hi - mid by omega, happend,
    show mid - lo + (hi - mid) = hi - lo by omega]

theorem Forest.postOrder_eq (h : a.Forest lo ids hi) {depth : Nat} (hdepth : hi ≤ depth) :
    ids.flatMap (a.postOrder depth) = (List.range' lo (hi - lo)).map NodeId.mk := by
  induction h generalizing depth with
  | nil lo => simp
  | @cons lo hi id n ids hn hspan inner rest ihinner ihrest =>
    have hlow := inner.le
    have hhigh := rest.le
    obtain ⟨depth, rfl⟩ : ∃ d, depth = d + 1 := ⟨depth - 1, by omega⟩
    rw [List.flatMap_cons, postOrder, children_of_get? hn, ihinner (by omega), ihrest hdepth,
      range'_eq_append hlow hhigh]
    simp

theorem Subtree.postOrder_eq {id : NodeId} {n : Node} (h : a.Subtree lo id n) {depth : Nat}
    (hdepth : id.index < depth) :
    a.postOrder depth id = (List.range' lo (id.index + 1 - lo)).map NodeId.mk := by
  have hforest := Forest.cons h.node h.span h.inner (.nil _)
  rw [← hforest.postOrder_eq hdepth, List.flatMap_singleton]

theorem Subtree.le_child {id p c : NodeId} {n : Node} (h : a.Subtree lo id n) (hlo : lo ≤ p.index)
    (hp : p.index ≤ id.index) (hc : c ∈ a.children .full p) : lo ≤ c.index := by
  obtain ⟨b, -, -, hb, htarget, -⟩ := h.exists_below (b := ⟨a.unit, id, []⟩) hlo hp
  have hc : c ∈ a.children .full b.target := by
    rw [htarget]
    exact hc
  exact ((hb.trans (.child hc (.refl _))).within (b := ⟨a.unit, id, []⟩) h).1

theorem Subtree.lo_eq {id : NodeId} {lo' : Nat} {n n' : Node} (h : a.Subtree lo id n)
    (h' : a.Subtree lo' id n') : lo = lo' := by
  have hwalk := h.postOrder_eq (Nat.lt_succ_self _)
  rw [h'.postOrder_eq (Nat.lt_succ_self _)] at hwalk
  have hlength := congrArg List.length hwalk
  have hle := h.inner.le
  have hle' := h'.inner.le
  simp only [List.length_map, List.length_range'] at hlength
  omega

theorem Below.eq_or_parent {b b' : Branch} (h : a.Below b b') :
    b' = b ∨ ∃ p, b'.target ∈ a.children .full p := by
  induction h with
  | refl b => exact .inl rfl
  | @child b b' c hc h ih =>
    rcases ih with rfl | hp
    · exact .inr ⟨b.target, hc⟩
    · exact .inr hp

namespace Parsed

theorem subtree_of_get? (h : a.Parsed) {id : NodeId} {n : Node} (hn : a.get? id = some n) :
    ∃ low, a.Subtree low id n := by
  have hlt : id.index < a.parsedSize := h.whole ▸ lt_size_of_get? hn
  obtain ⟨b, low, m, -, rfl, hm⟩ := h.exists_below hlt
  obtain rfl := Option.some.inj (hn.symm.trans hm.node)
  exact ⟨low, hm⟩

theorem subtree_of_lt (h : a.Parsed) {id : NodeId} (hid : id.index < a.size) :
    ∃ low n, a.Subtree low id n := by
  obtain ⟨low, hn⟩ := h.subtree_of_get? (Array.getElem?_eq_getElem hid)
  exact ⟨low, _, hn⟩

theorem subtree_of_child (h : a.Parsed) {id c : NodeId} (hc : c ∈ a.children .full id) :
    ∃ low n, a.Subtree low id n ∧ c ∈ n.children .full := by
  cases hn : a.get? id with
  | none => simp [children, hn] at hc
  | some n =>
    rw [children_of_get? hn] at hc
    obtain ⟨low, hn⟩ := h.subtree_of_get? hn
    exact ⟨low, n, hn, hc⟩

theorem child_lt (h : a.Parsed) {id c : NodeId} (hc : c ∈ a.children .full id) :
    c.index < id.index := by
  obtain ⟨low, n, hn, hc⟩ := h.subtree_of_child hc
  exact (hn.inner.bounds hc).2

theorem parent_le (h : a.Parsed) {c p q : NodeId} (hp : c ∈ a.children .full p)
    (hq : c ∈ a.children .full q) : q.index ≤ p.index := by
  by_contra hlt
  obtain ⟨low, n, hn, hc⟩ := h.subtree_of_child hq
  have hlow := (hn.inner.bounds hc).1
  have hcp := h.child_lt hp
  -- the first parent stands below another child of the second one, and so does the common child
  obtain ⟨d, m, low', hd, hm, hlo, hhi⟩ := hn.inner.split (i := p.index) (by omega) (by omega)
  have hle := hm.le_child (p := p) hlo hhi hp
  obtain ⟨m', low'', hm', -, hbefore⟩ := hn.inner.subtree hd
  obtain rfl := hm.lo_eq hm'
  have hcd := hbefore c hc (by omega)
  omega

theorem parent_unique (h : a.Parsed) {c p q : NodeId} (hp : c ∈ a.children .full p)
    (hq : c ∈ a.children .full q) : q = p :=
  congrArg NodeId.mk (Nat.le_antisymm (h.parent_le hp hq) (h.parent_le hq hp))

theorem exists_parent (h : a.Parsed) {id : NodeId} (hid : id.index < a.size) (hroot : id ≠ a.root) :
    ∃ p, id ∈ a.children .full p := by
  rw [← h.whole] at hid
  obtain ⟨b, low, n, hb, rfl, -⟩ := h.exists_below hid
  rcases hb.eq_or_parent with rfl | hp
  · exact absurd rfl hroot
  · exact hp

theorem count_child (h : a.Parsed) {id c : NodeId} (hc : c ∈ a.children .full id) :
    (a.children .full id).count c = 1 := by
  obtain ⟨low, n, hn, hmem⟩ := h.subtree_of_child hc
  rw [hn.children_eq]
  exact List.count_eq_one_of_mem hn.inner.nodup hmem

theorem kind?_tree (h : a.Parsed) {id : NodeId} (hid : id.index < a.size) :
    a.kind? id = some (a.tree id).shape.kind := by
  obtain ⟨low, n, hn⟩ := h.subtree_of_lt hid
  simp [kind?, hn.node, hn.tree_eq, Tree.shape, Node.kind]

end Parsed

structure Grammatical (a : Arena) : Prop extends a.Parsed where
  fits : ∀ {id s}, a.shape? id = some s →
    (∃ body, s = .sourceFile body) ∨ ∃ r, (a.tree id).Fits r

theorem treeUpTo_withUnit (a : Arena) (unit : UnitId) (n : Nat) (id : NodeId) :
    ({ a with unit } : Arena).treeUpTo n id = a.treeUpTo n id := by
  induction n generalizing id with
  | zero => rfl
  | succ n ih =>
    have hparts : ({ a with unit } : Arena).treeUpTo n = a.treeUpTo n := funext ih
    rw [treeUpTo, treeUpTo, hparts]
    rfl

theorem Grammatical.withUnit (h : a.Grammatical) (unit : UnitId) :
    ({ a with unit } : Arena).Grammatical where
  toRooted := h.toRooted.withUnit unit
  whole := h.whole
  fits {id s} hs := by
    rw [tree, treeUpTo_withUnit]
    exact h.fits hs

theorem Subtree.tree_below {I : Tree → Prop} (hI : ∀ t, I t → ∀ c ∈ t.shape.children .full, I c)
    {b b' : Branch} {n : Node} (h : a.Subtree lo b.target n) (hb : a.Below b b')
    (ht : I (a.tree b.target)) : I (a.tree b'.target) := by
  induction hb generalizing lo n with
  | refl b => exact ht
  | @child b b' c hc hb ih =>
    rw [h.children_eq] at hc
    obtain ⟨m, low, hm, -, -⟩ := h.inner.subtree hc
    refine ih hm (hI _ ht _ ?_)
    rw [h.children_tree]
    exact List.mem_map_of_mem hc

namespace Reads

variable {source : String} {tokens : List Token} {body : List Tree}

theorem parsed (h : a.Reads source tokens body) : a.Parsed := by
  obtain ⟨comments, -, rfl⟩ := h.arena
  exact ⟨rooted_ofTree _ _ h.placed.nested, rfl⟩

theorem tree_root (h : a.Reads source tokens body) :
    a.tree a.root = .node (sourceSpan source) (.sourceFile body) := by
  obtain ⟨comments, -, rfl⟩ := h.arena
  exact tree_ofTree _ _ h.placed.nested

theorem numbered (h : a.Reads source tokens body) {i : Nat} (hi : i < a.size) :
    ∃ n, a.nodes[i]? = some n ∧ n.id = ⟨i⟩ ∧ n.location = a.lines.location n.location.span := by
  obtain ⟨comments, -, rfl⟩ := h.arena
  exact numbered_ofTree _ _ h.placed.nested hi

theorem id_eq (h : a.Reads source tokens body) {i : Nat} (hi : i < a.nodes.size) :
    a.nodes[i].id = ⟨i⟩ := by
  obtain ⟨n, hn, hid, -⟩ := h.numbered hi
  rw [Array.getElem?_eq_getElem hi] at hn
  rw [Option.some.inj hn, hid]

theorem fits_tree (h : a.Reads source tokens body) {id : NodeId} (hid : id.index < a.size)
    (hne : id ≠ a.root) : ∃ r, (a.tree id).Fits r := by
  have hlt : id.index < a.parsedSize := h.parsed.whole ▸ hid
  obtain ⟨b, -, -, hb, rfl, -⟩ := h.parsed.exists_below hlt
  obtain ⟨root, hroot, -⟩ := h.parsed.subtree
  cases hb with
  | refl => exact absurd rfl hne
  | @child _ _ c hc hb =>
    have hc : c ∈ a.children .full a.root := hc
    rw [hroot.children_eq] at hc
    obtain ⟨m, low, hm, -, -⟩ := hroot.inner.subtree hc
    have hchild : a.tree c ∈ body := by
      have hbody := hroot.children_tree
      rw [h.tree_root] at hbody
      simp only [Tree.shape, Shape.children, Shape.kind, Kind.fields, Shape.field,
        List.flatMap_singleton] at hbody
      rw [hbody]
      exact List.mem_map_of_mem hc
    exact hm.tree_below (I := fun t => ∃ r, t.Fits r) (fun _ ht => ht.elim fun _ ht => ht.child) hb
      ⟨_, h.fits _ hchild⟩

theorem sourceFile_iff (h : a.Reads source tokens body) (id : NodeId) :
    a.kind? id = some .sourceFile ↔ id = a.root := by
  constructor
  · intro hkind
    by_contra hne
    have hid : id.index < a.size := by
      cases hn : a.get? id with
      | none => simp [kind?, hn] at hkind
      | some n => exact lt_size_of_get? hn
    obtain ⟨r, hfits⟩ := h.fits_tree hid hne
    rw [h.parsed.kind?_tree hid] at hkind
    exact absurd (Option.some.inj hkind) hfits.kind_ne
  · rintro rfl
    obtain ⟨root, hroot, -⟩ := h.parsed.subtree
    rw [h.parsed.kind?_tree (lt_size_of_get? hroot.node), h.tree_root]
    rfl

theorem grammatical (h : a.Reads source tokens body) : a.Grammatical where
  toParsed := h.parsed
  fits {id s} hs := by
    by_cases hne : id = a.root
    · have hk := (h.sourceFile_iff id).mpr hne
      rw [a.kind?_eq_map, hs] at hk
      cases s with
      | sourceFile body => exact .inl ⟨body, rfl⟩
      | _ => cases hk
    · obtain ⟨n, hn, -⟩ := Option.map_eq_some_iff.mp hs
      exact .inr (h.fits_tree (lt_size_of_get? hn) hne)

end Reads

end Arena

end SquirrelAnalyzer
