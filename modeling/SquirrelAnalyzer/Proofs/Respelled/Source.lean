import SquirrelAnalyzer.Proofs.Respelled.Nodes
import SquirrelAnalyzer.Proofs.Slots

namespace SquirrelAnalyzer

namespace Tree

namespace Fits

variable {t : Tree} {r : Role}

theorem isSlot_role (h : t.Fits r) (hs : t.shape.isSlot = true) : r.isSlot = true := by
  induction h with
  | ofBlock _ ih | ofVariables _ ih | ofExpression _ ih | initialVariables _ ih | ofName _ ih
  | propertyName _ ih | ownerName _ ih | identifier _ ih | function _ ih => cases ih hs
  | constructor | classMethod | classProperty | classComputed | slotMethod | slotProperty
  | slotComputed | enumMember => rfl
  | _ => cases hs

theorem holdsSlots (h : t.Fits r) {c : Tree} (hc : c ∈ t.shape.children .full)
    (hs : c.shape.isSlot = true) : t.shape.kind.holdsSlots = true := by
  obtain ⟨r', hpart, hfits⟩ := h.part c hc
  exact Kind.holdsSlots_of_partRole hpart (hfits.isSlot_role hs)

end Fits

end Tree

namespace Arena

variable {a a' : Arena} {id key : NodeId}

def Nested (a : Arena) : Prop :=
  ∀ {id c}, c ∈ a.children .full id → a.isSlot c = true → a.HoldsSlots id

theorem Parsed.tree_slot (h : a.Parsed) (hs : a.isSlot id = true) :
    (a.tree id).shape.isSlot = true := by
  obtain ⟨s, hshape, hslot⟩ : ∃ s, a.shape? id = some s ∧ s.isSlot = true := by
    unfold isSlot at hs
    cases hshape : a.shape? id with
    | none =>
      rw [hshape] at hs
      cases hs
    | some s =>
      rw [hshape] at hs
      exact ⟨s, rfl, hs⟩
  rw [h.shape_tree hshape, Shape.isSlot_map, hslot]

theorem Reads.nested {source : String} {tokens : List Token} {body : List Tree}
    (h : a.Reads source tokens body) : a.Nested := by
  intro id c hc hslot
  have hslot := h.parsed.tree_slot hslot
  obtain ⟨low, n, hn, hmem⟩ := h.parsed.subtree_of_child hc
  have hid := lt_size_of_get? hn.node
  have hchild : a.tree c ∈ (a.tree id).shape.children .full := by
    rw [hn.children_tree]
    exact List.mem_map_of_mem hmem
  refine ⟨_, h.parsed.kind?_tree hid, ?_⟩
  by_cases hroot : id = a.root
  · -- the root has statements below it
    subst hroot
    rw [h.tree_root] at hchild
    have hbody : a.tree c ∈ body := by
      simpa [Tree.shape, Shape.children, Shape.kind, Kind.fields, Shape.field] using hchild
    have hrole := (h.fits _ hbody).isSlot_role hslot
    cases hrole
  · obtain ⟨r, hfits⟩ := h.fits_tree hid hroot
    exact hfits.holdsSlots hchild hslot

def StartsBefore (a : Arena) (i j : NodeId) : Prop :=
  ∃ l m, a.location? i = some l ∧ a.location? j = some m ∧ l.startOffset < m.startOffset

def StartsBehind (a : Arena) (c : Doc.Comment) (id : NodeId) : Prop :=
  ∃ l, a.location? id = some l ∧ c.location.endOffset ≤ l.startOffset

structure Rekeyed (a a' : Arena) : Prop where
  node : ∀ id, a.shape? id = a'.shape? id ∨ a.Rewritten a' id ∨
    ∃ key, a.Bracketed a' key id ∧ a.Rewritten a' key
  owner : ∀ {key}, a.Rewritten a' key → ∃ id, a.Bracketed a' key id
  starts : ∀ {i j}, ¬ a.Rewritten a' i → ¬ a.Rewritten a' j →
    (a.StartsBefore i j ↔ a'.StartsBefore i j)
  comments : List.Forall₂ (fun c c' => c.attributes = c'.attributes ∧
    ∀ {id}, ¬ a.Rewritten a' id → (a.StartsBehind c id ↔ a'.StartsBehind c' id))
    a.comments a'.comments

theorem Bracketed.mem_children (h : a.Bracketed a' key id) : key ∈ a.children .full id := by
  obtain ⟨s, s', hs, -, hb⟩ := h
  rw [children_of_shape? hs]
  exact hb.mem_children

theorem Bracketed.shape?_ne (h : a.Bracketed a' key id) : a.shape? id ≠ a'.shape? id := by
  obtain ⟨s, s', hs, hs', hb⟩ := h
  rw [hs, hs']
  intro he
  cases he
  cases hb

namespace Rekeyed

variable (h : a.Rekeyed a')

include h

theorem isSome_shape? (id : NodeId) : (a.shape? id).isSome = (a'.shape? id).isSome := by
  rcases h.node id with hs | ⟨name, hs, hs'⟩ | ⟨key, ⟨s, s', hs, hs', -⟩, -⟩
  · rw [hs]
  · rw [hs, hs']
    rfl
  · rw [hs, hs']
    rfl

theorem size : a'.size = a.size := by
  have hsize (a : Arena) (i : Nat) : (a.shape? ⟨i⟩).isSome = decide (i < a.size) := by
    rw [shape?, Option.isSome_map, get?, Arena.size]
    by_cases hi : i < a.nodes.size
    · simp [hi]
    · simp [hi]
  have hlt (i : Nat) : i < a.size ↔ i < a'.size := by
    have hi := h.isSome_shape? ⟨i⟩
    rw [hsize, hsize] at hi
    simpa using hi
  have hleft := hlt a.size
  have hright := hlt a'.size
  omega

theorem root (ha : a.Parsed) (ha' : a'.Parsed) : a'.root = a.root := by
  obtain ⟨-, -, hroot⟩ := ha.subtree
  obtain ⟨-, -, hroot'⟩ := ha'.subtree
  have hsize := h.size
  rw [ha.whole] at hroot
  rw [ha'.whole] at hroot'
  have hindex : a'.root.index = a.root.index := by omega
  exact congrArg NodeId.mk hindex

theorem rewrite (ha : a.Parsed) (id : NodeId) : a.Rewrite a' id := by
  have howner {c : NodeId} (hc : c ∈ a.children .full id) (hr : a.Rewritten a' c) :
      a.Bracketed a' c id := by
    obtain ⟨owner, hb⟩ := h.owner hr
    obtain rfl := ha.parent_unique hb.mem_children hc
    exact hb
  rcases h.node id with hs | hr | ⟨key, ⟨s, s', hs, hs', hb⟩, hkey⟩
  · exact .same hs fun c hc hr => (howner hc hr).shape?_ne hs
  · exact .name hr
  · refine .bracket hs hs' hb hkey fun c hc hr => ?_
    have hchild : c ∈ a.children .full id := by
      rw [children_of_shape? hs]
      exact Shape.mem_children_of_operand hc
    obtain ⟨t, t', ht, ht', hbc⟩ := howner hchild hr
    obtain rfl := Option.some.inj (hs.symm.trans ht)
    obtain rfl := Option.some.inj (hs'.symm.trans ht')
    -- the key would be among the children twice
    have hcount := ha.count_child hchild
    rw [children_of_shape? hs] at hcount
    cases hb with
    | access object =>
      cases hbc
      obtain rfl := List.mem_singleton.mp hc
      simp [Shape.children, Shape.kind, Kind.fields, Shape.field] at hcount
    | slot isStatic value =>
      cases hbc
      obtain rfl := Option.mem_toList.mp hc
      simp [Shape.children, Shape.kind, Kind.fields, Shape.field] at hcount

theorem respelled (ha : a.Parsed) (ha' : a'.Parsed) (hn : a.Nested) (id : UnitId) :
    ({ a with unit := id } : Arena).Respelled { a' with unit := id } where
  unit := rfl
  root := h.root ha ha'
  parsedSize := by
    have hsize := h.size
    rw [← ha.whole, ← ha'.whole] at hsize
    exact hsize
  size := h.size
  left := ha.withUnit id
  right := ha'.withUnit id
  node id := by
    cases h.rewrite ha id with
    | same hs hc => exact .same hs hc
    | name hr => exact .name hr
    | bracket hs hs' hb hk ho => exact .bracket hs hs' hb hk ho
  slot {key c id} hb hc hk := by
    apply hn hc
    obtain ⟨s, hs, hkind⟩ := Option.map_eq_some_iff.mp ((kind?_eq_map a c).symm.trans hk)
    rw [isSlot, hs]
    cases s <;> first | rfl | cases hkind

end Rekeyed

end Arena

end SquirrelAnalyzer
