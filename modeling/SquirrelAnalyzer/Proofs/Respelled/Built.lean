import Mathlib.Data.List.Forall2
import SquirrelAnalyzer.Proofs.Respelled.Documented

namespace SquirrelAnalyzer

section

variable {α β : Type} {R S : α → β → Prop} {le : α → α → Bool} {le' : β → β → Bool}

theorem forall₂_insertBy (hle : ∀ x y x' y', R x x' → R y y' → le x y = le' x' y') {x : α}
    {x' : β} (hx : R x x') {xs : List α} {ys : List β} (h : List.Forall₂ R xs ys) :
    List.Forall₂ R (insertBy le x xs) (insertBy le' x' ys) := by
  induction h with
  | nil => exact .cons hx .nil
  | cons hy h ih =>
    rw [insertBy, insertBy, ← hle _ _ _ _ hx hy]
    split
    · exact .cons hx (.cons hy h)
    · exact .cons hy ih

theorem forall₂_sortBy (hle : ∀ x y x' y', R x x' → R y y' → le x y = le' x' y')
    {xs : List α} {ys : List β} (h : List.Forall₂ R xs ys) :
    List.Forall₂ R (sortBy le xs) (sortBy le' ys) := by
  induction h with
  | nil => exact .nil
  | cons hx h ih => exact forall₂_insertBy hle hx ih

theorem forall₂_filter {p : α → Bool} {q : β → Bool} (hp : ∀ {x y}, R x y → p x = q y)
    (hs : ∀ {x y}, R x y → p x = true → S x y) {xs : List α} {ys : List β}
    (h : List.Forall₂ R xs ys) : List.Forall₂ S (xs.filter p) (ys.filter q) := by
  induction h with
  | nil => exact .nil
  | cons hx h ih =>
    rw [List.filter_cons, List.filter_cons, ← hp hx]
    split
    · next hkept => exact .cons (hs hx hkept) ih
    · exact ih

end

namespace Arena

variable {a a' : Arena} {n n' m m' : Node}

def Numbered (a : Arena) : Prop := ∀ i (h : i < a.nodes.size), a.nodes[i].id = ⟨i⟩

theorem Respelled.documented? (h : a.Respelled a') (hn : a.get? n.id = some n)
    (hn' : a'.get? n'.id = some n') (hid : n.id = n'.id) :
    a.documented? n = a'.documented? n' := by
  have hs : a.shape? n.id = some n.shape := by rw [shape?, hn]; rfl
  have hs' : a'.shape? n.id = some n'.shape := by rw [shape?, hid, hn']; rfl
  unfold Arena.documented?
  rw [← hid]
  cases h.node n.id with
  | same he hc =>
    rw [hs, hs'] at he
    rw [← Option.some.inj he]
    have hkind (e : NodeId) : a.kind? e = some .assignmentExpression ↔
        a'.kind? e = some .assignmentExpression :=
      h.kind?_eq_iff (k := .assignmentExpression) (by decide) (by decide) e
    simp only [hkind]
  | name hr =>
    obtain ⟨name, ht, ht'⟩ := hr
    rw [Option.some.inj (hs.symm.trans ht), Option.some.inj (hs'.symm.trans ht')]
  | bracket ht ht' hb _ _ =>
    rw [Option.some.inj (hs.symm.trans ht), Option.some.inj (hs'.symm.trans ht')]
    cases hb <;> rfl

structure Counterparts (a a' : Arena) (n n' : Node) : Prop where
  left : a.get? n.id = some n
  right : a'.get? n.id = some n'
  id : n.id = n'.id
  kept : ¬ a.Rewritten a' n.id
  documented : a.documented? n = a'.documented? n'

theorem location?_of_get? {id : NodeId} (hn : a.get? id = some n) :
    a.location? id = some n.location := by
  rw [location?, hn]
  rfl

theorem startsBefore_iff {i j : NodeId} (hn : a.get? i = some n) (hm : a.get? j = some m) :
    a.StartsBefore i j ↔ n.location.startOffset < m.location.startOffset := by
  constructor
  · rintro ⟨l, l', hl, hl', hlt⟩
    rw [location?_of_get? hn] at hl
    rw [location?_of_get? hm] at hl'
    cases hl
    cases hl'
    exact hlt
  · exact fun hlt => ⟨_, _, location?_of_get? hn, location?_of_get? hm, hlt⟩

theorem startsBehind_iff {id : NodeId} (hn : a.get? id = some n) (c : Doc.Comment) :
    a.StartsBehind c id ↔ c.location.endOffset ≤ n.location.startOffset := by
  constructor
  · rintro ⟨l, hl, hle⟩
    rw [location?_of_get? hn] at hl
    cases hl
    exact hle
  · exact fun hle => ⟨_, location?_of_get? hn, hle⟩

theorem Rekeyed.startsFirst (h : a.Rekeyed a') (hn : a.Counterparts a' n n')
    (hm : a.Counterparts a' m m') : Arena.startsFirst n m = Arena.startsFirst n' m' := by
  have hlt := h.starts hn.kept hm.kept
  have hgt := h.starts hm.kept hn.kept
  rw [startsBefore_iff hn.left hm.left, startsBefore_iff hn.right hm.right] at hlt
  rw [startsBefore_iff hm.left hn.left, startsBefore_iff hm.right hn.right] at hgt
  have heq : n.location.startOffset = m.location.startOffset ↔
      n'.location.startOffset = m'.location.startOffset := by omega
  unfold Arena.startsFirst
  simp only [hlt, heq, hn.id, hm.id]

theorem Rekeyed.forall₂_documentable (h : a.Rekeyed a') (hr : a.Respelled a')
    (hn : a.Numbered) (hn' : a'.Numbered) : List.Forall₂ (a.Counterparts a')
      (sortBy Arena.startsFirst (a.nodes.toList.filter fun n => (a.documented? n).isSome))
      (sortBy Arena.startsFirst (a'.nodes.toList.filter fun n => (a'.documented? n).isSome)) := by
  refine forall₂_sortBy (R := a.Counterparts a') (fun _ _ _ _ => h.startsFirst) (forall₂_filter
    (R := fun n n' => a.get? n.id = some n ∧ a'.get? n.id = some n' ∧ n.id = n'.id) ?_ ?_ ?_)
  · rintro n n' ⟨hget, hget', hid⟩
    rw [hr.documented? hget (hid ▸ hget') hid]
  · rintro n n' ⟨hget, hget', hid⟩ hkept
    refine ⟨hget, hget', hid, ?_, hr.documented? hget (hid ▸ hget') hid⟩
    rintro ⟨name, hs, -⟩
    rw [shape?, hget] at hs
    have hshape : n.shape = .identifier name := Option.some.inj hs
    rw [Arena.documented?, hshape] at hkept
    cases hkept
  · have hsize : a'.nodes.size = a.nodes.size := h.size
    refine List.forall₂_iff_get.mpr ⟨hsize.symm, fun i hi hi' => ?_⟩
    have hid := hn i hi
    have hid' := hn' i hi'
    simp only [List.get_eq_getElem, Array.getElem_toList, hid, hid', get?, and_true]
    exact ⟨Array.getElem?_eq_getElem hi, Array.getElem?_eq_getElem hi'⟩

theorem documentedBy?_eq {ns ns' : List Node} (h : List.Forall₂ (a.Counterparts a') ns ns')
    {c c' : Doc.Comment}
    (hc : ∀ {id}, ¬ a.Rewritten a' id → (a.StartsBehind c id ↔ a'.StartsBehind c' id)) :
    SourceUnit.documentedBy? (ns.filterMap fun n =>
        (a.documented? n).map (n.location.startOffset, ·)) c =
      SourceUnit.documentedBy? (ns'.filterMap fun n =>
        (a'.documented? n).map (n.location.startOffset, ·)) c' := by
  unfold SourceUnit.documentedBy?
  induction h with
  | nil => rfl
  | @cons n n' ns ns' hn h ih =>
    have hbehind := hc hn.kept
    rw [startsBehind_iff hn.left, startsBehind_iff hn.right] at hbehind
    rw [List.filterMap_cons, List.filterMap_cons, ← hn.documented]
    cases a.documented? n with
    | none => exact ih
    | some id =>
      simp only [Option.map_some, List.find?_cons, ← hbehind]
      cases decide (c.location.endOffset ≤ n.location.startOffset) with
      | true => rfl
      | false => exact ih

theorem Rekeyed.documentedBy? (h : a.Rekeyed a') (hr : a.Respelled a') (hn : a.Numbered)
    (hn' : a'.Numbered) {c c' : Doc.Comment}
    (hc : ∀ {id}, ¬ a.Rewritten a' id → (a.StartsBehind c id ↔ a'.StartsBehind c' id)) :
    SourceUnit.documentedBy? a.documentable c = SourceUnit.documentedBy? a'.documentable c' :=
  documentedBy?_eq (h.forall₂_documentable hr hn hn') hc

end Arena

namespace SourceUnit

variable {u u' : SourceUnit}

theorem Twin.attachAll (h : u.Twin u') (config : Config)
    {target target' : Doc.Comment → Option NodeId} {cs cs' : List Doc.Comment}
    (hc : List.Forall₂ (fun c c' => c.attributes = c'.attributes ∧ target c = target' c') cs cs') :
    (cs.foldl (fun u c =>
      match target c with
      | some target => SourceUnit.attachTo config u target c
      | none => u) u).Twin
    (cs'.foldl (fun u c =>
      match target' c with
      | some target => SourceUnit.attachTo config u target c
      | none => u) u') := by
  induction hc generalizing u u' with
  | nil => exact h
  | @cons c c' cs cs' hc _ ih =>
    refine ih ?_
    dsimp only
    rw [← hc.2]
    cases target c with
    | none => exact h
    | some target => exact h.attachTo config target hc.1

end SourceUnit

namespace Arena

variable {a a' : Arena}

theorem Rekeyed.withUnit (h : a.Rekeyed a') (id : UnitId) :
    ({ a with unit := id } : Arena).Rekeyed { a' with unit := id } :=
  ⟨h.node, h.owner, h.starts, h.comments⟩

theorem Rekeyed.build (h : a.Rekeyed a') (ha : a.Parsed) (ha' : a'.Parsed) (hn : a.Nested)
    (hnum : a.Numbered) (hnum' : a'.Numbered) (config : Config) (id : UnitId) :
    (SourceUnit.build config id a).Twin (SourceUnit.build config id a') := by
  have hr := h.respelled ha ha' hn id
  have htwin : (SourceUnit.ofArena config { a with unit := id }).Twin
      (SourceUnit.ofArena config { a' with unit := id }) :=
    ⟨h.ofArena ha ha' hn config id, SourceUnit.sound_ofArena config (ha.withUnit id) ha.whole,
      SourceUnit.grounded_ofArena config hn⟩
  refine htwin.attachAll config (h.comments.imp fun c c' hc => ⟨hc.1, ?_⟩)
  exact (h.withUnit id).documentedBy? hr hnum hnum' hc.2

end Arena

end SquirrelAnalyzer
