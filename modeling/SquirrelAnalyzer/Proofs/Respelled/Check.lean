import SquirrelAnalyzer.Proofs.Respelled.Source

namespace SquirrelAnalyzer

namespace Shape

variable {χ : Type} {s s' : Shape χ} {key : χ}

def plainKey? : Shape χ → Option χ
  | memberExpression _ key false | propertyDefinition _ false key _ => some key
  | _ => none

def inBrackets : Shape χ → Shape χ
  | memberExpression object key _ => memberExpression object key true
  | propertyDefinition isStatic _ key value => propertyDefinition isStatic true key value
  | s => s

theorem bracketed_iff : Bracketed key s s' ↔ s.plainKey? = some key ∧ s' = s.inBrackets := by
  constructor
  · intro h
    cases h <;> exact ⟨rfl, rfl⟩
  · rintro ⟨hkey, rfl⟩
    cases s with
    | memberExpression object property computed =>
      cases computed with
      | false =>
        cases hkey
        exact .access object
      | true => cases hkey
    | propertyDefinition isStatic computed property value =>
      cases computed with
      | false =>
        cases hkey
        exact .slot isStatic value
      | true => cases hkey
    | _ => cases hkey

instance [DecidableEq χ] : Decidable (Bracketed key s s') :=
  decidable_of_iff (s.plainKey? = some key ∧ s' = s.inBrackets) bracketed_iff.symm

end Shape

namespace Arena

variable {a a' : Arena} {id key : NodeId}

theorem rewritten_iff : a.Rewritten a' id ↔
    ∃ name ∈ a.identifierName? id, a'.shape? id = some (.literal (.string name)) := by
  refine exists_congr fun name => and_congr_left fun _ => ?_
  rw [Option.mem_def]
  refine ⟨fun hs => ?_, shape?_of_identifierName?⟩
  rw [identifierName?, hs]
  rfl

instance : Decidable (a.Rewritten a' id) := decidable_of_iff _ rewritten_iff.symm

theorem bracketed_iff : a.Bracketed a' key id ↔
    ∃ s ∈ a.shape? id, ∃ s' ∈ a'.shape? id, s.Bracketed key s' := by
  constructor
  · rintro ⟨s, s', hs, hs', hb⟩
    exact ⟨s, hs, s', hs', hb⟩
  · rintro ⟨s, hs, s', hs', hb⟩
    exact ⟨s, s', hs, hs', hb⟩

instance : Decidable (a.Bracketed a' key id) := decidable_of_iff _ bracketed_iff.symm

theorem startsBefore_iff_exists {i j : NodeId} : a.StartsBefore i j ↔
    ∃ l ∈ a.location? i, ∃ m ∈ a.location? j, l.startOffset < m.startOffset := by
  constructor
  · rintro ⟨l, m, hl, hm, hlt⟩
    exact ⟨l, hl, m, hm, hlt⟩
  · rintro ⟨l, hl, m, hm, hlt⟩
    exact ⟨l, m, hl, hm, hlt⟩

instance {i j : NodeId} : Decidable (a.StartsBefore i j) :=
  decidable_of_iff _ startsBefore_iff_exists.symm

instance {c : Doc.Comment} : Decidable (a.StartsBehind c id) :=
  inferInstanceAs (Decidable (∃ l ∈ a.location? id, c.location.endOffset ≤ l.startOffset))

structure RekeyedWithin (a a' : Arena) : Prop where
  size : a'.size = a.size
  node : ∀ i < a.size, a.shape? ⟨i⟩ = a'.shape? ⟨i⟩ ∨ a.Rewritten a' ⟨i⟩ ∨
    ∃ key ∈ (a.shape? ⟨i⟩).bind Shape.plainKey?,
      a.Bracketed a' key ⟨i⟩ ∧ a.Rewritten a' key
  owner : ∀ i < a.size, a.Rewritten a' ⟨i⟩ → ∃ j < a.size, a.Bracketed a' ⟨i⟩ ⟨j⟩
  starts : ∀ i < a.size, ∀ j < a.size, ¬ a.Rewritten a' ⟨i⟩ → ¬ a.Rewritten a' ⟨j⟩ →
    (a.StartsBefore ⟨i⟩ ⟨j⟩ ↔ a'.StartsBefore ⟨i⟩ ⟨j⟩)
  comments : a.comments.length = a'.comments.length
  comment : ∀ x ∈ a.comments.zip a'.comments, x.1.attributes = x.2.attributes ∧
    ∀ i < a.size, ¬ a.Rewritten a' ⟨i⟩ →
      (a.StartsBehind x.1 ⟨i⟩ ↔ a'.StartsBehind x.2 ⟨i⟩)

set_option synthInstance.maxSize 1000 in
instance : Decidable (a.RekeyedWithin a') :=
  decidable_of_iff _ ⟨fun ⟨size, node, owner, starts, comments, comment⟩ =>
      RekeyedWithin.mk size node owner starts comments comment,
    fun h => And.intro h.size (And.intro h.node (And.intro h.owner (And.intro h.starts
      (And.intro h.comments h.comment))))⟩

theorem shape?_of_size_le (h : a.size ≤ id.index) : a.shape? id = none := by
  simp [shape?, get?, Array.getElem?_eq_none h]

theorem lt_size_of_location? {l : Location} (h : a.location? id = some l) : id.index < a.size := by
  obtain ⟨n, hn, -⟩ := Option.map_eq_some_iff.mp h
  exact lt_size_of_get? hn

theorem StartsBefore.lt_size {i j : NodeId} (h : a.StartsBefore i j) :
    i.index < a.size ∧ j.index < a.size := by
  obtain ⟨l, m, hl, hm, -⟩ := h
  exact ⟨lt_size_of_location? hl, lt_size_of_location? hm⟩

theorem StartsBehind.lt_size {c : Doc.Comment} (h : a.StartsBehind c id) : id.index < a.size := by
  obtain ⟨l, hl, -⟩ := h
  exact lt_size_of_location? hl

theorem RekeyedWithin.rekeyed (h : a.RekeyedWithin a') : a.Rekeyed a' where
  node id := by
    by_cases hid : id.index < a.size
    · rcases h.node id.index hid with hs | hr | ⟨key, -, hb⟩
      · exact .inl hs
      · exact .inr (.inl hr)
      · exact .inr (.inr ⟨key, hb⟩)
    · have hle := Nat.le_of_not_lt hid
      exact .inl (by rw [shape?_of_size_le hle, shape?_of_size_le (h.size ▸ hle)])
  owner {key} hr := by
    obtain ⟨name, hs, -⟩ := id hr
    obtain ⟨j, -, hb⟩ := h.owner key.index (lt_size_of_shape? hs) hr
    exact ⟨⟨j⟩, hb⟩
  starts {i j} hi hj := by
    constructor
    · intro hlt
      obtain ⟨hi', hj'⟩ := hlt.lt_size
      exact (h.starts _ hi' _ hj' hi hj).mp hlt
    · intro hlt
      obtain ⟨hi', hj'⟩ := hlt.lt_size
      exact (h.starts _ (h.size ▸ hi') _ (h.size ▸ hj') hi hj).mpr hlt
  comments := by
    refine List.forall₂_iff_zip.mpr ⟨h.comments, fun {c c'} hc => ?_⟩
    obtain ⟨hattributes, hbehind⟩ := h.comment (c, c') hc
    refine ⟨hattributes, fun {id} hid => ⟨fun hb => ?_, fun hb => ?_⟩⟩
    · exact (hbehind _ hb.lt_size hid).mp hb
    · exact (hbehind _ (h.size ▸ hb.lt_size) hid).mpr hb

end Arena

end SquirrelAnalyzer
