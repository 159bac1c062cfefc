import SquirrelAnalyzer.Proofs.Closed

namespace SquirrelAnalyzer

namespace Resolve

variable {p : Program} {I : Branch → Prop} {P : Prop}

theorem superclass_finds (h : p.Closed I) {cls : Branch} (hc : P → I cls) :
    Finds I P (fun ask => superclass p ask cls) I := by
  unfold superclass
  apply Finds.bind (Finds.ofOption (Q := fun parts =>
    (p.shape? cls).bind Shape.classParts? = some parts) fun _ _ h => h)
  rintro ⟨superclass, body⟩
  apply Finds.bind (Finds.ofOption (Q := fun c => superclass = some c) fun _ _ h => h)
  intro c
  apply Finds.bind
  · apply Finds.ask
    rintro ⟨⟨hP, hs⟩, rfl⟩
    obtain ⟨s, hs, hparts⟩ := Option.bind_eq_some_iff.mp hs
    exact h.childOf (hc hP) hs (Shape.mem_operands_of_superclass hparts)
  intro v
  apply Finds.bind (Finds.ofOption (Q := I) ?_)
  · intro b
    split
    · exact Finds.pure fun h => h.2
    · exact Finds.failure
  · rintro ⟨-, hv⟩ b hb
    cases v with
    | node b' i call =>
      cases hb
      exact hv.1
    | nominal name => cases hb

theorem superclassesUpTo_follows (h : p.Closed I) {n : Nat} {seen : List NodeRef} {cls : Branch}
    (hc : P → I cls) :
    Follows I P (fun ask => superclassesUpTo p ask n seen cls) fun bs => ∀ b ∈ bs, I b := by
  induction n generalizing seen cls P with
  | zero => exact Follows.pure fun _ _ h => nomatch h
  | succ n ih =>
    unfold superclassesUpTo
    apply Follows.bind (superclass_finds h hc)
    intro o
    cases o with
    | none => exact Follows.pure fun _ _ h => nomatch h
    | some s =>
      dsimp only
      split
      · exact Follows.pure fun _ _ h => nomatch h
      · apply Follows.bind (ih fun hs => hs.2 s rfl)
        intro bs
        apply Follows.pure
        rintro ⟨⟨-, hs⟩, hbs⟩ b hb
        rcases List.mem_cons.mp hb with rfl | hb
        · exact hs b rfl
        · exact hbs b hb

theorem superclasses_follows (h : p.Closed I) {cls : Branch} (hc : P → I cls) :
    Follows I P (fun ask => superclasses p ask cls) fun bs => ∀ b ∈ bs, I b :=
  superclassesUpTo_follows h hc

theorem levels_follows (h : p.Closed I) {v : Value} (hv : P → Query.Holds I .value v) :
    Follows I P (fun ask => levels p ask v) fun bs => ∀ b ∈ bs, I b := by
  unfold levels
  cases v with
  | nominal name => exact Follows.pure fun _ _ h => nomatch h
  | node b i call =>
    dsimp only [Value.branch?]
    split
    · apply Follows.bind (superclasses_follows h fun hP => (hv hP).1)
      intro bs
      apply Follows.pure
      rintro ⟨hP, hbs⟩ c hc
      rcases List.mem_cons.mp hc with rfl | hc
      · exact (hv hP).1
      · exact hbs c hc
    · apply Follows.pure
      rintro hP c hc
      rw [List.mem_singleton.mp hc]
      exact (hv hP).1

theorem findMember_finds (h : p.Closed I) {name : String} {arity : Option Nat} {v : Value}
    (hv : P → Query.Holds I .value v) :
    Finds I P (fun ask => findMember p ask name arity v) I := by
  unfold findMember
  apply Finds.bind (Finds.lift (levels_follows h hv))
  intro levels
  apply Finds.ofOption
  rintro ⟨-, hl⟩ b hb
  obtain ⟨owner, ho, hb⟩ := List.exists_of_findSome?_eq_some hb
  exact h.ownMember? (hl owner ho) hb

theorem mem_of_mem_nearest {m : Member} {ms : List Member} (h : m ∈ Member.nearest ms) : m ∈ ms := by
  induction ms with
  | nil => exact h
  | cons a ms ih =>
    rcases List.mem_cons.mp h with rfl | h
    · exact List.mem_cons_self
    · exact List.mem_cons_of_mem _ (ih (List.mem_filter.mp h).1)

theorem members_follows (h : p.Closed I) {v : Value} (hv : P → Query.Holds I .value v) :
    Follows I P (fun ask => members p ask v) fun ms => ∀ m ∈ ms, I m.branch := by
  unfold members
  apply Follows.bind (levels_follows h hv)
  intro levels
  apply Follows.pure
  rintro ⟨-, hl⟩ m hm
  obtain ⟨⟨owner, level⟩, ho, hm⟩ := List.mem_flatMap.mp (mem_of_mem_nearest hm)
  obtain ⟨own, hown, rfl⟩ := List.mem_map.mp hm
  have hol : owner ∈ levels := by
    obtain ⟨i, hi⟩ := List.mem_iff_getElem?.mp ho
    rw [List.getElem?_zipIdx] at hi
    obtain ⟨b, hb, he⟩ := Option.map_eq_some_iff.mp hi
    cases he
    exact List.mem_of_getElem? hb
  exact h.ownMember (hl owner hol) hown

end Resolve

end SquirrelAnalyzer
