import SquirrelAnalyzer.Proofs.Steps.Name

namespace SquirrelAnalyzer

namespace Resolve

variable {p : Program} {I : Branch → Prop} {P : Prop}

theorem documentedValue_finds (h : p.Closed I) {b : Branch} (hb : P → I b) :
    Finds I P (fun ask => documentedValue p ask b) (Query.Holds I .value) := by
  unfold documentedValue
  apply Finds.bind (Finds.ask .definition hb)
  intro d
  apply Finds.bind (Finds.ofOption (Q := fun _ => True) fun _ _ _ => trivial)
  intro type
  exact lookupType_finds h fun hd => hd.1.2

theorem augmentedValue_finds (h : p.Closed I) {v : Option Value}
    (hv : P → ∀ x, v = some x → Query.Holds I .value x) :
    Finds I P (fun ask => augmentedValue p ask v) (Query.Holds I .value) := by
  unfold augmentedValue
  split
  · next cls call =>
    apply Finds.bind (Finds.ofOption (Q := I) _)
    · intro b
      exact Finds.ask .value fun hb => hb.2
    · intro hP b hb
      exact h.augmented? ((hv hP _ rfl).2 call rfl) hb
  · exact Finds.failure

theorem memberOf_finds (h : p.Closed I) {object : Branch} {name : String} {arity : Option Nat}
    (ho : P → I object) : Finds I P (fun ask => memberOf p ask object name arity) I := by
  unfold memberOf
  apply Finds.bind (Finds.attempt (Finds.ask .value ho))
  intro v
  apply Finds.orElse
  · apply Finds.bind (Finds.ofOption (Q := Query.Holds I .value) fun hv => hv.2)
    exact fun x => findMember_finds h fun hx => hx.2
  apply Finds.orElse
  · apply Finds.bind (documentedValue_finds h fun hv => ho hv.1)
    exact fun x => findMember_finds h fun hx => hx.2
  · apply Finds.bind (augmentedValue_finds h fun hv => hv.2)
    exact fun x => findMember_finds h fun hx => hx.2

theorem nameDefinition_finds (h : p.Closed I) {b : Branch} {name : String} (hb : P → I b) :
    Finds I P (fun ask => nameDefinition p ask b name) I := by
  unfold nameDefinition
  cases hp : b.parentBranch? with
  | none => exact lookupName_finds h hb
  | some parent =>
    dsimp only
    split
    · exact Finds.failure
    · next s hs =>
      split
      · next hproperty =>
        have hi : p.Inner parent := Program.inner_of_isPropertyOf hs hproperty
        exact Finds.ask .definition fun hP => h.parentBranch? (hb hP) hp hi
      · exact lookupName_finds h hb

theorem definitionStep_finds (h : p.Closed I) {b : Branch} (hb : P → I b)
    (hd : P → p.DeclaresIn I b) : Finds I P (fun ask => definitionStep p ask b) I := by
  unfold definitionStep
  apply Finds.bind (Finds.ofOption (Q := fun u => p.unit? b.unit = some u) fun _ _ h => h)
  intro u
  apply Finds.bind (Finds.ofOption (Q := fun s => u.arena.shape? b.target = some s) fun _ _ h => h)
  intro s
  have hchild (hP : (P ∧ p.unit? b.unit = some u) ∧ u.arena.shape? b.target = some s) {c : NodeId}
      (hc : c ∈ s.operands) : I (b.child c) :=
    h.childOf (hb hP.1.1) (Program.shape?_of_unit? hP.1.2 hP.2) hc
  cases s with
  | identifier name =>
    dsimp only
    cases hfound : declared? u b with
    | none => exact nameDefinition_finds h fun hP => hb hP.1.1
    | some found =>
      apply Finds.ofOption
      rintro hP d rfl
      exact hd hP.1.1 u name d hP.1.2 hP.2 hfound
  | memberExpression object property computed =>
    apply Finds.bind (Finds.ofOption (Q := fun _ => True) fun _ _ _ => trivial)
    intro name
    apply memberOf_finds h
    intro hP
    exact hchild hP.1 (by simp [Shape.operands])
  | rootExpression property =>
    apply Finds.bind (Finds.ofOption (Q := fun _ => True) fun _ _ _ => trivial)
    intro name
    exact Finds.ofOption fun hP d hd => h.rootName? (hb hP.1.1.1) hd
  | thisExpression =>
    apply Finds.bind (thisValue_finds h fun hP => hb hP.1.1)
    intro v
    exact branch?_finds fun hv => hv.2
  | baseExpression => exact baseClass_finds h fun hP => hb hP.1.1
  | callExpression callee arguments =>
    apply Finds.ask
    intro hP
    exact hchild hP (by simp [Shape.operands, Shape.children, Shape.kind, Kind.fields, Shape.field])
  | _ => exact Finds.failure

end Resolve

end SquirrelAnalyzer
