import SquirrelAnalyzer.Proofs.Steps.Definition

namespace SquirrelAnalyzer

namespace Resolve

variable {p : Program} {I : Branch → Prop} {P : Prop}

theorem returnValue_finds (h : p.Closed I) {function : Branch} (hf : P → I function) :
    Finds I P (fun ask => returnValue p ask function) (Query.Holds I .value) := by
  unfold returnValue
  apply Finds.bind (Finds.ofOption (Q := fun u => p.unit? function.unit = some u) fun _ _ h => h)
  intro u
  apply Finds.bind
    (Finds.ofOption (Q := fun s => u.arena.shape? function.target = some s) fun _ _ h => h)
  intro s
  split
  · apply Finds.orElse
    · exact lookupType_finds h fun hP => hf hP.1.1
    · exact Finds.pure fun _ => trivial
  apply Finds.bind (Finds.ofOption (Q := fun body => s.functionBody? = some body) fun _ _ h => h)
  intro body
  have hbody (hP : ((P ∧ p.unit? function.unit = some u) ∧
      u.arena.shape? function.target = some s) ∧ s.functionBody? = some body) :
      I (function.child body) :=
    h.childOf (hf hP.1.1.1) (Program.shape?_of_unit? hP.1.1.2 hP.1.2)
      (Shape.mem_operands_of_functionBody hP.2)
  dsimp only
  split
  · exact Finds.ask .value hbody
  split
  · exact Finds.pure fun _ => trivial
  apply Finds.bind (Finds.ofOption (Q := fun statement => I statement ∧
    p.unit? statement.unit = some u) _)
  · intro statement
    split
    · next argument hs =>
      apply Finds.ask
      rintro ⟨-, hi, hu⟩
      apply h.childOf hi (Program.shape?_of_unit? hu hs)
      simp [Shape.operands, Shape.children, Shape.kind, Kind.fields, Shape.field]
    · exact Finds.failure
  · intro hP statement hs
    have hu : p.unit? (function.child body).unit = some u := hP.1.1.2
    refine ⟨h.own (hbody hP) hu hs, ?_⟩
    rw [Program.unit_of_ownNodeUpTo hs]
    exact hu

def calledValue (p : Program) (ask : Ask) (b : Branch) : Value → Resolve Value
  | .node callee false _ => do
    let kind ← ofOption (p.kind? callee)
    if kind.isClass then return .instanceOf callee (some b)
    else if kind.isFunction then returnValue p ask callee
    else failure
  | _ => failure

theorem callValue_eq (p : Program) (ask : Ask) (b : Branch) (callee : NodeId) :
    callValue p ask b callee = ask .value (b.child callee) >>= calledValue p ask b := rfl

theorem calledValue_function {ask : Ask} {b f : Branch} {made : Option Branch} {kind : Kind}
    (hk : p.kind? f = some kind) (hfunction : kind.isFunction = true) :
    calledValue p ask b (.node f false made) = returnValue p ask f := by
  have hclass : kind.isClass = false := by cases kind <;> first | rfl | cases hfunction
  rw [calledValue, hk, bind_ofOption_some, hclass, hfunction]
  rfl

theorem calledValue_finds (h : p.Closed I) {b : Branch} {v : Value} (hb : P → I b)
    (hv : P → Query.Holds I .value v) :
    Finds I P (fun ask => calledValue p ask b v) (Query.Holds I .value) := by
  unfold calledValue
  split
  · next cls call =>
    apply Finds.bind (Finds.ofOption (Q := fun _ => True) fun _ _ _ => trivial)
    intro kind
    split
    · apply Finds.pure
      rintro ⟨hP, -⟩
      refine ⟨(hv hP).1, ?_⟩
      rintro _ ⟨⟩
      exact hb hP
    · split
      · exact returnValue_finds h fun hP => (hv hP.1).1
      · exact Finds.failure
  · exact Finds.failure

theorem callValue_finds (h : p.Closed I) {b : Branch} {callee : NodeId} (hb : P → I b)
    (hc : P → I (b.child callee)) :
    Finds I P (fun ask => callValue p ask b callee) (Query.Holds I .value) :=
  Finds.bind (Finds.ask .value hc) fun _ => calledValue_finds h (fun hv => hb hv.1) (·.2)

theorem metaValue_finds (h : p.Closed I) {b : Branch} (hb : P → I b) :
    Finds I P (fun ask => metaValue p ask b) (Query.Holds I .value) := by
  unfold metaValue
  apply Finds.bind (Finds.ofOption (Q := fun u => p.unit? b.unit = some u) fun _ _ h => h)
  intro u
  split
  · next getter hget =>
    apply Finds.bind (Finds.ofOption (Q := I) fun hP d hd => h.getter (hb hP.1) hP.2 hget hd)
    intro method
    apply Finds.bind (Finds.ask .value fun hm => hm.2)
    intro function
    apply Finds.bind (branch?_finds fun hf => hf.2)
    intro callable
    exact returnValue_finds h fun hc => hc.2
  · exact Finds.pure fun hP => ⟨hb hP.1, fun _ h => nomatch h⟩

theorem valueStep_finds (h : p.Closed I) {b : Branch} (hb : P → I b) :
    Finds I P (fun ask => valueStep p ask b) (Query.Holds I .value) := by
  unfold valueStep
  apply Finds.bind (Finds.ofOption (Q := fun s => p.shape? b = some s) fun _ _ h => h)
  intro s
  have hchild (hP : P ∧ p.shape? b = some s) {c : NodeId} (hc : c ∈ s.operands) :
      I (b.child c) := h.childOf (hb hP.1) hP.2 hc
  have hself : Finds I (P ∧ p.shape? b = some s) (fun _ => pure (Value.ofBranch b))
      (Query.Holds I .value) := Finds.pure fun hP => ⟨hb hP.1, fun _ h => nomatch h⟩
  have hask {c : NodeId} (hc : c ∈ s.operands) :
      Finds I (P ∧ p.shape? b = some s) (fun ask => ask .value (b.child c))
        (Query.Holds I .value) := Finds.ask .value fun hP => hchild hP hc
  cases s with
  | variableDeclarator id init =>
    apply Finds.bind (Finds.ofOption (Q := fun c => init = some c) fun _ _ h => h)
    intro c
    apply Finds.ask
    rintro ⟨hP, rfl⟩
    exact hchild hP (by simp [Shape.operands, Shape.children, Shape.kind, Kind.fields, Shape.field])
  | propertyDefinition isStatic computed key value =>
    apply Finds.bind (Finds.ofOption (Q := fun c => value = some c) fun _ _ h => h)
    intro c
    apply Finds.ask
    rintro ⟨hP, rfl⟩
    exact hchild hP (by simp [Shape.operands])
  | methodDefinition kind isStatic key value =>
    exact hask (by simp [Shape.operands, Shape.children, Shape.kind, Kind.fields, Shape.field])
  | enumMember id init =>
    cases init with
    | none => exact hself
    | some init => exact hask (by simp [Shape.operands, Shape.children, Shape.kind, Kind.fields, Shape.field])
  | metaProperty key => exact metaValue_finds h fun hP => hb hP.1
  | assignmentPattern left right =>
    exact hask (by simp [Shape.operands, Shape.children, Shape.kind, Kind.fields, Shape.field])
  | assignmentExpression op left right =>
    exact hask (by simp [Shape.operands, Shape.children, Shape.kind, Kind.fields, Shape.field])
  | identifier name =>
    apply Finds.bind (Finds.ask .definition fun hP => hb hP.1)
    intro d
    split
    · exact Finds.failure
    · exact Finds.ask .value fun hd => hd.2
  | memberExpression object property computed =>
    apply Finds.bind (Finds.ask .definition fun hP => hb hP.1)
    exact fun d => Finds.ask .value fun hd => hd.2
  | rootExpression property =>
    apply Finds.bind (Finds.ask .definition fun hP => hb hP.1)
    exact fun d => Finds.ask .value fun hd => hd.2
  | thisExpression => exact thisValue_finds h fun hP => hb hP.1
  | baseExpression =>
    apply Finds.bind (baseClass_finds h fun hP => hb hP.1)
    intro cls
    exact Finds.pure fun hc => ⟨hc.2, fun _ h => nomatch h⟩
  | callExpression callee arguments =>
    apply callValue_finds h (fun hP => hb hP.1)
    intro hP
    exact hchild hP (by simp [Shape.operands, Shape.children, Shape.kind, Kind.fields, Shape.field])
  | unaryExpression op isPrefixed argument =>
    cases op with
    | clone => exact hask (by simp [Shape.operands, Shape.children, Shape.kind, Kind.fields, Shape.field])
    | _ => exact hself
  | conditionalExpression test consequent alternate =>
    apply Finds.orElse
    · exact hask (by simp [Shape.operands, Shape.children, Shape.kind, Kind.fields, Shape.field])
    · exact hask (by simp [Shape.operands, Shape.children, Shape.kind, Kind.fields, Shape.field])
  | _ => exact hself

end Resolve

namespace Program

variable {p : Program} {I : Branch → Prop} {P : Prop}

def stepAt (p : Program) (ask : Ask) : (q : Query) → Branch → Resolve q.Answer
  | .definition, b => Resolve.definitionStep p ask b
  | .value, b => Resolve.valueStep p ask b

theorem step_eq_stepAt (ask : Ask) (q : Query) (b : Branch) :
    p.step ask q b = p.stepAt ask q (p.anchor b) := by
  cases q <;> rfl

theorem stepAt_finds (h : p.Closed I) {q : Query} {b : Branch} (hb : P → I b) :
    Finds I P (fun ask => p.stepAt ask q (p.anchor b)) (q.Holds I) := by
  have hpath (hP : P) : I (p.anchor b) := h.anchor (hb hP)
  cases q with
  | definition => exact Resolve.definitionStep_finds h hpath fun hP => h.declared? (hb hP)
  | value => exact Resolve.valueStep_finds h hpath

theorem holds_direct? {q : Query} {kind : Kind} {b : Branch} (hb : I b) {answer : q.Answer}
    (ha : direct? kind q b = some answer) : q.Holds I answer := by
  cases q with
  | definition =>
    simp only [direct?] at ha
    split at ha
    · cases ha
      exact hb
    · cases ha
  | value =>
    cases ha
    exact ⟨hb, fun _ h => nomatch h⟩

end Program

end SquirrelAnalyzer
