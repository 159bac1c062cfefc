import SquirrelAnalyzer.Proofs.Closed
import SquirrelAnalyzer.Resolve.Label

namespace SquirrelAnalyzer

namespace Resolve

variable {p : Program} {I : Branch → Prop} {P : Prop}

theorem documentedType?_follows {b : Branch} (hb : P → I b) :
    Follows I P (fun ask => documentedType? p ask b) fun _ => True := by
  unfold documentedType?
  split
  · exact Follows.pure fun _ => trivial
  apply Follows.bind (Follows.ask .definition hb)
  intro o
  cases o with
  | none => exact Follows.pure fun _ => trivial
  | some d =>
    dsimp only
    split
    · exact Follows.pure fun _ => trivial
    · exact Follows.pure fun _ => trivial

theorem shapeLabel_follows {infer : Ask → Branch → Resolving TypeLabel} {u : SourceUnit}
    {b : Branch} {isInstance : Bool} {s : Shape NodeId}
    (hi : ∀ c ∈ s.operands, Follows I P (fun ask => infer ask (b.child c)) fun _ => True) :
    Follows I P (fun ask => shapeLabel (infer ask) u b isInstance s) fun _ => True := by
  unfold shapeLabel
  split
  case h_4 first rest =>
    split
    · exact Follows.pure fun _ => trivial
    · apply Follows.bind (hi first (by simp [Shape.operands, Shape.children, Shape.kind, Kind.fields, Shape.field]))
      exact fun _ => Follows.pure fun _ => trivial
  case h_12 operator left right =>
    split
    · exact Follows.pure fun _ => trivial
    · apply Follows.bind (hi left (by simp [Shape.operands, Shape.children, Shape.kind, Kind.fields, Shape.field]))
      intro l
      have hr := hi right (by simp [Shape.operands, Shape.children, Shape.kind, Kind.fields, Shape.field])
      apply Follows.bind (hr.of_imp And.left)
      exact fun _ => Follows.pure fun _ => trivial
  case h_13 operator isPrefixed argument =>
    have ha := hi argument (by simp [Shape.operands, Shape.children, Shape.kind, Kind.fields, Shape.field])
    cases operator
    case neg | bitNot | increment | decrement => exact ha
    all_goals exact Follows.pure fun _ => trivial
  all_goals exact Follows.pure fun _ => trivial

theorem valueLabel_follows (h : p.Closed I) {infer : Ask → Branch → Resolving TypeLabel} {v : Value}
    (hv : P → Query.Holds I .value v)
    (hi : ∀ {c : Branch}, (P → I c) → Follows I P (fun ask => infer ask c) fun _ => True) :
    Follows I P (fun ask => valueLabel p (infer ask) v) fun _ => True := by
  cases v with
  | nominal name => exact Follows.pure fun _ => trivial
  | node c isInstance call =>
    dsimp only [valueLabel]
    split
    · exact Follows.pure fun _ => trivial
    · next u hu =>
      split
      · exact Follows.pure fun _ => trivial
      · next s hs =>
        refine shapeLabel_follows fun d hd => hi fun hP => ?_
        exact h.childOf (hv hP).1 (Program.shape?_of_unit? hu hs) hd

def undocumentedLabel (p : Program) (ask : Ask) (n : Nat) (b : Branch) : Resolving TypeLabel := do
  (← (ask .value b).run).elim (pure .any) (valueLabel p (labelWithin p ask n))

theorem labelWithin_succ (p : Program) (ask : Ask) (n : Nat) (b : Branch) :
    labelWithin p ask (n + 1) b =
      documentedType? p ask b >>= fun o => o.elim (undocumentedLabel p ask n b) pure := by
  rw [labelWithin]
  refine congrArg (documentedType? p ask b >>= ·) (funext fun o => ?_)
  cases o with
  | some label => rfl
  | none => exact congrArg ((ask .value b).run >>= ·) (funext fun v => by cases v <;> rfl)

theorem undocumentedLabel_follows (h : p.Closed I) {n : Nat} {b : Branch} (hb : P → I b)
    (ih : ∀ {c : Branch} {P : Prop}, (P → I c) →
      Follows I P (fun ask => labelWithin p ask n c) fun _ => True) :
    Follows I P (fun ask => undocumentedLabel p ask n b) fun _ => True := by
  apply Follows.bind (Follows.ask .value hb)
  intro v
  cases v with
  | none => exact Follows.pure fun _ => trivial
  | some v => exact valueLabel_follows h (fun hP => hP.2 v rfl) ih

theorem labelWithin_follows (h : p.Closed I) {n : Nat} {b : Branch} (hb : P → I b) :
    Follows I P (fun ask => labelWithin p ask n b) fun _ => True := by
  induction n generalizing b P with
  | zero => exact Follows.pure fun _ => trivial
  | succ n ih =>
    simp only [labelWithin_succ]
    apply Follows.bind (documentedType?_follows hb)
    intro o
    cases o with
    | some label => exact Follows.pure fun _ => trivial
    | none => exact undocumentedLabel_follows h (fun hP => hb hP.1) ih

theorem label_follows (h : p.Closed I) {b : Branch} (hb : P → I b) :
    Follows I P (fun ask => label p ask b) fun _ => True :=
  labelWithin_follows h hb

end Resolve

end SquirrelAnalyzer
