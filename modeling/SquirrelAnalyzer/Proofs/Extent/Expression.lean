import SquirrelAnalyzer.Proofs.Extent.Cursor
import SquirrelAnalyzer.Proofs.Tree

namespace SquirrelAnalyzer

structure Grammar.Builds (tokens : List Token) (g : Grammar) : Prop where
  statement : Parser.Builds tokens g.statement (Tree.Tight tokens)
  assignment : Parser.Builds tokens g.assignment (Tree.Tight tokens)
  binary : ∀ least, Parser.Builds tokens (g.binary least) (Tree.Tight tokens)
  unary : Parser.Builds tokens g.unary (Tree.Tight tokens)

namespace Parser

open Cursor SquirrelAnalyzer.Tree

variable {tokens : List Token} {g : Grammar} (hg : g.Builds tokens)

section

include hg

theorem parameter_builds : Builds tokens (parameter g) (Tight tokens) := by
  refine Builds.after Onward.at? fun b => ?_
  cases b with
  | true => exact Builds.after Onward.advance fun t => Builds.leaf rfl rfl
  | false =>
    refine Builds.identifier.bind fun left hleft => Builds.after Onward.eat fun b => ?_
    cases b with
    | false => exact Builds.pure hleft
    | true =>
      refine hg.assignment.bind fun right hright => Builds.node rfl ?_
      simp [Shape.children, Shape.kind, Kind.fields, Shape.field, hleft, hright]

theorem parameters_builds : Builds tokens (parameters g) fun l => ∀ t ∈ l, t.Tight tokens :=
  Builds.after Onward.expectPunct fun _ => Builds.listUntil (parameter_builds hg)

theorem block_builds : Builds tokens (block g) (Tight tokens) := by
  refine Builds.after Onward.expectPunct fun t => ?_
  refine Builds.bind (F := fun l => ∀ t ∈ l, t.Tight tokens) (Builds.many ?_) fun body hbody =>
    Builds.node rfl ?_
  · refine Builds.after Onward.skip fun _ => Builds.after Onward.eat fun b => ?_
    cases b with
    | true => exact Builds.none
    | false =>
      refine Builds.after Onward.at? fun b => ?_
      cases b with
      | true => exact Builds.fail
      | false => exact hg.statement.some
  · simpa [Shape.children, Shape.kind, Kind.fields, Shape.field] using hbody

theorem functionValue_builds : Builds tokens (functionValue g) (Tight tokens) := by
  refine Builds.after Onward.peek fun t => (parameters_builds hg).bind fun params hparams => ?_
  refine (block_builds hg).bind fun body hbody => Builds.node rfl ?_
  simpa [Shape.children, Shape.kind, Kind.fields, Shape.field, or_imp, forall_and] using
    And.intro hparams hbody

theorem slotKey_builds : Builds tokens (slotKey g) fun x => x.1.Tight tokens := by
  refine Builds.after Onward.eat fun b => ?_
  cases b with
  | true =>
    refine hg.assignment.bind fun key hkey => Builds.after Onward.expectPunct fun _ => ?_
    exact Builds.pure hkey
  | false =>
    refine Builds.after Onward.peek fun t => ?_
    split
    · refine Builds.after Onward.advance fun t => ?_
      exact Builds.bind (Builds.leaf rfl rfl) fun key hkey => Builds.pure hkey
    · exact Builds.propertyName.bind fun key hkey => Builds.pure hkey

theorem method_builds {start : Nat} {kind : MethodKind} {isStatic : Bool} {key : Tree}
    (hkey : key.Tight tokens) :
    Builds tokens (do node start (.methodDefinition kind isStatic key (← functionValue g)))
      (Tight tokens) := by
  refine (functionValue_builds hg).bind fun value hvalue => Builds.node rfl ?_
  simp [Shape.children, Shape.kind, Kind.fields, Shape.field, hkey, hvalue]

theorem property_builds {start : Nat} {isStatic computed : Bool} {key : Tree}
    (hkey : key.Tight tokens) :
    Builds tokens (do node start (.propertyDefinition isStatic computed key (some (← g.assignment))))
      (Tight tokens) := by
  refine hg.assignment.bind fun value hvalue => Builds.node rfl ?_
  simp [Shape.children, Shape.kind, Kind.fields, Shape.field, hkey, hvalue]

theorem tableSlot_builds : Builds tokens (tableSlot g) (Tight tokens) := by
  refine Builds.after Onward.peek fun t => Builds.after Onward.eat fun b => ?_
  cases b with
  | true => exact Builds.identifier.bind fun key hkey => method_builds hg hkey
  | false =>
    refine (slotKey_builds hg).bind fun x hx => Builds.after Onward.eat fun b => ?_
    cases b with
    | true => exact property_builds hg hx
    | false => exact Builds.after Onward.expectPunct fun _ => property_builds hg hx

theorem table_builds : Builds tokens (table g) (Tight tokens) := by
  refine Builds.after Onward.expectPunct fun t => ?_
  refine (Builds.braced (tableSlot_builds hg)).bind fun properties h => Builds.node rfl ?_
  simpa [Shape.children, Shape.kind, Kind.fields, Shape.field] using h

theorem classMember_builds : Builds tokens (classMember g) (Tight tokens) := by
  refine Builds.after Onward.peek fun t => Builds.after Onward.eat fun isStatic => ?_
  refine Builds.after Onward.at? fun b => ?_
  cases b with
  | true =>
    refine Builds.after Onward.advance fun t => ?_
    exact Builds.bind (Builds.leaf rfl rfl) fun key hkey => method_builds hg hkey
  | false =>
    refine Builds.after Onward.eat fun b => ?_
    cases b with
    | true => exact Builds.identifier.bind fun key hkey => method_builds hg hkey
    | false =>
      refine (slotKey_builds hg).bind fun x hx => Builds.after Onward.expectPunct fun _ => ?_
      exact property_builds hg hx

theorem classBody_builds : Builds tokens (classBody g) (Tight tokens) := by
  refine Builds.after Onward.expectPunct fun t => ?_
  refine (Builds.braced (classMember_builds hg)).bind fun body h => Builds.node rfl ?_
  simpa [Shape.children, Shape.kind, Kind.fields, Shape.field] using h

theorem superclass_builds : Builds tokens (superclass g) fun o => ∀ t ∈ o, t.Tight tokens := by
  refine Builds.after Onward.eat fun b => ?_
  cases b with
  | true => exact hg.unary.some
  | false => exact Builds.none

theorem lambda_builds : Builds tokens (lambda g) (Tight tokens) := by
  refine Builds.after Onward.expectPunct fun t => ?_
  refine (parameters_builds hg).bind fun params hparams => ?_
  refine hg.assignment.bind fun body hbody => Builds.node rfl ?_
  simpa [Shape.children, Shape.kind, Kind.fields, Shape.field, or_imp, forall_and] using
    And.intro hparams hbody

theorem array_builds : Builds tokens (array g) (Tight tokens) := by
  refine Builds.after Onward.expectPunct fun t => ?_
  refine (Builds.listUntil hg.assignment).bind fun elements h => Builds.node rfl ?_
  simpa [Shape.children, Shape.kind, Kind.fields, Shape.field] using h

theorem parenthesized_builds : Builds tokens (parenthesized g) (Tight tokens) := by
  refine Builds.after Onward.expectPunct fun _ => hg.assignment.bind fun inner hinner => ?_
  exact Builds.after Onward.expectPunct fun _ => Builds.pure hinner

theorem primary_builds : Builds tokens (primary g) (Tight tokens) := by
  refine Builds.after Onward.peek fun t => ?_
  split
  · exact Builds.identifier
  · exact Builds.after Onward.advance fun _ => Builds.leaf rfl rfl
  · exact Builds.after Onward.advance fun _ => Builds.leaf rfl rfl
  · refine Builds.after Onward.advance fun _ => Builds.propertyName.bind fun property h => ?_
    refine Builds.node rfl ?_
    simpa [Shape.children, Shape.kind, Kind.fields, Shape.field] using h
  · exact parenthesized_builds hg
  · exact table_builds hg
  · exact array_builds hg
  · exact lambda_builds hg
  · refine Builds.after Onward.advance fun _ => (parameters_builds hg).bind fun params hparams => ?_
    refine (block_builds hg).bind fun body hbody => Builds.node rfl ?_
    simpa [Shape.children, Shape.kind, Kind.fields, Shape.field, or_imp, forall_and] using
      And.intro hparams hbody
  · refine Builds.after Onward.advance fun _ => (superclass_builds hg).bind fun parent hparent => ?_
    refine (classBody_builds hg).bind fun body hbody => Builds.node rfl ?_
    simpa [Shape.children, Shape.kind, Kind.fields, Shape.field, or_imp, forall_and] using
      And.intro hparent hbody
  · split
    · exact Builds.after Onward.advance fun _ => Builds.leaf rfl rfl
    · exact Builds.fail

end

theorem propertyName_ends {P : Cursor → Prop} : Ensures P propertyName fun x c =>
    x.span.stop = max c.lastEnd x.start := by
  have hnode {start : Nat} {shape : Shape Tree} : Ensures (fun _ => True) (node start shape)
      fun x c => x.span.stop = max c.lastEnd x.start := by
    rintro c _ _ - ⟨⟩
    rfl
  have hadvance {P : Cursor → Prop} : Ensures P advance fun _ _ => True := fun _ _ _ _ _ => trivial
  refine Ensures.bind Ensures.peek fun t => ?_
  split
  · exact Ensures.bind hadvance fun t => hnode
  · refine Ensures.bind Ensures.peek fun t => ?_
    split
    · exact Ensures.bind hadvance fun t => hnode
    · exact Ensures.fail

theorem member_builds {start : Nat} {e : Tree} (hstart : e.start = start) (he : e.Tight tokens) :
    Builds tokens (do node start (.memberExpression e (← propertyName) false)) fun x =>
      x.start = start ∧ x.Tight tokens := by
  refine Ensures.bind (Q := fun x c => (x.Tight tokens ∧ c.Within tokens) ∧
    x.span.stop = max c.lastEnd x.start)
    (fun c x c' hc hr => ⟨Builds.propertyName c x c' hc hr, propertyName_ends c x c' hc hr⟩) ?_
  rintro property c _ _ ⟨⟨hproperty, hc⟩, hstop⟩ ⟨⟩
  refine ⟨⟨rfl, ?_⟩, hc⟩
  constructor
  · rintro _ _ _ ⟨⟩
    exact ⟨hstart.symm, fun _ => ⟨c.lastEnd, rfl, hstop⟩⟩
  · exact nofun
  · simp [Shape.unqualified, Shape.qualified?, Shape.children, Shape.kind, Kind.fields, Shape.field, he, hproperty]

theorem index_builds {start : Nat} {e property : Tree} (hstart : e.start = start)
    (he : e.Tight tokens) (hproperty : property.Tight tokens) :
    Builds tokens (node start (.memberExpression e property true)) fun x =>
      x.start = start ∧ x.Tight tokens := by
  rintro c _ _ hc ⟨⟩
  refine ⟨⟨rfl, ?_⟩, hc⟩
  constructor
  · rintro _ _ _ ⟨⟩
    exact ⟨hstart.symm, nofun⟩
  · exact nofun
  · simp [Shape.unqualified, Shape.qualified?, Shape.children, Shape.kind, Kind.fields, Shape.field, he, hproperty]

include hg

theorem postfixStep_builds {start : Nat} {e : Tree} (he : e.start = start ∧ e.Tight tokens) :
    Builds tokens (postfixStep g start e) fun o =>
      ∀ x ∈ o, x.start = start ∧ x.Tight tokens := by
  refine Builds.after Onward.peek fun t => ?_
  split
  · refine Builds.after Onward.advance fun _ => ?_
    have h := (member_builds he.1 he.2).some
    simpa only [bind_assoc] using h
  · refine Builds.after Onward.advance fun _ => ?_
    refine (Builds.listUntil hg.assignment).bind fun arguments h => (Builds.node_at rfl ?_).some
    simpa [Shape.children, Shape.kind, Kind.fields, Shape.field, or_imp, forall_and] using
      And.intro he.2 h
  · split
    · exact Builds.none
    · refine Builds.after Onward.advance fun _ => hg.assignment.bind fun property h => ?_
      exact Builds.after Onward.expectPunct fun _ => (index_builds he.1 he.2 h).some
  · split
    · split
      · exact Builds.none
      · refine Builds.after Onward.advance fun _ => (Builds.node_at rfl ?_).some
        simpa [Shape.children, Shape.kind, Kind.fields, Shape.field] using he.2
    · exact Builds.none

theorem postfixed_builds : Builds tokens (postfixed g) (Tight tokens) := by
  refine (primary_builds hg).bind fun e he => ?_
  exact (Builds.iterate (fun x hx => postfixStep_builds hg hx) ⟨rfl, he⟩).mono fun _ hx => hx.2

theorem yield_builds : Builds tokens (yield g) (Tight tokens) := by
  refine Builds.after Onward.expectKeyword fun t => ?_
  have hnode (argument : Option Tree) (h : ∀ t ∈ argument, t.Tight tokens) :
      Builds tokens (node t.span.start (.yieldExpression argument)) (Tight tokens) := by
    refine Builds.node rfl ?_
    simpa [Shape.children, Shape.kind, Kind.fields, Shape.field] using h
  refine Builds.after Onward.atTerminator fun b => ?_
  cases b with
  | true => exact Builds.none.bind hnode
  | false => exact hg.assignment.map_some.bind hnode

theorem unary_builds : Builds tokens (unary g) (Tight tokens) := by
  refine Builds.after Onward.peek fun t => ?_
  split
  · exact yield_builds hg
  · split
    · refine Builds.after Onward.advance fun _ => hg.unary.bind fun argument h => Builds.node rfl ?_
      simpa [Shape.children, Shape.kind, Kind.fields, Shape.field] using h
    · exact postfixed_builds hg

theorem binaryStep_builds {least : Nat} {left : Tree} (hleft : left.Tight tokens) :
    Builds tokens (binaryStep g least left) fun o => ∀ x ∈ o, x.Tight tokens := by
  refine Builds.after Onward.peek fun t => ?_
  split
  · split
    · exact Builds.none
    · refine Builds.after Onward.advance fun _ => (hg.binary _).bind fun right hright => ?_
      refine (Builds.node rfl ?_).some
      simp [Shape.children, Shape.kind, Kind.fields, Shape.field, hleft, hright]
  · exact Builds.none

theorem binary_builds (least : Nat) : Builds tokens (binary g least) (Tight tokens) :=
  (unary_builds hg).bind fun _ hleft => Builds.iterate (fun _ h => binaryStep_builds hg h) hleft

theorem conditional_builds : Builds tokens (conditional g) (Tight tokens) := by
  refine (binary_builds hg 1).bind fun test htest => Builds.after Onward.eat fun b => ?_
  cases b with
  | false => exact Builds.pure htest
  | true =>
    refine hg.assignment.bind fun consequent hconsequent => ?_
    refine Builds.after Onward.expectPunct fun _ => ?_
    refine hg.assignment.bind fun alternate halternate => Builds.node rfl ?_
    simp [Shape.children, Shape.kind, Kind.fields, Shape.field, htest, hconsequent, halternate]

theorem assignment_builds : Builds tokens (assignment g) (Tight tokens) := by
  refine (conditional_builds hg).bind fun left hleft => Builds.after Onward.peek fun t => ?_
  split
  · refine Builds.after Onward.advance fun _ => hg.assignment.bind fun right hright => ?_
    refine Builds.node rfl ?_
    simp [Shape.children, Shape.kind, Kind.fields, Shape.field, hleft, hright]
  · exact Builds.pure hleft

end Parser

end SquirrelAnalyzer
