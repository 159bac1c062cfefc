import SquirrelAnalyzer.Proofs.Abreast.Cursor
import SquirrelAnalyzer.Proofs.Tally.Expression

namespace SquirrelAnalyzer

structure Grammar.Along (v : Overlap) (g : Grammar) : Prop where
  statement : Parser.Along v v.tree g.statement g.statement
  assignment : Parser.Along v v.tree g.assignment g.assignment
  binary : ∀ least, Parser.Along v v.tree (g.binary least) (g.binary least)
  unary : Parser.Along v v.tree g.unary g.unary
  tallies : ∀ n, g.Tallies n g

namespace Parser

open Overlap

variable {v : Overlap} {g : Grammar} (hg : g.Along v)

include hg

theorem parameter_along : Along v v.tree (parameter g) (parameter g) := by
  refine Along.at?.bind_eq fun b => ?_
  cases b with
  | true => exact Along.advance.bind fun t t' ht => Along.node (offset_eq ht) rfl
  | false =>
    refine Along.identifier.bind fun left left' hleft => Along.eatPunct.bind_eq fun b => ?_
    cases b with
    | false => exact Along.pure hleft
    | true =>
      refine hg.assignment.bind fun right right' hright => Along.node (start_eq hleft) ?_
      simp only [Shape.map, hleft, hright]

theorem parameters_along : Along v (List.map v.tree) (parameters g) (parameters g) := by
  refine Along.expectPunct.bind fun _ _ _ => Along.listUntil (parameter_along hg) ?_
  exact Takes.of_tallies fun n => (parameter_tallies (hg.tallies n)).pred

theorem block_along : Along v v.tree (block g) (block g) := by
  refine Along.expectPunct.bind fun t t' ht => ?_
  refine Along.bind (f := List.map v.tree) (Along.many ?_ ?_) fun body body' hbody => ?_
  · refine Along.skip.bind_eq fun _ => Along.eatPunct.bind_eq fun b => ?_
    cases b with
    | true => exact Along.pure rfl
    | false =>
      refine Along.at?.bind_eq fun b => ?_
      cases b with
      | true => exact Along.fail
      | false => exact hg.statement.some
  · refine fun n => Onward.skip.stays.bind fun _ => Onward.eat.stays.bind fun b => ?_
    cases b with
    | true => exact none_takes
    | false =>
      refine Onward.at?.stays.bind fun b => ?_
      cases b with
      | true => exact Ensures.fail
      | false => exact (Takes.of_tallies fun n => (hg.tallies n).statement).some
  · exact Along.node (offset_eq ht) (congrArg Shape.blockStatement hbody)

theorem functionValue_along : Along v v.tree (functionValue g) (functionValue g) := by
  refine Along.peek.bind fun t t' ht => (parameters_along hg).bind fun params params' hparams => ?_
  refine (block_along hg).bind fun body body' hbody => Along.node (offset_eq ht) ?_
  simp only [Shape.map, hparams, hbody]

theorem slotKey_along : Along v (Prod.map v.tree id) (slotKey g) (slotKey g) := by
  refine Along.eatPunct.bind_eq fun b => ?_
  cases b with
  | true =>
    refine hg.assignment.bind fun key key' hkey => Along.expectPunct.bind fun _ _ _ => ?_
    exact Along.pure (congrArg (Prod.mk · true) hkey)
  | false =>
    refine Along.peek.bind fun t t' ht => ?_
    rw [kind_eq ht]
    split
    · refine Along.advance.bind fun t t' ht => ?_
      refine (Along.node (offset_eq ht) rfl).bind fun key key' hkey => ?_
      exact Along.pure (congrArg (Prod.mk · true) hkey)
    · refine Along.propertyName.bind fun key key' hkey => ?_
      exact Along.pure (congrArg (Prod.mk · false) hkey)

theorem method_along {start start' : Nat} {kind : MethodKind} {isStatic : Bool} {key key' : Tree}
    (hstart : v.offset start = v.offset start') (hkey : v.tree key = v.tree key') :
    Along v v.tree (do node start (.methodDefinition kind isStatic key (← functionValue g)))
      (do node start' (.methodDefinition kind isStatic key' (← functionValue g))) := by
  refine (functionValue_along hg).bind fun value value' hvalue => Along.node hstart ?_
  simp only [Shape.map, hkey, hvalue]

theorem property_along {start start' : Nat} {isStatic : Bool} {x x' : Tree × Bool}
    (hstart : v.offset start = v.offset start') (hx : Prod.map v.tree id x = Prod.map v.tree id x') :
    Along v v.tree (do node start (.propertyDefinition isStatic x.2 x.1 (some (← g.assignment))))
      (do node start' (.propertyDefinition isStatic x'.2 x'.1 (some (← g.assignment)))) := by
  obtain ⟨key, computed⟩ := x
  obtain ⟨key', computed'⟩ := x'
  obtain ⟨hkey, hcomputed⟩ := Prod.mk.inj hx
  refine hg.assignment.bind fun value value' hvalue => Along.node hstart ?_
  simp only [Shape.map, Option.map_some, hkey, hvalue]
  exact congrArg (Shape.propertyDefinition isStatic · _ _) hcomputed

theorem tableSlot_along : Along v v.tree (tableSlot g) (tableSlot g) := by
  refine Along.peek.bind fun t t' ht => Along.eatKeyword.bind_eq fun b => ?_
  cases b with
  | true => exact Along.identifier.bind fun key key' hkey => method_along hg (offset_eq ht) hkey
  | false =>
    refine (slotKey_along hg).bind fun x x' hx => Along.eatPunct.bind_eq fun b => ?_
    cases b with
    | true => exact property_along hg (offset_eq ht) hx
    | false => exact Along.expectPunct.bind fun _ _ _ => property_along hg (offset_eq ht) hx

theorem table_along : Along v v.tree (table g) (table g) := by
  have ht : Takes (tableSlot g) fun _ => True :=
    Takes.of_tallies fun n => (tableSlot_tallies (hg.tallies n)).pred
  refine Along.expectPunct.bind fun t t' hopen => ?_
  refine (Along.braced (tableSlot_along hg) ht).bind fun ps ps' hps => ?_
  exact Along.node (offset_eq hopen) (congrArg Shape.tableExpression hps)

theorem classMember_along : Along v v.tree (classMember g) (classMember g) := by
  refine Along.peek.bind fun t t' ht => Along.eatKeyword.bind_eq fun isStatic => ?_
  refine Along.at?.bind_eq fun b => ?_
  cases b with
  | true =>
    refine Along.advance.bind fun word word' hword => ?_
    refine (Along.node (offset_eq hword) rfl).bind fun key key' hkey => ?_
    exact method_along hg (offset_eq ht) hkey
  | false =>
    refine Along.eatKeyword.bind_eq fun b => ?_
    cases b with
    | true => exact Along.identifier.bind fun key key' hkey => method_along hg (offset_eq ht) hkey
    | false =>
      refine (slotKey_along hg).bind fun x x' hx => Along.expectPunct.bind fun _ _ _ => ?_
      exact property_along hg (offset_eq ht) hx

theorem classBody_along : Along v v.tree (classBody g) (classBody g) := by
  have ht : Takes (classMember g) fun _ => True :=
    Takes.of_tallies fun n => (classMember_tallies (hg.tallies n)).pred
  refine Along.expectPunct.bind fun t t' hopen => ?_
  refine (Along.braced (classMember_along hg) ht).bind fun body body' hbody => ?_
  exact Along.node (offset_eq hopen) (congrArg Shape.classBody hbody)

theorem superclass_along : Along v (Option.map v.tree) (superclass g) (superclass g) := by
  refine Along.eatKeyword.bind_eq fun b => ?_
  cases b with
  | true => exact hg.unary.some
  | false => exact Along.pure rfl

theorem lambda_along : Along v v.tree (lambda g) (lambda g) := by
  refine Along.expectPunct.bind fun t t' ht => ?_
  refine (parameters_along hg).bind fun params params' hparams => ?_
  refine hg.assignment.bind fun body body' hbody => Along.node (offset_eq ht) ?_
  simp only [Shape.map, hparams, hbody]

theorem array_along : Along v v.tree (array g) (array g) := by
  have ht : Takes g.assignment fun _ => True := Takes.of_tallies fun n => (hg.tallies n).assignment
  refine Along.expectPunct.bind fun t t' hopen => ?_
  refine (Along.listUntil hg.assignment ht).bind fun elements elements' helements => ?_
  exact Along.node (offset_eq hopen) (congrArg Shape.arrayExpression helements)

theorem parenthesized_along : Along v v.tree (parenthesized g) (parenthesized g) := by
  refine Along.expectPunct.bind fun _ _ _ => hg.assignment.bind fun inner inner' hinner => ?_
  exact Along.expectPunct.bind fun _ _ _ => Along.pure hinner

theorem primary_along : Along v v.tree (primary g) (primary g) := by
  refine Along.peek.bind fun t t' ht => ?_
  rw [kind_eq ht]
  split
  · exact Along.identifier
  · exact Along.advance.bind fun _ _ _ => Along.node (offset_eq ht) rfl
  · exact Along.advance.bind fun _ _ _ => Along.node (offset_eq ht) rfl
  · refine Along.advance.bind fun _ _ _ => Along.propertyName.bind fun property property' h => ?_
    exact Along.node (offset_eq ht) (congrArg Shape.rootExpression h)
  · exact parenthesized_along hg
  · exact table_along hg
  · exact array_along hg
  · exact lambda_along hg
  · refine Along.advance.bind fun _ _ _ => (parameters_along hg).bind fun params params' hparams => ?_
    refine (block_along hg).bind fun body body' hbody => Along.node (offset_eq ht) ?_
    simp only [Shape.map, hparams, hbody]
  · refine Along.advance.bind fun _ _ _ => (superclass_along hg).bind fun parent parent' hparent => ?_
    refine (classBody_along hg).bind fun body body' hbody => Along.node (offset_eq ht) ?_
    simp only [Shape.map, hparent, hbody]
  · split
    · exact Along.advance.bind fun _ _ _ => Along.node (offset_eq ht) rfl
    · exact Along.fail

theorem postfixStep_along {start start' : Nat} {e e' : Tree}
    (hstart : v.offset start = v.offset start') (he : v.tree e = v.tree e') :
    Along v (Option.map v.tree) (postfixStep g start e) (postfixStep g start' e') := by
  have htakes : Takes g.assignment fun _ => True :=
    Takes.of_tallies fun n => (hg.tallies n).assignment
  refine Along.peek.bind fun t t' ht => ?_
  rw [kind_eq ht, newlineBefore_eq ht]
  split
  · refine Along.advance.bind fun _ _ _ => Along.propertyName.bind fun property property' h => ?_
    refine (Along.node hstart ?_).some
    simp only [Shape.map, he, h]
  · refine Along.advance.bind fun _ _ _ => ?_
    refine (Along.listUntil hg.assignment htakes).bind fun arguments arguments' h => ?_
    refine (Along.node hstart ?_).some
    simp only [Shape.map, he, h]
  · split
    · exact Along.pure rfl
    · refine Along.advance.bind fun _ _ _ => hg.assignment.bind fun property property' h => ?_
      refine Along.expectPunct.bind fun _ _ _ => (Along.node hstart ?_).some
      simp only [Shape.map, he, h]
  · split
    · split
      · exact Along.pure rfl
      · refine Along.advance.bind fun _ _ _ => (Along.node hstart ?_).some
        simp only [Shape.map, he]
    · exact Along.pure rfl

theorem postfixStep_takes {start : Nat} {e : Tree} : Takes (postfixStep g start e) (· ≠ none) := by
  have htakes : Takes g.assignment fun _ => True :=
    Takes.of_tallies fun n => (hg.tallies n).assignment
  have harguments : Onward (listUntil .parenClose g.assignment) :=
    (Along.listUntil hg.assignment htakes).onward
  have hname : Onward propertyName := (Along.propertyName (v := v)).onward
  have hclose : Onward (expectPunct .bracketClose) := (Along.expectPunct (v := v)).onward
  have hnode {shape : Shape Tree} : Onward (do return some (← node start shape)) :=
    Onward.node.bind fun x => .pure (some x)
  refine fun n => Ensures.peek.bind fun t => ?_
  split
  · next hk => exact advance_takes (hk ▸ nofun) fun _ => hname.bind fun _ => hnode
  · next hk => exact advance_takes (hk ▸ nofun) fun _ => harguments.bind fun _ => hnode
  · next hk =>
    split
    · exact none_takes
    · exact advance_takes (hk ▸ nofun) fun _ => hg.assignment.onward.bind fun _ =>
        hclose.bind fun _ => hnode
  · split
    · next op hop =>
      split
      · exact none_takes
      · refine advance_takes ?_ fun _ => hnode
        exact Token.Kind.ne_endOfFile_of_isPlain (UnaryOperator.isPlain_of_trailing? hop)
    · exact none_takes

theorem postfixed_along : Along v v.tree (postfixed g) (postfixed g) := by
  refine (primary_along hg).bind fun e e' he => ?_
  refine Along.start (Along.iterate (fun x x' hx => ?_) (fun _ => postfixStep_takes hg) he)
  exact postfixStep_along hg (start_eq he) hx

theorem yield_along : Along v v.tree (yield g) (yield g) := by
  refine Along.expectKeyword.bind fun t t' ht => ?_
  have hnode (argument argument' : Option Tree)
      (h : argument.map v.tree = argument'.map v.tree) :
      Along v v.tree (node t.span.start (.yieldExpression argument))
        (node t'.span.start (.yieldExpression argument')) :=
    Along.node (offset_eq ht) (congrArg Shape.yieldExpression h)
  refine Along.atTerminator.bind_eq fun b => ?_
  cases b with
  | true => exact (Along.pure rfl).bind hnode
  | false => exact hg.assignment.map_some.bind hnode

theorem unary_along : Along v v.tree (unary g) (unary g) := by
  refine Along.peek.bind fun t t' ht => ?_
  rw [kind_eq ht]
  split
  · exact yield_along hg
  · split
    · refine Along.advance.bind fun _ _ _ => hg.unary.bind fun argument argument' h => ?_
      refine Along.node (offset_eq ht) ?_
      simp only [Shape.map, h]
    · exact postfixed_along hg

theorem binaryStep_along {least : Nat} {left left' : Tree} (h : v.tree left = v.tree left') :
    Along v (Option.map v.tree) (binaryStep g least left) (binaryStep g least left') := by
  refine Along.peek.bind fun t t' ht => ?_
  rw [kind_eq ht]
  split
  · split
    · exact Along.pure rfl
    · refine Along.advance.bind fun _ _ _ => (hg.binary _).bind fun right right' hright => ?_
      refine Along.start (Along.node (start_eq h) ?_).some
      simp only [Shape.map, h, hright]
  · exact Along.pure rfl

theorem binaryStep_takes {least : Nat} {left : Tree} :
    Takes (binaryStep g least left) (· ≠ none) := by
  refine fun n => Ensures.peek.bind fun t => ?_
  split
  · next op hop =>
    split
    · exact none_takes
    · refine advance_takes ?_ fun _ => (hg.binary _).onward.bind fun right => ?_
      · exact Token.Kind.ne_endOfFile_of_isPlain (BinaryOperator.isPlain_of_ofToken? hop)
      · exact Onward.node.bind fun x => .pure (some x)
  · exact none_takes

theorem binary_along (least : Nat) : Along v v.tree (binary g least) (binary g least) := by
  refine (unary_along hg).bind fun left left' hleft => ?_
  exact Along.iterate (fun _ _ h => binaryStep_along hg h) (fun _ => binaryStep_takes hg) hleft

theorem conditional_along : Along v v.tree (conditional g) (conditional g) := by
  refine (binary_along hg 1).bind fun test test' htest => Along.eatPunct.bind_eq fun b => ?_
  cases b with
  | false => exact Along.pure htest
  | true =>
    refine hg.assignment.bind fun consequent consequent' hconsequent => ?_
    refine Along.expectPunct.bind fun _ _ _ => ?_
    refine hg.assignment.bind fun alternate alternate' halternate => Along.node (start_eq htest) ?_
    simp only [Shape.map, htest, hconsequent, halternate]

theorem assignment_along : Along v v.tree (assignment g) (assignment g) := by
  refine (conditional_along hg).bind fun left left' hleft => Along.peek.bind fun t t' ht => ?_
  rw [kind_eq ht]
  split
  · refine Along.advance.bind fun _ _ _ => hg.assignment.bind fun right right' hright => ?_
    refine Along.node (start_eq hleft) ?_
    simp only [Shape.map, hleft, hright]
  · exact Along.pure hleft

end Parser

end SquirrelAnalyzer
