import SquirrelAnalyzer.Proofs.Tally.Cursor
import SquirrelAnalyzer.Proofs.Tree

namespace SquirrelAnalyzer

structure Grammar.Tallies (n : Nat) (g g' : Grammar) : Prop where
  statement : Parser.Tallies n g.statement g'.statement
  assignment : Parser.Tallies n g.assignment g'.assignment
  binary : ∀ least, Parser.Tallies n (g.binary least) (g'.binary least)
  unary : Parser.Tallies n g.unary g'.unary

namespace Parser

open Cursor

variable {n : Nat} {s : List Token} {ts : List Tree} {g g' : Grammar}

theorem parameter_tallies (hg : g.Tallies n g') : Tallies (n + 1) (parameter g) (parameter g') := by
  refine fun s hs => Agree.at?.bind fun b => ?_
  cases b with
  | true =>
    refine Agree.refl (Ensures.bind (Q := fun _ => Moved s []) ?_ fun t => node_moved rfl rfl)
    exact (advance_kind (k := .punct .ellipsis) rfl).of_imp fun c hc => ⟨hc.1.mp rfl, hc.2⟩
  | false =>
    refine ((identifier_tallies.first hs).of_imp fun c hc => hc.2).bind fun left => ?_
    refine (Agree.refl eatPunct_moved).bind fun b => ?_
    cases b with
    | false => exact Agree.pure fun _ hc => hc
    | true => exact (hg.assignment.next hs).bind fun right => Agree.refl (node_moved rfl rfl)

theorem parameters_tallied (hg : g.Tallies n g') (hs : s.length ≤ n + 1) :
    Agree (Tallied s ts) (parameters g) (parameters g') fun l => Moved s (l.reverse ++ ts) :=
  (Agree.refl expectPunct_tallied).bind fun _ => listUntil_moved (parameter_tallies hg).pred hs

theorem parameters_moved (hg : g.Tallies n g') (hs : s.length ≤ n + 1) :
    Agree (Moved s ts) (parameters g) (parameters g') fun l => Moved s (l.reverse ++ ts) :=
  (parameters_tallied hg hs).of_imp fun _ hc => hc.toTallied

theorem block_tallies (hg : g.Tallies n g') : Tallies (n + 1) (block g) (block g') := by
  refine fun s hs => (Agree.refl expectPunct_tallied).bind fun t => ?_
  refine (Agree.many (I := Moved s) fun ts => ?_).bind fun body => Agree.refl (node_moved ?_ rfl)
  · refine (Agree.refl skip_moved).bind fun _ => (Agree.refl eatPunct_moved).bind fun b => ?_
    cases b with
    | true => exact Agree.pure fun _ hc => hc
    | false =>
      refine Agree.at?.bind fun b => ?_
      cases b with
      | true => exact Agree.fail
      | false =>
        refine ((hg.statement.next hs).of_imp fun _ hc => hc.2).bind fun t => ?_
        exact Agree.pure fun _ hc => hc
  · simp [Shape.children, Shape.kind, Kind.fields, Shape.field]

theorem functionValue_tallies (hg : g.Tallies n g') :
    Tallies (n + 1) (functionValue g) (functionValue g') := by
  refine Tallies.peek fun t s hs => ?_
  refine ((parameters_tallied hg hs).of_imp fun c hc => hc.2).bind fun params => ?_
  refine ((block_tallies hg).pred.next hs).bind fun body => Agree.refl (node_moved ?_ rfl)
  simp [Shape.children, Shape.kind, Kind.fields, Shape.field]

theorem slotKey_tallied (hg : g.Tallies n g') (hs : s.length ≤ n + 1) :
    Agree (Tallied s ts) (slotKey g) (slotKey g') fun x => Moved s (x.1 :: ts) := by
  refine (Agree.refl (eat_tallied rfl)).bind fun b => ?_
  cases b with
  | true =>
    refine ((hg.assignment.next hs).of_imp fun c hc => hc.2 rfl).bind fun key => ?_
    exact (Agree.refl expectPunct_moved).bind fun _ => Agree.pure fun _ hc => hc
  | false =>
    refine (Agree.peek.of_imp fun c hc => hc.1).bind fun t => ?_
    split
    · next text hk =>
      exact leaf_bind (hk ▸ .literal rfl) rfl rfl fun x => Agree.pure fun _ hc => hc
    · refine ((propertyName_tallies.first hs).of_imp fun c hc => hc.2).bind fun key => ?_
      exact Agree.pure fun _ hc => hc

theorem method_moved (hg : g.Tallies n g') (hs : s.length ≤ n + 1) {start : Nat} {kind : MethodKind}
    {isStatic : Bool} {key : Tree} :
    Agree (Moved s [key])
      (do node start (.methodDefinition kind isStatic key (← functionValue g)))
      (do node start (.methodDefinition kind isStatic key (← functionValue g')))
      fun x => Moved s [x] :=
  ((functionValue_tallies hg).pred.next hs).bind fun _ => Agree.refl (node_moved rfl rfl)

theorem property_moved (hg : g.Tallies n g') (hs : s.length ≤ n + 1) {start : Nat}
    {isStatic computed : Bool} {key : Tree} :
    Agree (Moved s [key])
      (do node start (.propertyDefinition isStatic computed key (some (← g.assignment))))
      (do node start (.propertyDefinition isStatic computed key (some (← g'.assignment))))
      fun x => Moved s [x] :=
  (hg.assignment.next hs).bind fun _ => Agree.refl (node_moved rfl rfl)

theorem tableSlot_tallies (hg : g.Tallies n g') : Tallies (n + 1) (tableSlot g) (tableSlot g') := by
  refine Tallies.peek fun t s hs => ?_
  refine (Agree.refl ((eat_tallied rfl).of_imp fun c hc => hc.2)).bind fun b => ?_
  cases b with
  | true =>
    refine (identifier_moved.of_imp fun c hc => hc.2 rfl).bind fun key => ?_
    exact method_moved hg hs
  | false =>
    refine ((slotKey_tallied hg hs).of_imp fun c hc => hc.1).bind fun x => ?_
    refine (Agree.refl eatPunct_moved).bind fun b => ?_
    cases b with
    | true => exact property_moved hg hs
    | false => exact (Agree.refl expectPunct_moved).bind fun _ => property_moved hg hs

theorem table_tallies (hg : g.Tallies n g') : Tallies (n + 1) (table g) (table g') := by
  refine fun s hs => (Agree.refl expectPunct_tallied).bind fun t => ?_
  refine (braced_moved (tableSlot_tallies hg).pred hs).bind fun ps => Agree.refl (node_moved ?_ rfl)
  simp [Shape.children, Shape.kind, Kind.fields, Shape.field]

theorem classMember_tallies (hg : g.Tallies n g') :
    Tallies (n + 1) (classMember g) (classMember g') := by
  refine Tallies.peek fun t s hs => ?_
  refine (Agree.refl ((eat_tallied rfl).of_imp fun c hc => hc.2)).bind fun isStatic => ?_
  refine Agree.at?.bind fun b => ?_
  cases b with
  | true =>
    refine Agree.of_imp (Agree.of_kind (k := .keyword .constructorKw) fun t hk => ?_)
      fun c hc => ⟨hc.1.mp rfl, hc.2.1⟩
    exact leaf_bind (hk ▸ .keyword .constructorKw) rfl rfl fun key => method_moved hg hs
  | false =>
    refine (Agree.refl ((eat_tallied rfl).of_imp fun c hc => hc.2.1)).bind fun b => ?_
    cases b with
    | true =>
      refine (identifier_moved.of_imp fun c hc => hc.2 rfl).bind fun key => ?_
      exact method_moved hg hs
    | false =>
      refine ((slotKey_tallied hg hs).of_imp fun c hc => hc.1).bind fun x => ?_
      exact (Agree.refl expectPunct_moved).bind fun _ => property_moved hg hs

theorem classBody_tallies (hg : g.Tallies n g') : Tallies (n + 1) (classBody g) (classBody g') := by
  refine fun s hs => (Agree.refl expectPunct_tallied).bind fun t => ?_
  refine (braced_moved (classMember_tallies hg).pred hs).bind fun body =>
    Agree.refl (node_moved ?_ rfl)
  simp [Shape.children, Shape.kind, Kind.fields, Shape.field]

theorem superclass_moved (hg : g.Tallies n g') (hs : s.length ≤ n + 1) :
    Agree (Moved s ts) (superclass g) (superclass g') fun o => Moved s (o.toList ++ ts) := by
  refine (Agree.refl eatKeyword_moved).bind fun b => ?_
  cases b with
  | true => exact (hg.unary.next hs).bind fun t => Agree.pure fun _ hc => hc
  | false => exact Agree.pure fun _ hc => hc

theorem lambda_tallies (hg : g.Tallies n g') : Tallies (n + 1) (lambda g) (lambda g') := by
  refine fun s hs => (Agree.refl expectPunct_tallied).bind fun t => ?_
  refine (parameters_moved hg hs).bind fun params => ?_
  refine (hg.assignment.next hs).bind fun body => Agree.refl (node_moved ?_ rfl)
  simp [Shape.children, Shape.kind, Kind.fields, Shape.field]

theorem array_tallies (hg : g.Tallies n g') : Tallies (n + 1) (array g) (array g') := by
  refine fun s hs => (Agree.refl expectPunct_tallied).bind fun t => ?_
  refine (listUntil_moved hg.assignment hs).bind fun elements => Agree.refl (node_moved ?_ rfl)
  simp [Shape.children, Shape.kind, Kind.fields, Shape.field]

theorem parenthesized_tallies (hg : g.Tallies n g') :
    Tallies (n + 1) (parenthesized g) (parenthesized g') := by
  refine fun s hs => (Agree.refl expectPunct_tallied).bind fun _ => ?_
  refine (hg.assignment.next hs).bind fun inner => ?_
  exact (Agree.refl expectPunct_moved).bind fun _ => Agree.pure fun _ hc => hc

theorem primary_tallies (hg : g.Tallies n g') : Tallies (n + 1) (primary g) (primary g') := by
  refine Tallies.peek fun t s hs => ?_
  split
  · exact identifier_tallies.of_moved hs
  · next hk =>
    exact Agree.refl (Ensures.bind (advance_plain (hk ▸ rfl)) fun _ => node_moved rfl rfl)
  · next hk =>
    exact Agree.refl (Ensures.bind (advance_plain (hk ▸ rfl)) fun _ => node_moved rfl rfl)
  · next hk =>
    refine (Agree.refl (advance_plain (hk ▸ rfl))).bind fun _ => ?_
    exact propertyName_moved.bind fun property => Agree.refl (node_moved rfl rfl)
  · exact (parenthesized_tallies hg).of_moved hs
  · exact (table_tallies hg).of_moved hs
  · exact (array_tallies hg).of_moved hs
  · exact (lambda_tallies hg).of_moved hs
  · next hk =>
    refine (Agree.refl (advance_plain (hk ▸ rfl))).bind fun _ => ?_
    refine (parameters_moved hg hs).bind fun params => ?_
    refine ((block_tallies hg).pred.next hs).bind fun body => Agree.refl (node_moved ?_ rfl)
    simp [Shape.children, Shape.kind, Kind.fields, Shape.field]
  · next hk =>
    refine (Agree.refl (advance_plain (hk ▸ rfl))).bind fun _ => ?_
    refine (superclass_moved hg hs).bind fun superclass => ?_
    refine ((classBody_tallies hg).pred.next hs).bind fun body => Agree.refl (node_moved ?_ rfl)
    cases superclass <;> rfl
  · split
    · next value hv => exact leaf_tallied (fun _ => t.span.start) (.literal hv) rfl rfl
    · exact Agree.fail

theorem postfixStep_moved (hg : g.Tallies n g') (hs : s.length ≤ n + 1) {start : Nat} {e : Tree} :
    Agree (Moved s [e]) (postfixStep g start e) (postfixStep g' start e) fun o =>
      Moved s [o.getD e] := by
  refine Agree.peek.bind fun t => ?_
  have hnode {ts : List Tree} {shape : Shape Tree} (hshape : shape.children .full = ts.reverse)
      (hcontent : shape.content? = none) :
      Ensures (Moved s ts) (do return some (← node start shape)) fun o => Moved s [o.getD e] :=
    Ensures.bind (node_moved hshape hcontent) fun x => Ensures.pure fun _ hc => hc
  split
  · next hk =>
    refine (Agree.refl (advance_moved (hk ▸ rfl))).bind fun _ => ?_
    exact propertyName_moved.bind fun property => Agree.refl (hnode rfl rfl)
  · next hk =>
    refine (Agree.refl (advance_moved (hk ▸ rfl))).bind fun _ => ?_
    refine (listUntil_moved hg.assignment hs).bind fun arguments => Agree.refl (hnode ?_ rfl)
    simp [Shape.children, Shape.kind, Kind.fields, Shape.field]
  · next hk =>
    split
    · exact Agree.pure fun _ hc => hc.2
    · refine (Agree.refl (advance_moved (hk ▸ rfl))).bind fun _ => ?_
      refine (hg.assignment.next hs).bind fun property => ?_
      exact Agree.refl (Ensures.bind expectPunct_moved fun _ => hnode rfl rfl)
  · split
    · next op hop =>
      split
      · exact Agree.pure fun _ hc => hc.2
      · refine Agree.refl (Ensures.bind (advance_moved ?_) fun _ => hnode rfl rfl)
        exact UnaryOperator.isPlain_of_trailing? hop
    · exact Agree.pure fun _ hc => hc.2

theorem postfixed_tallies (hg : g.Tallies n g') : Tallies (n + 1) (postfixed g) (postfixed g') := by
  refine fun s hs => (primary_tallies hg s hs).bind fun e => ?_
  exact .start (Agree.iterate (I := fun e => Moved s [e]) (fun e => postfixStep_moved hg hs) e)

theorem yield_tallies (hg : g.Tallies n g') : Tallies (n + 1) (yield g) (yield g') := by
  refine fun s hs => (Agree.refl expectKeyword_tallied).bind fun t => ?_
  have hnode (argument : Option Tree) : Agree (Moved s (argument.toList ++ []))
      (node t.span.start (.yieldExpression argument))
      (node t.span.start (.yieldExpression argument)) fun x => Moved s [x] :=
    Agree.refl (node_moved (by cases argument <;> rfl) rfl)
  refine (Agree.refl Ensures.atTerminator).bind fun b => ?_
  cases b with
  | true => exact Agree.bind (Agree.pure fun _ hc => hc) hnode
  | false => exact (hg.assignment.some_moved hs).bind hnode

theorem unary_tallies (hg : g.Tallies n g') : Tallies (n + 1) (unary g) (unary g') := by
  refine Tallies.peek fun t s hs => ?_
  split
  · exact (yield_tallies hg).of_moved hs
  · split
    · next op hop =>
      refine (Agree.refl (advance_plain (UnaryOperator.isPlain_of_leading? hop))).bind fun _ => ?_
      exact (hg.unary.next hs).bind fun argument => Agree.refl (node_moved rfl rfl)
    · exact (postfixed_tallies hg).of_moved hs

theorem binaryStep_moved (hg : g.Tallies n g') (hs : s.length ≤ n + 1) {least : Nat} {left : Tree} :
    Agree (Moved s [left]) (binaryStep g least left) (binaryStep g' least left) fun o =>
      Moved s [o.getD left] := by
  refine Agree.peek.bind fun t => ?_
  split
  · next op hop =>
    split
    · exact Agree.pure fun _ hc => hc.2
    · refine (Agree.refl ((advance_plain (BinaryOperator.isPlain_of_ofToken? hop)).of_imp
        fun c hc => ⟨hc.1, hc.2.toTallied⟩)).bind fun _ => ?_
      refine ((hg.binary _).next hs).bind fun right => .start (Agree.refl ?_)
      exact Ensures.bind (node_moved rfl rfl) fun x => Ensures.pure fun _ hc => hc
  · exact Agree.pure fun _ hc => hc.2

theorem binary_tallies (hg : g.Tallies n g') (least : Nat) :
    Tallies (n + 1) (binary g least) (binary g' least) := by
  refine fun s hs => (unary_tallies hg s hs).bind fun left => ?_
  exact Agree.iterate (I := fun e => Moved s [e]) (fun e => binaryStep_moved hg hs) left

theorem conditional_tallies (hg : g.Tallies n g') :
    Tallies (n + 1) (conditional g) (conditional g') := by
  refine fun s hs => (binary_tallies hg 1 s hs).bind fun test => ?_
  refine (Agree.refl eatPunct_moved).bind fun b => ?_
  cases b with
  | false => exact Agree.pure fun _ hc => hc
  | true =>
    refine (hg.assignment.next hs).bind fun consequent => ?_
    refine (Agree.refl expectPunct_moved).bind fun _ => ?_
    exact (hg.assignment.next hs).bind fun alternate => .start (Agree.refl (node_moved rfl rfl))

theorem assignment_tallies (hg : g.Tallies n g') :
    Tallies (n + 1) (assignment g) (assignment g') := by
  refine fun s hs => (conditional_tallies hg s hs).bind fun left => Agree.peek.bind fun t => ?_
  split
  · next op hop =>
    refine (Agree.refl (advance_moved (AssignmentOperator.isPlain_of_ofToken? hop))).bind fun _ => ?_
    exact (hg.assignment.next hs).bind fun right => .start (Agree.refl (node_moved rfl rfl))
  · exact Agree.pure fun _ hc => hc.2

end Parser

end SquirrelAnalyzer
