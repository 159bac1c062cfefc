import SquirrelAnalyzer.Proofs.Built.Cursor

namespace SquirrelAnalyzer

open Arena

structure Productions.Built (lines : LineMap) (g : Grammar) (b : Productions Builder NodeId) :
    Prop where
  statement : Parser.Built lines g.statement b.statement (store lines)
  assignment : Parser.Built lines g.assignment b.assignment (store lines)
  binary : ∀ least, Parser.Built lines (g.binary least) (b.binary least) (store lines)
  unary : Parser.Built lines g.unary b.unary (store lines)

namespace Parser

variable {lines : LineMap} {g : Grammar} {b : Productions Builder NodeId}
  {first nodes nodes' : Array Node} (hg : g.Built lines b)

theorem pair_stores (shape : Tree → Tree → Shape Tree) (shape' : NodeId → NodeId → Shape NodeId)
    {p : Parser Tree} {d : Builder NodeId} {left : Tree} {left' : NodeId}
    (hshape : ∀ left right, (shape left right).traverse (store lines) =
      return shape' (← store lines left) (← store lines right))
    (h : (store lines left).run first = (left', nodes)) (hp : Built lines p d (store lines)) :
    Stores lines first nodes (do let right ← p; node (← Sink.start left) (shape left right))
      (do let right ← d; node (← Sink.start left') (shape' left' right)) (store lines) := by
  refine hp.bind fun right right' nodes' hright => ?_
  refine .start ((startsAt_store h).grows (store_grows lines right) hright) (.node ?_)
  rw [hshape, run_bind h, run_bind hright]
  rfl

include hg

theorem parameter_built : Built lines (parameter g) (parameter b) (store lines) := by
  refine fun nodes => (Bare.at? _).stores fun c => ?_
  cases c with
  | true => exact Bare.advance.stores fun t => .node rfl
  | false =>
    refine (identifier_built lines).bind fun left left' nodes' hleft => ?_
    refine (Bare.eat _).stores fun c => ?_
    cases c with
    | false => exact .pure hleft
    | true => exact pair_stores .assignmentPattern .assignmentPattern (fun _ _ => rfl) hleft hg.assignment

theorem parameters_built : Built lines (parameters g) (parameters b) (List.mapM (store lines)) :=
  fun nodes => (Bare.expectPunct _).stores fun _ => (parameter_built hg).listUntil nodes

theorem block_built : Built lines (block g) (block b) (store lines) := by
  refine fun nodes => (Bare.expectPunct _).stores fun t => ?_
  refine Built.bind (s := List.mapM (store lines)) (.many fun nodes => ?_)
    fun body body' nodes' hbody => .node ?_
  · refine (Bare.skip _).stores fun _ => (Bare.eat _).stores fun c => ?_
    cases c with
    | true => exact Built.none nodes
    | false =>
      refine (Bare.at? _).stores fun c => ?_
      cases c with
      | true => exact .fail
      | false => exact hg.statement.some nodes
  · rw [Shape.traverse, run_bind hbody]
    rfl

theorem functionValue_built :
    Built lines (functionValue g) (functionValue b) (store lines) := by
  refine fun nodes => Bare.peek.stores fun t => ?_
  refine (parameters_built hg).bind fun params params' nodes' hparams => ?_
  refine (block_built hg).bind fun body body' nodes'' hbody => .node ?_
  rw [Shape.traverse, run_bind hparams, run_bind hbody]
  rfl

theorem method_stores {start : Nat} {kind : MethodKind} {isStatic : Bool} {key : Tree}
    {key' : NodeId} (h : (store lines key).run first = (key', nodes)) :
    Stores lines first nodes
      (do node start (.methodDefinition kind isStatic key (← functionValue g)))
      (do node start (.methodDefinition kind isStatic key' (← functionValue b))) (store lines) := by
  refine (functionValue_built hg).bind fun value value' nodes' hvalue => .node ?_
  rw [Shape.traverse, run_bind h, run_bind hvalue]
  rfl

omit hg in
def storeKey (lines : LineMap) (x : Tree × Bool) : StateM (Array Node) (NodeId × Bool) :=
  return (← store lines x.1, x.2)

omit hg in
theorem run_storeKey {x : Tree × Bool} {key' : NodeId} {computed : Bool} :
    (storeKey lines x).run first = ((key', computed), nodes) ↔
      (store lines x.1).run first = (key', nodes) ∧ computed = x.2 := by
  constructor
  · intro h
    obtain ⟨hx, hnodes⟩ := Prod.mk.inj h
    obtain ⟨hkey, hcomputed⟩ := Prod.mk.inj hx
    exact ⟨Prod.ext hkey hnodes, hcomputed.symm⟩
  · rintro ⟨h, rfl⟩
    rw [storeKey, run_bind h]
    rfl

theorem slotKey_built : Built lines (slotKey g) (slotKey b) (storeKey lines) := by
  refine fun nodes => (Bare.eat _).stores fun c => ?_
  cases c with
  | true =>
    refine hg.assignment.bind fun key key' nodes' hkey => ?_
    exact (Bare.expectPunct _).stores fun _ => .pure (run_storeKey.mpr ⟨hkey, rfl⟩)
  | false =>
    refine Bare.peek.stores fun t => ?_
    split
    · refine Bare.advance.stores fun t => ?_
      exact (literal_built lines _ _).bind fun key key' nodes' hkey =>
        .pure (run_storeKey.mpr ⟨hkey, rfl⟩)
    · exact (propertyName_built lines).bind fun key key' nodes' hkey =>
        .pure (run_storeKey.mpr ⟨hkey, rfl⟩)

theorem property_stores {start : Nat} {isStatic : Bool} {x : Tree × Bool} {x' : NodeId × Bool}
    (h : (storeKey lines x).run first = (x', nodes)) :
    Stores lines first nodes
      (do node start (.propertyDefinition isStatic x.2 x.1 (some (← g.assignment))))
      (do node start (.propertyDefinition isStatic x'.2 x'.1 (some (← b.assignment))))
      (store lines) := by
  obtain ⟨key', computed⟩ := x'
  obtain ⟨hkey, rfl⟩ := run_storeKey.mp h
  refine hg.assignment.bind fun value value' nodes' hvalue => .node ?_
  rw [Shape.traverse, run_bind hkey, run_bind (run_mapM_some.mpr ⟨_, rfl, hvalue⟩)]
  rfl

theorem tableSlot_built : Built lines (tableSlot g) (tableSlot b) (store lines) := by
  refine fun nodes => Bare.peek.stores fun t => (Bare.eat _).stores fun c => ?_
  cases c with
  | true => exact (identifier_built lines).bind fun key key' nodes' hkey => method_stores hg hkey
  | false =>
    refine (slotKey_built hg).bind fun x x' nodes' hx => (Bare.eat _).stores fun c => ?_
    cases c with
    | true => exact property_stores hg hx
    | false => exact (Bare.expectPunct _).stores fun _ => property_stores hg hx

theorem table_built : Built lines (table g) (table b) (store lines) := by
  refine fun nodes => (Bare.expectPunct _).stores fun t => ?_
  refine (tableSlot_built hg).braced.bind fun properties properties' nodes' hproperties => .node ?_
  rw [Shape.traverse, run_bind hproperties]
  rfl

theorem classMember_built : Built lines (classMember g) (classMember b) (store lines) := by
  refine fun nodes => Bare.peek.stores fun t => (Bare.eat _).stores fun isStatic => ?_
  refine (Bare.at? _).stores fun c => ?_
  cases c with
  | true =>
    refine Bare.advance.stores fun t => ?_
    exact (name_built lines _ _).bind fun key key' nodes' hkey => method_stores hg hkey
  | false =>
    refine (Bare.eat _).stores fun c => ?_
    cases c with
    | true => exact (identifier_built lines).bind fun key key' nodes' hkey => method_stores hg hkey
    | false =>
      refine (slotKey_built hg).bind fun x x' nodes' hx => ?_
      exact (Bare.expectPunct _).stores fun _ => property_stores hg hx

theorem classBody_built : Built lines (classBody g) (classBody b) (store lines) := by
  refine fun nodes => (Bare.expectPunct _).stores fun t => ?_
  refine (classMember_built hg).braced.bind fun body body' nodes' hbody => .node ?_
  rw [Shape.traverse, run_bind hbody]
  rfl

theorem superclass_built :
    Built lines (superclass g) (superclass b) (Option.mapM (store lines)) := by
  refine fun nodes => (Bare.eat _).stores fun c => ?_
  cases c with
  | true => exact hg.unary.some nodes
  | false => exact Built.none nodes

theorem lambda_built : Built lines (lambda g) (lambda b) (store lines) := by
  refine fun nodes => (Bare.expectPunct _).stores fun t => ?_
  refine (parameters_built hg).bind fun params params' nodes' hparams => ?_
  refine hg.assignment.bind fun body body' nodes'' hbody => .node ?_
  rw [Shape.traverse, run_bind hparams, run_bind hbody]
  rfl

theorem array_built : Built lines (array g) (array b) (store lines) := by
  refine fun nodes => (Bare.expectPunct _).stores fun t => ?_
  refine hg.assignment.listUntil.bind fun elements elements' nodes' helements => .node ?_
  rw [Shape.traverse, run_bind helements]
  rfl

theorem parenthesized_built :
    Built lines (parenthesized g) (parenthesized b) (store lines) := by
  refine fun nodes => (Bare.expectPunct _).stores fun _ => ?_
  refine hg.assignment.bind fun inner inner' nodes' hinner => ?_
  exact (Bare.expectPunct _).stores fun _ => .pure hinner

theorem primary_built : Built lines (primary g) (primary b) (store lines) := by
  refine fun nodes => Bare.peek.stores fun t => ?_
  split
  · exact identifier_built lines nodes
  · exact Bare.advance.stores fun _ => .node rfl
  · exact Bare.advance.stores fun _ => .node rfl
  · refine Bare.advance.stores fun _ => ?_
    refine (propertyName_built lines).bind fun property property' nodes' hproperty => .node ?_
    rw [Shape.traverse, run_bind hproperty]
    rfl
  · exact parenthesized_built hg nodes
  · exact table_built hg nodes
  · exact array_built hg nodes
  · exact lambda_built hg nodes
  · refine Bare.advance.stores fun _ => ?_
    refine (parameters_built hg).bind fun params params' nodes' hparams => ?_
    refine (block_built hg).bind fun body body' nodes'' hbody => .node ?_
    rw [Shape.traverse, run_bind hparams, run_bind hbody]
    rfl
  · refine Bare.advance.stores fun _ => ?_
    refine (superclass_built hg).bind fun superclass superclass' nodes' hsuperclass => ?_
    refine (classBody_built hg).bind fun body body' nodes'' hbody => .node ?_
    rw [Shape.traverse, run_bind hsuperclass, run_bind hbody]
    rfl
  · cases Literal.ofToken? t.kind with
    | some value => exact Bare.advance.stores fun _ => literal_built lines _ _ nodes
    | none => exact .fail

theorem postfixStep_stores {start : Nat} {e : Tree} {e' : NodeId}
    (h : (store lines e).run first = (e', nodes)) :
    Stores lines first nodes (postfixStep g start e) (postfixStep b start e')
      (keep (store lines) e) := by
  refine Bare.peek.stores fun t => ?_
  split
  · refine Bare.advance.stores fun _ => ?_
    refine (propertyName_built lines).bind fun property property' nodes' hproperty => .grown ?_
    rw [Shape.traverse, run_bind h, run_bind hproperty]
    rfl
  · refine Bare.advance.stores fun _ => ?_
    refine hg.assignment.listUntil.bind fun arguments arguments' nodes' harguments => .grown ?_
    rw [Shape.traverse, run_bind h, run_bind harguments]
    rfl
  · split
    · exact .kept h
    · refine Bare.advance.stores fun _ => ?_
      refine hg.assignment.bind fun property property' nodes' hproperty => ?_
      refine (Bare.expectPunct _).stores fun _ => .grown ?_
      rw [Shape.traverse, run_bind h, run_bind hproperty]
      rfl
  · cases UnaryOperator.trailing? t.kind with
    | none => exact .kept h
    | some op =>
      show Stores _ _ _ (if t.newlineBefore then _ else _) (if t.newlineBefore then _ else _) _
      split
      · exact .kept h
      · refine Bare.advance.stores fun _ => .grown ?_
        rw [Shape.traverse, run_bind h]
        rfl

theorem postfixed_built : Built lines (postfixed g) (postfixed b) (store lines) := by
  refine fun nodes => (primary_built hg).bind fun e e' nodes' he => ?_
  exact .start (startsAt_store he) (.iterate (fun _ _ _ h => postfixStep_stores hg h) he)

theorem yield_built : Built lines (yield g) (yield b) (store lines) := by
  refine fun nodes => (Bare.expectKeyword _).stores fun t => Bare.atTerminator.stores fun c => ?_
  cases c with
  | true => exact .node rfl
  | false =>
    refine hg.assignment.some.bind fun argument argument' nodes' hargument => .node ?_
    rw [Shape.traverse, run_bind hargument]
    rfl

theorem unary_built : Built lines (unary g) (unary b) (store lines) := by
  refine fun nodes => Bare.peek.stores fun t => ?_
  split
  · exact yield_built hg nodes
  · cases UnaryOperator.leading? t.kind with
    | none => exact postfixed_built hg nodes
    | some op =>
      refine Bare.advance.stores fun _ => ?_
      refine hg.unary.bind fun argument argument' nodes' hargument => .node ?_
      rw [Shape.traverse, run_bind hargument]
      rfl

theorem binaryStep_stores {least : Nat} {left : Tree} {left' : NodeId}
    (h : (store lines left).run first = (left', nodes)) :
    Stores lines first nodes (binaryStep g least left) (binaryStep b least left')
      (keep (store lines) left) := by
  refine Bare.peek.stores fun t => ?_
  cases BinaryOperator.ofToken? t.kind with
  | none => exact .kept h
  | some op =>
    show Stores _ _ _ (if op.precedence < least then _ else _)
      (if op.precedence < least then _ else _) _
    split
    · exact .kept h
    · refine Bare.advance.stores fun _ => ?_
      refine (hg.binary _).bind fun right right' nodes' hright => ?_
      refine .start ((startsAt_store h).grows (store_grows lines right) hright) (.grown ?_)
      rw [Shape.traverse, run_bind h, run_bind hright]
      rfl

theorem binary_built (least : Nat) : Built lines (binary g least) (binary b least) (store lines) :=
  fun _ => (unary_built hg).bind fun _ _ _ hleft =>
    .iterate (fun _ _ _ h => binaryStep_stores hg h) hleft

theorem conditional_built : Built lines (conditional g) (conditional b) (store lines) := by
  refine fun nodes => (binary_built hg 1).bind fun test test' nodes' htest => ?_
  refine (Bare.eat _).stores fun c => ?_
  cases c with
  | false => exact .pure htest
  | true =>
    refine hg.assignment.bind fun consequent consequent' nodes'' hconsequent => ?_
    refine (Bare.expectPunct _).stores fun _ => ?_
    refine hg.assignment.bind fun alternate alternate' last halternate => ?_
    have hstart := (startsAt_store htest).grows (store_grows lines consequent) hconsequent
    refine .start (hstart.grows (store_grows lines alternate) halternate) (.node ?_)
    rw [Shape.traverse, run_bind htest, run_bind hconsequent, run_bind halternate]
    rfl

theorem assignment_built : Built lines (assignment g) (assignment b) (store lines) := by
  refine fun nodes => (conditional_built hg).bind fun left left' nodes' hleft => ?_
  refine Bare.peek.stores fun t => ?_
  cases AssignmentOperator.ofToken? t.kind with
  | none => exact .pure hleft
  | some op =>
    refine Bare.advance.stores fun _ => ?_
    exact pair_stores (.assignmentExpression op) (.assignmentExpression op) (fun _ _ => rfl) hleft
      hg.assignment

end Parser

end SquirrelAnalyzer
