import SquirrelAnalyzer.Proofs.Built.Expression

namespace SquirrelAnalyzer

open Arena

namespace Parser

variable {lines : LineMap} {g : Grammar} {b : Productions Builder NodeId}
  {first nodes nodes' : Array Node} (hg : g.Built lines b)

include hg

theorem condition_built : Built lines (condition g) (condition b) (store lines) :=
  parenthesized_built hg

theorem initializer_built :
    Built lines (initializer g) (initializer b) (Option.mapM (store lines)) := by
  refine fun nodes => (Bare.eat _).stores fun c => ?_
  cases c with
  | true => exact hg.assignment.some nodes
  | false => exact Built.none nodes

theorem initialized_built (shape : Tree → Option Tree → Shape Tree)
    (shape' : NodeId → Option NodeId → Shape NodeId)
    (hshape : ∀ id init, (shape id init).traverse (store lines) =
      return shape' (← store lines id) (← init.mapM (store lines))) :
    Built lines
      (do let id ← identifier; let init ← initializer g; node (← Sink.start id) (shape id init))
      (do let id ← identifier; let init ← initializer b; node (← Sink.start id) (shape' id init))
      (store lines) := by
  refine fun nodes => (identifier_built lines).bind fun id id' nodes' hid => ?_
  refine (initializer_built hg).bind fun init init' nodes'' hinit => ?_
  have hgrows : Grows (init.mapM (store lines)) := .option fun t _ => store_grows lines t
  refine .start ((startsAt_store hid).grows hgrows hinit) (.node ?_)
  rw [hshape, run_bind hid, run_bind hinit]
  rfl

theorem declarator_built : Built lines (declarator g) (declarator b) (store lines) :=
  initialized_built hg .variableDeclarator .variableDeclarator fun _ _ => rfl

omit hg in
theorem declarations_stores {t : Token} {kind : VariableKind} {isStatement : Bool} {ds : List Tree}
    {ds' : List NodeId} (h : (ds.mapM (store lines)).run first = (ds', nodes)) :
    Stores lines first nodes
      (do
        if isStatement then
          let _ ← eatPunct .semicolon
        node t.span.start (.variableDeclaration kind ds))
      (do
        if isStatement then
          let _ ← eatPunct .semicolon
        node t.span.start (.variableDeclaration kind ds')) (store lines) := by
  have hnode : ((Shape.variableDeclaration kind ds).traverse (store lines)).run first =
      (.variableDeclaration kind ds', nodes) := run_bind h
  cases isStatement with
  | true => exact (Bare.eat _).stores fun _ => .node hnode
  | false => exact .node hnode

theorem variableList_built (kind : VariableKind) (isStatement : Bool) :
    Built lines (variableList g kind isStatement) (variableList b kind isStatement)
      (store lines) := by
  refine fun nodes => Bare.advance.stores fun t => ?_
  cases kind with
  | localVariable =>
    exact ((declarator_built hg).separated (.pure false)).bind fun _ _ _ => declarations_stores
  | constant =>
    have hone : Built lines (List.singleton <$> declarator g) (List.singleton <$> declarator b)
        (List.mapM (store lines)) := by
      refine (declarator_built hg).map fun d => ?_
      rw [List.singleton, List.mapM_cons, List.mapM_nil]
      simp
      rfl
    exact hone.bind fun _ _ _ => declarations_stores

theorem functionDeclaration_built (start : Nat) :
    Built lines (functionDeclaration g start) (functionDeclaration b start) (store lines) := by
  refine fun nodes => (Bare.expectKeyword _).stores fun t => ?_
  refine (qualifiedName_built lines _).bind fun x x' nodes' hx => ?_
  obtain ⟨qualifier, id⟩ := x
  obtain ⟨qualifier', id'⟩ := x'
  obtain ⟨owned, hqualifier, hid⟩ := run_storeQualified.mp hx
  refine (parameters_built hg).bind fun params params' nodes'' hparams => ?_
  refine (block_built hg).bind fun body body' last hbody => .node ?_
  rw [Shape.traverse, run_bind hqualifier, run_bind hid, run_bind hparams, run_bind hbody]
  rfl

theorem classDeclaration_built :
    Built lines (classDeclaration g) (classDeclaration b) (store lines) := by
  refine fun nodes => (Bare.expectKeyword _).stores fun t => ?_
  refine (qualifiedName_built lines _).bind fun x x' nodes' hx => ?_
  obtain ⟨qualifier, id⟩ := x
  obtain ⟨qualifier', id'⟩ := x'
  obtain ⟨owned, hqualifier, hid⟩ := run_storeQualified.mp hx
  refine (superclass_built hg).bind fun parent parent' nodes'' hparent => ?_
  refine (classBody_built hg).bind fun body body' last hbody => .node ?_
  rw [Shape.traverse, run_bind hqualifier, run_bind hid, run_bind hparent, run_bind hbody]
  rfl

theorem enumMember_built : Built lines (enumMember g) (enumMember b) (store lines) :=
  initialized_built hg .enumMember .enumMember fun _ _ => rfl

theorem enumDeclaration_built :
    Built lines (enumDeclaration g) (enumDeclaration b) (store lines) := by
  refine fun nodes => (Bare.expectKeyword _).stores fun t => ?_
  refine (identifier_built lines).bind fun id id' nodes' hid => ?_
  refine (Bare.expectPunct _).stores fun _ => ?_
  refine (enumMember_built hg).braced.bind fun members members' nodes'' hmembers => .node ?_
  rw [Shape.traverse, run_bind hid, run_bind hmembers]
  rfl

theorem localDeclaration_built :
    Built lines (localDeclaration g) (localDeclaration b) (store lines) := by
  refine fun nodes => Bare.peek.stores fun t => Bare.peekSecond.stores fun second => ?_
  split
  · exact Bare.advance.stores fun _ => functionDeclaration_built hg _ nodes
  · exact variableList_built hg _ _ nodes

theorem returnStatement_built :
    Built lines (returnStatement g) (returnStatement b) (store lines) := by
  refine fun nodes => (Bare.expectKeyword _).stores fun t => Bare.atTerminator.stores fun c => ?_
  cases c with
  | true =>
    refine (Bare.eat _).stores fun _ => .node ?_
    rfl
  | false =>
    refine (assignment_built hg).some.bind fun argument argument' nodes' hargument => ?_
    refine (Bare.eat _).stores fun _ => .node ?_
    rw [Shape.traverse, run_bind hargument]
    rfl

theorem ifStatement_built : Built lines (ifStatement g) (ifStatement b) (store lines) := by
  refine fun nodes => (Bare.expectKeyword _).stores fun t => ?_
  refine (condition_built hg).bind fun test test' nodes' htest => ?_
  refine hg.statement.bind fun consequent consequent' nodes'' hconsequent => ?_
  refine (Bare.eat _).stores fun c => ?_
  cases c with
  | false =>
    refine .node ?_
    rw [Shape.traverse, run_bind htest, run_bind hconsequent]
    rfl
  | true =>
    refine hg.statement.some.bind fun alternate alternate' last halternate => .node ?_
    rw [Shape.traverse, run_bind htest, run_bind hconsequent, run_bind halternate]
    rfl

theorem whileStatement_built :
    Built lines (whileStatement g) (whileStatement b) (store lines) := by
  refine fun nodes => (Bare.expectKeyword _).stores fun t => ?_
  refine (condition_built hg).bind fun test test' nodes' htest => ?_
  refine hg.statement.bind fun body body' nodes'' hbody => .node ?_
  rw [Shape.traverse, run_bind htest, run_bind hbody]
  rfl

theorem doWhileStatement_built :
    Built lines (doWhileStatement g) (doWhileStatement b) (store lines) := by
  refine fun nodes => (Bare.expectKeyword _).stores fun t => ?_
  refine hg.statement.bind fun body body' nodes' hbody => (Bare.expectKeyword _).stores fun _ => ?_
  refine (condition_built hg).bind fun test test' nodes'' htest => ?_
  refine (Bare.eat _).stores fun _ => .node ?_
  rw [Shape.traverse, run_bind hbody, run_bind htest]
  rfl

theorem expressionBefore_built (p : Punct) :
    Built lines (expressionBefore g p) (expressionBefore b p) (Option.mapM (store lines)) := by
  refine fun nodes => (Bare.at? _).stores fun c => ?_
  cases c with
  | true => exact Built.none nodes
  | false => exact hg.assignment.some nodes

theorem loop_stores {start : Nat} {init : Option Tree} {init' : Option NodeId}
    (h : (init.mapM (store lines)).run first = (init', nodes)) :
    Stores lines first nodes
      (do
        let _ ← expectPunct .semicolon
        let test ← expressionBefore g .semicolon
        let _ ← expectPunct .semicolon
        let update ← expressionBefore g .parenClose
        let _ ← expectPunct .parenClose
        let body ← g.statement
        node start (.forStatement init test update body))
      (do
        let _ ← expectPunct .semicolon
        let test ← expressionBefore b .semicolon
        let _ ← expectPunct .semicolon
        let update ← expressionBefore b .parenClose
        let _ ← expectPunct .parenClose
        let body ← b.statement
        node start (.forStatement init' test update body)) (store lines) := by
  refine (Bare.expectPunct _).stores fun _ => ?_
  refine (expressionBefore_built hg _).bind fun test test' nodes' htest => ?_
  refine (Bare.expectPunct _).stores fun _ => ?_
  refine (expressionBefore_built hg _).bind fun update update' nodes'' hupdate => ?_
  refine (Bare.expectPunct _).stores fun _ => ?_
  refine hg.statement.bind fun body body' last hbody => .node ?_
  rw [Shape.traverse, run_bind h, run_bind htest, run_bind hupdate, run_bind hbody]
  rfl

theorem forStatement_built : Built lines (forStatement g) (forStatement b) (store lines) := by
  refine fun nodes => (Bare.expectKeyword _).stores fun t => (Bare.expectPunct _).stores fun _ => ?_
  refine (Bare.at? _).stores fun c => ?_
  cases c with
  | true => exact (variableList_built hg _ _).some.bind fun _ _ _ => loop_stores hg
  | false => exact (expressionBefore_built hg _).bind fun _ _ _ => loop_stores hg

theorem iteration_stores {start : Nat} {index : Option Tree} {index' : Option NodeId} {value : Tree}
    {value' : NodeId} (hindex : (index.mapM (store lines)).run first = (index', nodes))
    (hvalue : (store lines value).run nodes = (value', nodes')) :
    Stores lines first nodes'
      (do
        let _ ← expectKeyword .inKw
        let object ← g.assignment
        let _ ← expectPunct .parenClose
        let body ← g.statement
        node start (.foreachStatement index value object body))
      (do
        let _ ← expectKeyword .inKw
        let object ← b.assignment
        let _ ← expectPunct .parenClose
        let body ← b.statement
        node start (.foreachStatement index' value' object body)) (store lines) := by
  refine (Bare.expectKeyword _).stores fun _ => ?_
  refine hg.assignment.bind fun object object' nodes'' hobject => ?_
  refine (Bare.expectPunct _).stores fun _ => ?_
  refine hg.statement.bind fun body body' last hbody => .node ?_
  rw [Shape.traverse, run_bind hindex, run_bind hvalue, run_bind hobject, run_bind hbody]
  rfl

theorem foreachStatement_built :
    Built lines (foreachStatement g) (foreachStatement b) (store lines) := by
  refine fun nodes => (Bare.expectKeyword _).stores fun t => (Bare.expectPunct _).stores fun _ => ?_
  refine (identifier_built lines).bind fun name name' nodes' hname => ?_
  refine (Bare.eat _).stores fun c => ?_
  cases c with
  | true =>
    have hpair : Stores lines nodes nodes' ((some name, ·) <$> identifier)
        ((some name', ·) <$> identifier) (storeQualified lines) :=
      (identifier_built lines).bind_pure fun _ _ _ hvalue =>
        run_storeQualified.mpr ⟨_, run_mapM_some.mpr ⟨_, rfl, hname⟩, hvalue⟩
    refine hpair.bind fun x x' nodes'' hx => ?_
    obtain ⟨_, hindex, hvalue⟩ := run_storeQualified.mp hx
    exact iteration_stores hg hindex hvalue
  | false => exact iteration_stores hg rfl hname

theorem tryStatement_built : Built lines (tryStatement g) (tryStatement b) (store lines) := by
  refine fun nodes => (Bare.expectKeyword _).stores fun t => ?_
  refine hg.statement.bind fun body body' nodes' hbody => (Bare.eat _).stores fun c => ?_
  cases c with
  | true =>
    refine (Bare.expectPunct _).stores fun _ => ?_
    refine (identifier_built lines).bind fun param param' nodes'' hparam => ?_
    refine (Bare.expectPunct _).stores fun _ => ?_
    refine hg.statement.bind fun handler handler' last hhandler => .node ?_
    rw [Shape.traverse, run_bind hbody, run_bind (run_mapM_some.mpr ⟨_, rfl, hparam⟩),
      run_bind (run_mapM_some.mpr ⟨_, rfl, hhandler⟩)]
    rfl
  | false =>
    refine .node ?_
    rw [Shape.traverse, run_bind hbody]
    rfl

theorem throwStatement_built :
    Built lines (throwStatement g) (throwStatement b) (store lines) := by
  refine fun nodes => (Bare.expectKeyword _).stores fun t => ?_
  refine hg.assignment.bind fun argument argument' nodes' hargument => ?_
  refine (Bare.eat _).stores fun _ => .node ?_
  rw [Shape.traverse, run_bind hargument]
  rfl

omit hg in
theorem jumpStatement_built {shape : Shape Tree} {shape' : Shape NodeId}
    (h : shape.traverse (store lines) = return shape') :
    Built lines (jumpStatement shape) (jumpStatement shape') (store lines) :=
  fun _ => Bare.advance.stores fun _ => (Bare.eat _).stores fun _ => .node (by rw [h]; rfl)

theorem expressionStatement_built :
    Built lines (expressionStatement g) (expressionStatement b) (store lines) := by
  refine fun nodes => Bare.peek.stores fun t => ?_
  refine (assignment_built hg).bind fun expression expression' nodes' hexpression => ?_
  refine (Bare.eat _).stores fun _ => .node ?_
  rw [Shape.traverse, run_bind hexpression]
  rfl

theorem statement_built : Built lines (statement g) (statement b) (store lines) := by
  refine fun nodes => Bare.peek.stores fun t => ?_
  split
  · exact block_built hg nodes
  · exact localDeclaration_built hg nodes
  · exact variableList_built hg _ _ nodes
  · exact functionDeclaration_built hg _ nodes
  · exact classDeclaration_built hg nodes
  · exact enumDeclaration_built hg nodes
  · exact returnStatement_built hg nodes
  · exact ifStatement_built hg nodes
  · exact whileStatement_built hg nodes
  · exact doWhileStatement_built hg nodes
  · exact forStatement_built hg nodes
  · exact foreachStatement_built hg nodes
  · exact tryStatement_built hg nodes
  · exact throwStatement_built hg nodes
  · exact jumpStatement_built rfl nodes
  · exact jumpStatement_built rfl nodes
  · exact expressionStatement_built hg nodes

end Parser

theorem Productions.built_ofDepth (lines : LineMap) (n : Nat) :
    (Grammar.ofDepth n).Built lines (.ofDepth n) := by
  induction n with
  | zero => exact ⟨fun _ => .fail, fun _ => .fail, fun _ _ => .fail, fun _ => .fail⟩
  | succ n ih =>
    exact ⟨Parser.statement_built ih, Parser.assignment_built ih, Parser.binary_built ih,
      Parser.unary_built ih⟩

theorem Parser.statements_built {lines : LineMap} {g : Grammar} {b : Productions Builder NodeId}
    (hg : g.Built lines b) :
    Built lines (statements g) (statements b) (List.mapM (store lines)) := by
  refine .many fun nodes => (Bare.skip _).stores fun _ => (Bare.at? _).stores fun c => ?_
  cases c with
  | true => exact Built.none nodes
  | false => exact hg.statement.some nodes

namespace Builder

theorem sourceFile_eq (lines : LineMap) (tokens : List Token) : sourceFile lines tokens =
    (Parser.sourceFile tokens lines.size).map fun t => (store lines t).run #[] := by
  cases tokens with
  | nil => rfl
  | cons t ts =>
    have hbuilt := Parser.statements_built (Productions.built_ofDepth lines (ts.length + 2)) #[]
      ⟨t, ts, 0⟩
    have hstored (body : List Tree) :
        (store lines (.node ⟨0, lines.size⟩ (.sourceFile body))).run #[] =
          Arena.pushNode ((body.mapM (store lines)).run #[]).2 (lines.location ⟨0, lines.size⟩)
            (.sourceFile ((body.mapM (store lines)).run #[]).1) := by
      rw [store_node, Shape.traverse]
      rfl
    rw [sourceFile, Parser.sourceFile]
    simp only [hbuilt, StateT.run]
    cases (Parser.statements (Grammar.ofDepth (ts.length + 2))) ⟨t, ts, 0⟩ with
    | error f => rfl
    | ok x => exact congrArg Except.ok (hstored x.1).symm

end Builder

end SquirrelAnalyzer
