import SquirrelAnalyzer.Proofs.Abreast.Expression
import SquirrelAnalyzer.Proofs.Tally.Statement

namespace SquirrelAnalyzer

namespace Parser

open Overlap

section

variable {v : Overlap} {g : Grammar} (hg : g.Along v)

include hg

theorem condition_along : Along v v.tree (condition g) (condition g) := by
  refine Along.expectPunct.bind fun _ _ _ => hg.assignment.bind fun test test' htest => ?_
  exact Along.expectPunct.bind fun _ _ _ => Along.pure htest

theorem initializer_along : Along v (Option.map v.tree) (initializer g) (initializer g) := by
  refine Along.eatPunct.bind_eq fun b => ?_
  cases b with
  | true => exact hg.assignment.some
  | false => exact Along.pure rfl

theorem declarator_along : Along v v.tree (declarator g) (declarator g) := by
  refine Along.identifier.bind fun id id' hid => ?_
  refine (initializer_along hg).bind fun init init' hinit => Along.node (start_eq hid) ?_
  simp only [Shape.map, hid, hinit]

theorem enumMember_along : Along v v.tree (enumMember g) (enumMember g) := by
  refine Along.identifier.bind fun id id' hid => ?_
  refine (initializer_along hg).bind fun init init' hinit => Along.node (start_eq hid) ?_
  simp only [Shape.map, hid, hinit]

theorem variables_along (kind : VariableKind) (isStatement : Bool) {start start' : Nat}
    (hstart : v.offset start = v.offset start') :
    Along v v.tree
      (do let declarations ← match kind with
            | .localVariable => separated (return false) (declarator g)
            | .constant => List.singleton <$> declarator g
          if isStatement then
            let _ ← eatPunct .semicolon
          node start (.variableDeclaration kind declarations))
      (do let declarations ← match kind with
            | .localVariable => separated (return false) (declarator g)
            | .constant => List.singleton <$> declarator g
          if isStatement then
            let _ ← eatPunct .semicolon
          node start' (.variableDeclaration kind declarations)) := by
  have hrest (ds ds' : List Tree) (hds : ds.map v.tree = ds'.map v.tree) : Along v v.tree
      (do if isStatement then
            let _ ← eatPunct .semicolon
          node start (.variableDeclaration kind ds))
      (do if isStatement then
            let _ ← eatPunct .semicolon
          node start' (.variableDeclaration kind ds')) := by
    have hnode : Along v v.tree (node start (.variableDeclaration kind ds))
        (node start' (.variableDeclaration kind ds')) :=
      Along.node hstart (congrArg (Shape.variableDeclaration kind) hds)
    cases isStatement with
    | true => exact Along.eatPunct.bind_eq fun _ => hnode
    | false => exact hnode
  cases kind with
  | localVariable =>
    refine Along.bind (Along.separated (Along.pure rfl) (declarator_along hg) ?_) hrest
    exact Takes.of_tallies fun n => (declarator_tallies (hg.tallies n)).pred
  | constant =>
    refine ((declarator_along hg).map fun d d' hd => ?_).bind hrest
    exact congrArg List.singleton hd

theorem variableList_along {kind : VariableKind} {isStatement : Bool} :
    Along v v.tree (variableList g kind isStatement) (variableList g kind isStatement) :=
  Along.advance.bind fun _ _ ht => variables_along hg kind isStatement (offset_eq ht)

theorem functionDeclaration_along {start start' : Nat} (hstart : v.offset start = v.offset start') :
    Along v v.tree (functionDeclaration g start) (functionDeclaration g start') := by
  refine Along.expectKeyword.bind fun _ _ _ => Along.qualifiedName.bind fun x x' hx => ?_
  obtain ⟨qualifier, id⟩ := x
  obtain ⟨qualifier', id'⟩ := x'
  obtain ⟨hqualifier, hid⟩ := Prod.mk.inj hx
  refine (parameters_along hg).bind fun params params' hparams => ?_
  refine (block_along hg).bind fun body body' hbody => Along.node hstart ?_
  simp only [Shape.map, hqualifier, hid, hparams, hbody]

theorem classDeclaration_along : Along v v.tree (classDeclaration g) (classDeclaration g) := by
  refine Along.expectKeyword.bind fun t t' ht => Along.qualifiedName.bind fun x x' hx => ?_
  obtain ⟨qualifier, id⟩ := x
  obtain ⟨qualifier', id'⟩ := x'
  obtain ⟨hqualifier, hid⟩ := Prod.mk.inj hx
  refine (superclass_along hg).bind fun parent parent' hparent => ?_
  refine (classBody_along hg).bind fun body body' hbody => Along.node (offset_eq ht) ?_
  simp only [Shape.map, hqualifier, hid, hparent, hbody]

theorem enumDeclaration_along : Along v v.tree (enumDeclaration g) (enumDeclaration g) := by
  have htakes : Takes (enumMember g) fun _ => True :=
    Takes.of_tallies fun n => (enumMember_tallies (hg.tallies n)).pred
  refine Along.expectKeyword.bind fun t t' ht => Along.identifier.bind fun id id' hid => ?_
  refine Along.expectPunct.bind fun _ _ _ => ?_
  refine (Along.braced (enumMember_along hg) htakes).bind fun members members' hmembers => ?_
  refine Along.node (offset_eq ht) ?_
  simp only [Shape.map, hid, hmembers]

theorem localDeclaration_along : Along v v.tree (localDeclaration g) (localDeclaration g) := by
  refine Along.peek.bind fun t t' ht => Along.peekSecond_bind (fun o => ?_) fun o o' ho => ?_
  · split
    · exact ⟨_, rfl, fun _ => (functionDeclaration_along hg rfl).onward⟩
    · exact ⟨_, rfl, fun _ => (variables_along hg .localVariable true rfl).onward⟩
  · rw [ho]
    split
    · exact Along.advance.bind fun _ _ _ => functionDeclaration_along hg (offset_eq ht)
    · exact variableList_along hg

theorem returnStatement_along : Along v v.tree (returnStatement g) (returnStatement g) := by
  refine Along.expectKeyword.bind fun t t' ht => ?_
  have hnode (argument argument' : Option Tree)
      (h : argument.map v.tree = argument'.map v.tree) : Along v v.tree
      (do let _ ← eatPunct .semicolon
          node t.span.start (.returnStatement argument))
      (do let _ ← eatPunct .semicolon
          node t'.span.start (.returnStatement argument')) :=
    Along.eatPunct.bind_eq fun _ => Along.node (offset_eq ht) (congrArg Shape.returnStatement h)
  refine Along.atTerminator.bind_eq fun b => ?_
  cases b with
  | true => exact (Along.pure rfl).bind hnode
  | false => exact (assignment_along hg).map_some.bind hnode

theorem ifStatement_along : Along v v.tree (ifStatement g) (ifStatement g) := by
  refine Along.expectKeyword.bind fun t t' ht => (condition_along hg).bind fun test test' htest => ?_
  refine hg.statement.bind fun consequent consequent' hconsequent => ?_
  have hnode (alternate alternate' : Option Tree)
      (h : alternate.map v.tree = alternate'.map v.tree) :
      Along v v.tree (node t.span.start (.ifStatement test consequent alternate))
        (node t'.span.start (.ifStatement test' consequent' alternate')) := by
    refine Along.node (offset_eq ht) ?_
    simp only [Shape.map, htest, hconsequent, h]
  refine Along.eatKeyword.bind_eq fun b => ?_
  cases b with
  | true => exact hg.statement.map_some.bind hnode
  | false => exact (Along.pure rfl).bind hnode

theorem whileStatement_along : Along v v.tree (whileStatement g) (whileStatement g) := by
  refine Along.expectKeyword.bind fun t t' ht => (condition_along hg).bind fun test test' htest => ?_
  refine hg.statement.bind fun body body' hbody => Along.node (offset_eq ht) ?_
  simp only [Shape.map, htest, hbody]

theorem doWhileStatement_along : Along v v.tree (doWhileStatement g) (doWhileStatement g) := by
  refine Along.expectKeyword.bind fun t t' ht => hg.statement.bind fun body body' hbody => ?_
  refine Along.expectKeyword.bind fun _ _ _ => (condition_along hg).bind fun test test' htest => ?_
  refine Along.eatPunct.bind_eq fun _ => Along.node (offset_eq ht) ?_
  simp only [Shape.map, htest, hbody]

theorem expressionBefore_along {p : Punct} :
    Along v (Option.map v.tree) (expressionBefore g p) (expressionBefore g p) := by
  refine Along.at?.bind_eq fun b => ?_
  cases b with
  | true => exact Along.pure rfl
  | false => exact hg.assignment.some

theorem forStatement_along : Along v v.tree (forStatement g) (forStatement g) := by
  refine Along.expectKeyword.bind fun t t' ht => Along.expectPunct.bind fun _ _ _ => ?_
  have hrest (init init' : Option Tree) (hinit : init.map v.tree = init'.map v.tree) :
      Along v v.tree
        (do let _ ← expectPunct .semicolon
            let test ← expressionBefore g .semicolon
            let _ ← expectPunct .semicolon
            let update ← expressionBefore g .parenClose
            let _ ← expectPunct .parenClose
            let body ← g.statement
            node t.span.start (.forStatement init test update body))
        (do let _ ← expectPunct .semicolon
            let test ← expressionBefore g .semicolon
            let _ ← expectPunct .semicolon
            let update ← expressionBefore g .parenClose
            let _ ← expectPunct .parenClose
            let body ← g.statement
            node t'.span.start (.forStatement init' test update body)) := by
    refine Along.expectPunct.bind fun _ _ _ => (expressionBefore_along hg).bind fun test test' htest => ?_
    refine Along.expectPunct.bind fun _ _ _ => ?_
    refine (expressionBefore_along hg).bind fun update update' hupdate => ?_
    refine Along.expectPunct.bind fun _ _ _ => hg.statement.bind fun body body' hbody => ?_
    refine Along.node (offset_eq ht) ?_
    simp only [Shape.map, hinit, htest, hupdate, hbody]
  refine Along.at?.bind_eq fun b => ?_
  cases b with
  | true => exact (variableList_along hg).map_some.bind hrest
  | false => exact (expressionBefore_along hg).bind hrest

theorem foreachStatement_along : Along v v.tree (foreachStatement g) (foreachStatement g) := by
  refine Along.expectKeyword.bind fun t t' ht => Along.expectPunct.bind fun _ _ _ => ?_
  refine Along.identifier.bind fun first first' hfirst => ?_
  have hrest (x x' : Option Tree × Tree) (hx : Along.qualified v x = Along.qualified v x') :
      Along v v.tree
        (do let _ ← expectKeyword .inKw
            let object ← g.assignment
            let _ ← expectPunct .parenClose
            let body ← g.statement
            node t.span.start (.foreachStatement x.1 x.2 object body))
        (do let _ ← expectKeyword .inKw
            let object ← g.assignment
            let _ ← expectPunct .parenClose
            let body ← g.statement
            node t'.span.start (.foreachStatement x'.1 x'.2 object body)) := by
    obtain ⟨index, value⟩ := x
    obtain ⟨index', value'⟩ := x'
    obtain ⟨hindex, hvalue⟩ := Prod.mk.inj hx
    refine Along.expectKeyword.bind fun _ _ _ => hg.assignment.bind fun object object' hobject => ?_
    refine Along.expectPunct.bind fun _ _ _ => hg.statement.bind fun body body' hbody => ?_
    refine Along.node (offset_eq ht) ?_
    simp only [Shape.map, hindex, hvalue, hobject, hbody]
  refine Along.eatPunct.bind_eq fun b => ?_
  cases b with
  | true =>
    refine Along.bind (f := Along.qualified v) (Along.identifier.map fun value value' hvalue => ?_) hrest
    simp only [Along.qualified, Prod.map_apply, Option.map_some, hfirst, hvalue]
  | false =>
    refine Along.bind (f := Along.qualified v) (Along.pure ?_) hrest
    exact congrArg (Prod.mk none) hfirst

theorem tryStatement_along : Along v v.tree (tryStatement g) (tryStatement g) := by
  refine Along.expectKeyword.bind fun t t' ht => hg.statement.bind fun block block' hblock => ?_
  refine Along.eatKeyword.bind_eq fun b => ?_
  cases b with
  | true =>
    refine Along.expectPunct.bind fun _ _ _ => Along.identifier.bind fun param param' hparam => ?_
    refine Along.expectPunct.bind fun _ _ _ => hg.statement.bind fun handler handler' hhandler => ?_
    refine Along.node (offset_eq ht) ?_
    simp only [Shape.map, Option.map_some, hblock, hparam, hhandler]
  | false =>
    refine Along.node (offset_eq ht) ?_
    simp only [Shape.map, hblock]

theorem throwStatement_along : Along v v.tree (throwStatement g) (throwStatement g) := by
  refine Along.expectKeyword.bind fun t t' ht => hg.assignment.bind fun argument argument' h => ?_
  exact Along.eatPunct.bind_eq fun _ => Along.node (offset_eq ht) (congrArg Shape.throwStatement h)

omit hg in
theorem jumpStatement_along {shape : Shape Tree} :
    Along v v.tree (jumpStatement shape) (jumpStatement shape) :=
  Along.advance.bind fun _ _ ht => Along.eatPunct.bind_eq fun _ => Along.node (offset_eq ht) rfl

theorem expressionStatement_along :
    Along v v.tree (expressionStatement g) (expressionStatement g) := by
  refine Along.peek.bind fun t t' ht => (assignment_along hg).bind fun e e' he => ?_
  exact Along.eatPunct.bind_eq fun _ => Along.node (offset_eq ht) (congrArg Shape.expressionStatement he)

theorem statement_along : Along v v.tree (statement g) (statement g) := by
  refine Along.peek.bind fun t t' ht => ?_
  rw [kind_eq ht]
  split
  · exact block_along hg
  · exact localDeclaration_along hg
  · exact variableList_along hg
  · exact functionDeclaration_along hg (offset_eq ht)
  · exact classDeclaration_along hg
  · exact enumDeclaration_along hg
  · exact returnStatement_along hg
  · exact ifStatement_along hg
  · exact whileStatement_along hg
  · exact doWhileStatement_along hg
  · exact forStatement_along hg
  · exact foreachStatement_along hg
  · exact tryStatement_along hg
  · exact throwStatement_along hg
  · exact jumpStatement_along
  · exact jumpStatement_along
  · exact expressionStatement_along hg

theorem statements_along : Along v (List.map v.tree) (statements g) (statements g) := by
  refine Along.many (Along.skip.bind_eq fun _ => Along.at?.bind_eq fun b => ?_) fun n => ?_
  · cases b with
    | true => exact Along.pure rfl
    | false => exact hg.statement.some
  · refine Onward.skip.stays.bind fun _ => Onward.at?.stays.bind fun b => ?_
    cases b with
    | true => exact none_takes
    | false => exact (Takes.of_tallies fun n => (hg.tallies n).statement).some

end

end Parser

theorem Grammar.along_ofDepth (v : Overlap) (depth : Nat) : (ofDepth depth).Along v := by
  induction depth with
  | zero =>
    exact ⟨.fail, .fail, fun _ => .fail, .fail, fun n => tallies_self n 0⟩
  | succ depth ih =>
    exact ⟨Parser.statement_along ih, Parser.assignment_along ih, Parser.binary_along ih,
      Parser.unary_along ih, fun n => tallies_self n (depth + 1)⟩

end SquirrelAnalyzer
