import SquirrelAnalyzer.Proofs.Extent.Expression
import SquirrelAnalyzer.Proofs.Tally.Statement

namespace SquirrelAnalyzer

namespace Parser

open Cursor SquirrelAnalyzer.Tree

section

variable {tokens : List Token} {g : Grammar} (hg : g.Builds tokens)

include hg

theorem condition_builds : Builds tokens (condition g) (Tight tokens) := by
  refine Builds.after Onward.expectPunct fun _ => hg.assignment.bind fun test htest => ?_
  exact Builds.after Onward.expectPunct fun _ => Builds.pure htest

theorem initializer_builds : Builds tokens (initializer g) fun o => ∀ t ∈ o, t.Tight tokens := by
  refine Builds.after Onward.eat fun b => ?_
  cases b with
  | true => exact hg.assignment.some
  | false => exact Builds.none

theorem declarator_builds : Builds tokens (declarator g) (Tight tokens) := by
  refine Builds.identifier.bind fun id hid => (initializer_builds hg).bind fun init hinit => ?_
  refine Builds.node rfl ?_
  simpa [Shape.children, Shape.kind, Kind.fields, Shape.field] using And.intro hid hinit

theorem enumMember_builds : Builds tokens (enumMember g) (Tight tokens) := by
  refine Builds.identifier.bind fun id hid => (initializer_builds hg).bind fun init hinit => ?_
  refine Builds.node rfl ?_
  simpa [Shape.children, Shape.kind, Kind.fields, Shape.field] using And.intro hid hinit

theorem variableList_builds {kind : VariableKind} {isStatement : Bool} :
    Builds tokens (variableList g kind isStatement) (Tight tokens) := by
  refine Builds.after Onward.advance fun t => ?_
  have hrest (ds : List Tree) (hds : ∀ d ∈ ds, d.Tight tokens) : Builds tokens
      (do if isStatement then
            let _ ← eatPunct .semicolon
          node t.span.start (.variableDeclaration kind ds)) (Tight tokens) := by
    have hnode : Builds tokens (node t.span.start (.variableDeclaration kind ds)) (Tight tokens) := by
      refine Builds.node rfl ?_
      simpa [Shape.children, Shape.kind, Kind.fields, Shape.field] using hds
    cases isStatement with
    | true => exact Builds.after Onward.eat fun _ => hnode
    | false => exact hnode
  cases kind with
  | localVariable => exact (Builds.separated (.pure false) (declarator_builds hg)).bind hrest
  | constant =>
    refine Builds.bind (F := fun ds => ∀ d ∈ ds, d.Tight tokens) ?_ hrest
    exact (declarator_builds hg).map fun d hd => List.forall_mem_singleton.mpr hd

theorem functionDeclaration_builds (htokens : Token.Ended tokens) {start : Nat} :
    Builds tokens (functionDeclaration g start) (Tight tokens) := by
  refine Builds.after Onward.expectKeyword fun _ => (qualifiedName_builds htokens rfl).bind fun x hx => ?_
  obtain ⟨qualifier, id⟩ := x
  refine (parameters_builds hg).bind fun params hparams => (block_builds hg).bind fun body hbody => ?_
  refine hx.node (params ++ [body]) ?_ ?_ nofun ?_
  · cases qualifier <;> rfl
  · simp [Shape.children, Shape.kind, Kind.fields, Shape.field]
  · exact List.forall_mem_append.mpr ⟨hparams, List.forall_mem_singleton.mpr hbody⟩

theorem classDeclaration_builds (htokens : Token.Ended tokens) :
    Builds tokens (classDeclaration g) (Tight tokens) := by
  refine Builds.after Onward.expectKeyword fun t => (qualifiedName_builds htokens rfl).bind fun x hx => ?_
  obtain ⟨qualifier, id⟩ := x
  refine (superclass_builds hg).bind fun parent hparent => (classBody_builds hg).bind fun body hbody => ?_
  refine hx.node (parent.toList ++ [body]) ?_ ?_ nofun ?_
  · cases qualifier <;> rfl
  · simp [Shape.children, Shape.kind, Kind.fields, Shape.field]
  · refine List.forall_mem_append.mpr ⟨fun t ht => ?_, List.forall_mem_singleton.mpr hbody⟩
    exact hparent t (Option.mem_toList.mp ht)

theorem enumDeclaration_builds : Builds tokens (enumDeclaration g) (Tight tokens) := by
  refine Builds.after Onward.expectKeyword fun t => Builds.identifier.bind fun id hid => ?_
  refine Builds.after Onward.expectPunct fun _ => ?_
  refine (Builds.braced (enumMember_builds hg)).bind fun members h => Builds.node rfl ?_
  simpa [Shape.children, Shape.kind, Kind.fields, Shape.field] using And.intro hid h

theorem localDeclaration_builds (htokens : Token.Ended tokens) :
    Builds tokens (localDeclaration g) (Tight tokens) := by
  refine Builds.after Onward.peek fun t => Builds.after Onward.peekSecond fun second => ?_
  split
  · exact Builds.after Onward.advance fun _ => functionDeclaration_builds hg htokens
  · exact variableList_builds hg

theorem returnStatement_builds : Builds tokens (returnStatement g) (Tight tokens) := by
  refine Builds.after Onward.expectKeyword fun t => ?_
  have hnode (argument : Option Tree) (h : ∀ t ∈ argument, t.Tight tokens) : Builds tokens
      (do let _ ← eatPunct .semicolon
          node t.span.start (.returnStatement argument)) (Tight tokens) := by
    refine Builds.after Onward.eat fun _ => Builds.node rfl ?_
    simpa [Shape.children, Shape.kind, Kind.fields, Shape.field] using h
  refine Builds.after Onward.atTerminator fun b => ?_
  cases b with
  | true => exact Builds.none.bind hnode
  | false => exact (assignment_builds hg).map_some.bind hnode

theorem ifStatement_builds : Builds tokens (ifStatement g) (Tight tokens) := by
  refine Builds.after Onward.expectKeyword fun t => (condition_builds hg).bind fun test htest => ?_
  refine hg.statement.bind fun consequent hconsequent => ?_
  have hnode (alternate : Option Tree) (h : ∀ t ∈ alternate, t.Tight tokens) : Builds tokens
      (node t.span.start (.ifStatement test consequent alternate)) (Tight tokens) := by
    refine Builds.node rfl ?_
    simpa [Shape.children, Shape.kind, Kind.fields, Shape.field] using And.intro htest (And.intro hconsequent h)
  refine Builds.after Onward.eat fun b => ?_
  cases b with
  | true => exact hg.statement.map_some.bind hnode
  | false => exact Builds.none.bind hnode

theorem whileStatement_builds : Builds tokens (whileStatement g) (Tight tokens) := by
  refine Builds.after Onward.expectKeyword fun t => (condition_builds hg).bind fun test htest => ?_
  refine hg.statement.bind fun body hbody => Builds.node rfl ?_
  simp [Shape.children, Shape.kind, Kind.fields, Shape.field, htest, hbody]

theorem doWhileStatement_builds : Builds tokens (doWhileStatement g) (Tight tokens) := by
  refine Builds.after Onward.expectKeyword fun t => hg.statement.bind fun body hbody => ?_
  refine Builds.after Onward.expectKeyword fun _ => (condition_builds hg).bind fun test htest => ?_
  refine Builds.after Onward.eat fun _ => Builds.node rfl ?_
  simp [Shape.children, Shape.kind, Kind.fields, Shape.field, htest, hbody]

theorem expressionBefore_builds {p : Punct} :
    Builds tokens (expressionBefore g p) fun o => ∀ t ∈ o, t.Tight tokens := by
  refine Builds.after Onward.at? fun b => ?_
  cases b with
  | true => exact Builds.none
  | false => exact hg.assignment.some

theorem forStatement_builds : Builds tokens (forStatement g) (Tight tokens) := by
  refine Builds.after Onward.expectKeyword fun t => Builds.after Onward.expectPunct fun _ => ?_
  have hrest (init : Option Tree) (hinit : ∀ t ∈ init, t.Tight tokens) : Builds tokens
      (do let _ ← expectPunct .semicolon
          let test ← expressionBefore g .semicolon
          let _ ← expectPunct .semicolon
          let update ← expressionBefore g .parenClose
          let _ ← expectPunct .parenClose
          let body ← g.statement
          node t.span.start (.forStatement init test update body)) (Tight tokens) := by
    refine Builds.after Onward.expectPunct fun _ => ?_
    refine (expressionBefore_builds hg).bind fun test htest => Builds.after Onward.expectPunct fun _ => ?_
    refine (expressionBefore_builds hg).bind fun update hupdate => ?_
    refine Builds.after Onward.expectPunct fun _ => hg.statement.bind fun body hbody => ?_
    refine Builds.node rfl ?_
    simpa [Shape.children, Shape.kind, Kind.fields, Shape.field, or_imp, forall_and] using
      And.intro hinit (And.intro htest (And.intro hupdate hbody))
  refine Builds.after Onward.at? fun b => ?_
  cases b with
  | true => exact (variableList_builds hg).map_some.bind hrest
  | false => exact (expressionBefore_builds hg).bind hrest

theorem foreachStatement_builds : Builds tokens (foreachStatement g) (Tight tokens) := by
  refine Builds.after Onward.expectKeyword fun t => Builds.after Onward.expectPunct fun _ => ?_
  refine Builds.identifier.bind fun first hfirst => ?_
  have hrest (x : Option Tree × Tree) (hx : (∀ t ∈ x.1, t.Tight tokens) ∧ x.2.Tight tokens) :
      Builds tokens
        (do let _ ← expectKeyword .inKw
            let object ← g.assignment
            let _ ← expectPunct .parenClose
            let body ← g.statement
            node t.span.start (.foreachStatement x.1 x.2 object body)) (Tight tokens) := by
    refine Builds.after Onward.expectKeyword fun _ => hg.assignment.bind fun object hobject => ?_
    refine Builds.after Onward.expectPunct fun _ => hg.statement.bind fun body hbody => ?_
    refine Builds.node rfl ?_
    simpa [Shape.children, Shape.kind, Kind.fields, Shape.field, or_imp, forall_and] using
      And.intro hx.1 (And.intro hx.2 (And.intro hobject hbody))
  refine Builds.after Onward.eat fun b => ?_
  cases b with
  | true =>
    refine Builds.bind (F := fun x : Option Tree × Tree =>
      (∀ t ∈ x.1, t.Tight tokens) ∧ x.2.Tight tokens) ?_ hrest
    exact Builds.identifier.map fun value hvalue => ⟨fun _ ht => Option.mem_some.mp ht ▸ hfirst, hvalue⟩
  | false =>
    refine Builds.bind (F := fun x : Option Tree × Tree =>
      (∀ t ∈ x.1, t.Tight tokens) ∧ x.2.Tight tokens) ?_ hrest
    exact Builds.pure ⟨fun _ ht => absurd ht (Option.not_mem_none _), hfirst⟩

theorem tryStatement_builds : Builds tokens (tryStatement g) (Tight tokens) := by
  refine Builds.after Onward.expectKeyword fun t => hg.statement.bind fun block hblock => ?_
  refine Builds.after Onward.eat fun b => ?_
  cases b with
  | true =>
    refine Builds.after Onward.expectPunct fun _ => Builds.identifier.bind fun param hparam => ?_
    refine Builds.after Onward.expectPunct fun _ => hg.statement.bind fun handler hhandler => ?_
    refine Builds.node rfl ?_
    simp [Shape.children, Shape.kind, Kind.fields, Shape.field, hblock, hparam, hhandler]
  | false =>
    refine Builds.node rfl ?_
    simp [Shape.children, Shape.kind, Kind.fields, Shape.field, hblock]

theorem throwStatement_builds : Builds tokens (throwStatement g) (Tight tokens) := by
  refine Builds.after Onward.expectKeyword fun t => hg.assignment.bind fun argument h => ?_
  refine Builds.after Onward.eat fun _ => Builds.node rfl ?_
  simpa [Shape.children, Shape.kind, Kind.fields, Shape.field] using h

omit hg in
theorem jumpStatement_builds {shape : Shape Tree} (hshape : shape.isPlain = true)
    (hchildren : shape.children .full = []) : Builds tokens (jumpStatement shape) (Tight tokens) := by
  refine Builds.after Onward.advance fun t => Builds.after Onward.eat fun _ => ?_
  exact Builds.leaf hshape hchildren

theorem expressionStatement_builds : Builds tokens (expressionStatement g) (Tight tokens) := by
  refine Builds.after Onward.peek fun t => (assignment_builds hg).bind fun e he => ?_
  refine Builds.after Onward.eat fun _ => Builds.node rfl ?_
  simpa [Shape.children, Shape.kind, Kind.fields, Shape.field] using he

theorem statement_builds (htokens : Token.Ended tokens) :
    Builds tokens (statement g) (Tight tokens) := by
  refine Builds.after Onward.peek fun t => ?_
  split
  · exact block_builds hg
  · exact localDeclaration_builds hg htokens
  · exact variableList_builds hg
  · exact functionDeclaration_builds hg htokens
  · exact classDeclaration_builds hg htokens
  · exact enumDeclaration_builds hg
  · exact returnStatement_builds hg
  · exact ifStatement_builds hg
  · exact whileStatement_builds hg
  · exact doWhileStatement_builds hg
  · exact forStatement_builds hg
  · exact foreachStatement_builds hg
  · exact tryStatement_builds hg
  · exact throwStatement_builds hg
  · exact jumpStatement_builds rfl rfl
  · exact jumpStatement_builds rfl rfl
  · exact expressionStatement_builds hg

theorem statements_builds : Builds tokens (statements g) fun l => ∀ t ∈ l, t.Tight tokens := by
  refine Builds.many (Builds.after Onward.skip fun _ => Builds.after Onward.at? fun b => ?_)
  cases b with
  | true => exact Builds.none
  | false => exact hg.statement.some

end

end Parser

theorem Grammar.builds_ofDepth {tokens : List Token} (htokens : Token.Ended tokens) (depth : Nat) :
    (ofDepth depth).Builds tokens := by
  induction depth with
  | zero => exact ⟨.fail, .fail, fun _ => .fail, .fail⟩
  | succ depth ih =>
    exact ⟨Parser.statement_builds ih htokens, Parser.assignment_builds ih,
      Parser.binary_builds ih, Parser.unary_builds ih⟩

theorem Parser.sourceFile_tight {tokens : List Token} {size : Nat} {t : Tree}
    (hchain : Token.Chain 0 tokens) (h : sourceFile tokens size = .ok t) : t.Tight tokens := by
  unfold sourceFile at h
  split at h
  · cases h
    exact .leaf rfl rfl
  · next next later =>
    split at h
    · next body c hrun =>
      cases h
      have hbuilds := statements_builds (Grammar.builds_ofDepth hchain.ended (later.length + 2))
      have hwithin : Cursor.Within (next :: later) ⟨next, later, 0⟩ := List.suffix_refl _
      have hbody := (hbuilds _ _ _ hwithin hrun).1
      refine .plain rfl ?_
      simpa [Shape.children, Shape.kind, Kind.fields, Shape.field] using hbody
    · cases h

end SquirrelAnalyzer
