import SquirrelAnalyzer.Proofs.Tally.Expression
import SquirrelAnalyzer.Proofs.Tree

namespace SquirrelAnalyzer

namespace Parser

open Cursor

variable {n : Nat} {s : List Token} {ts : List Tree} {g g' : Grammar}

theorem condition_moved (hg : g.Tallies n g') (hs : s.length ≤ n + 1) :
    Agree (Moved s ts) (condition g) (condition g') fun t => Moved s (t :: ts) := by
  refine (Agree.refl expectPunct_moved).bind fun _ => (hg.assignment.next hs).bind fun test => ?_
  exact (Agree.refl expectPunct_moved).bind fun _ => Agree.pure fun _ hc => hc

theorem initializer_moved (hg : g.Tallies n g') (hs : s.length ≤ n + 1) :
    Agree (Moved s ts) (initializer g) (initializer g') fun o => Moved s (o.toList ++ ts) := by
  refine (Agree.refl eatPunct_moved).bind fun b => ?_
  cases b with
  | true => exact (hg.assignment.next hs).bind fun t => Agree.pure fun _ hc => hc
  | false => exact Agree.pure fun _ hc => hc

theorem declarator_tallies (hg : g.Tallies n g') :
    Tallies (n + 1) (declarator g) (declarator g') := by
  refine fun s hs => (identifier_tallies s hs).bind fun id => ?_
  refine (initializer_moved hg hs).bind fun init => Agree.refl (node_moved ?_ rfl)
  cases init <;> rfl

theorem enumMember_tallies (hg : g.Tallies n g') :
    Tallies (n + 1) (enumMember g) (enumMember g') := by
  refine fun s hs => (identifier_tallies s hs).bind fun id => ?_
  refine (initializer_moved hg hs).bind fun init => Agree.refl (node_moved ?_ rfl)
  cases init <;> rfl

theorem variableList_moved (hg : g.Tallies n g') (hs : s.length ≤ n + 1) {kind : VariableKind}
    {isStatement : Bool} {t : Token} (hk : t.kind.isPlain = true) :
    Agree (fun c => c.next = t ∧ c.Tallied s []) (variableList g kind isStatement)
      (variableList g' kind isStatement) fun x => Moved s [x] := by
  refine (Agree.refl (advance_plain hk)).bind fun t => ?_
  have hrest (declarations : List Tree) : Agree (Moved s (declarations.reverse ++ []))
      (do if isStatement then
            let _ ← eatPunct .semicolon
          node t.span.start (.variableDeclaration kind declarations))
      (do if isStatement then
            let _ ← eatPunct .semicolon
          node t.span.start (.variableDeclaration kind declarations)) fun x => Moved s [x] := by
    have hnode : Ensures (Moved s (declarations.reverse ++ []))
        (node t.span.start (.variableDeclaration kind declarations)) fun x => Moved s [x] :=
      node_moved (by simp [Shape.children, Shape.kind, Kind.fields, Shape.field]) rfl
    cases isStatement with
    | true => exact Agree.refl (Ensures.bind eatPunct_moved fun _ => hnode)
    | false => exact Agree.refl hnode
  cases kind with
  | localVariable =>
    refine (separated_moved (fun ts => Ensures.pure fun _ hc => hc) ?_ hs).bind hrest
    exact (declarator_tallies hg).pred
  | constant =>
    refine Agree.bind (Q := fun l => Moved s (l.reverse ++ [])) (Agree.map ?_) hrest
    exact (declarator_tallies hg).pred.next hs

theorem functionDeclaration_tallies (hg : g.Tallies n g') (start : Nat) :
    Tallies (n + 1) (functionDeclaration g start) (functionDeclaration g' start) := by
  refine fun s hs => (Agree.refl expectKeyword_tallied).bind fun _ => ?_
  refine (Agree.refl qualifiedName_moved).bind fun x => (parameters_moved hg hs).bind fun params => ?_
  refine ((block_tallies hg).pred.next hs).bind fun body => Agree.refl (node_moved ?_ rfl)
  obtain ⟨qualifier, id⟩ := x
  cases qualifier <;> simp [Shape.children, Shape.kind, Kind.fields, Shape.field]

theorem classDeclaration_tallies (hg : g.Tallies n g') :
    Tallies (n + 1) (classDeclaration g) (classDeclaration g') := by
  refine fun s hs => (Agree.refl expectKeyword_tallied).bind fun t => ?_
  refine (Agree.refl qualifiedName_moved).bind fun x => ?_
  refine (superclass_moved hg hs).bind fun superclass => ?_
  refine ((classBody_tallies hg).pred.next hs).bind fun body => Agree.refl (node_moved ?_ rfl)
  obtain ⟨qualifier, id⟩ := x
  cases qualifier <;> cases superclass <;> rfl

theorem enumDeclaration_tallies (hg : g.Tallies n g') :
    Tallies (n + 1) (enumDeclaration g) (enumDeclaration g') := by
  refine fun s hs => (Agree.refl expectKeyword_tallied).bind fun t => ?_
  refine identifier_moved.bind fun id => (Agree.refl expectPunct_moved).bind fun _ => ?_
  refine (braced_moved (enumMember_tallies hg).pred hs).bind fun members =>
    Agree.refl (node_moved ?_ rfl)
  simp [Shape.children, Shape.kind, Kind.fields, Shape.field]

theorem localDeclaration_moved (hg : g.Tallies n g') (hs : s.length ≤ n + 1) {t : Token}
    (hk : t.kind.isPlain = true) :
    Agree (fun c => c.next = t ∧ c.Tallied s []) (localDeclaration g) (localDeclaration g')
      fun x => Moved s [x] := by
  refine Agree.peek.bind fun t' => (Agree.refl Ensures.peekSecond).bind fun second => ?_
  split
  · refine ((Agree.refl (advance_plain hk)).of_imp fun c hc => hc.2).bind fun _ => ?_
    exact (functionDeclaration_tallies hg _).pred.next hs
  · exact (variableList_moved hg hs hk).of_imp fun c hc => hc.2

theorem returnStatement_tallies (hg : g.Tallies n g') :
    Tallies (n + 1) (returnStatement g) (returnStatement g') := by
  refine fun s hs => (Agree.refl expectKeyword_tallied).bind fun t => ?_
  have hnode (argument : Option Tree) : Agree (Moved s (argument.toList ++ []))
      (do let _ ← eatPunct .semicolon
          node t.span.start (.returnStatement argument))
      (do let _ ← eatPunct .semicolon
          node t.span.start (.returnStatement argument)) fun x => Moved s [x] :=
    Agree.refl (Ensures.bind eatPunct_moved fun _ => node_moved (by cases argument <;> rfl) rfl)
  refine (Agree.refl Ensures.atTerminator).bind fun b => ?_
  cases b with
  | true => exact Agree.bind (Agree.pure fun _ hc => hc) hnode
  | false => exact ((assignment_tallies hg).pred.some_moved hs).bind hnode

theorem ifStatement_tallies (hg : g.Tallies n g') :
    Tallies (n + 1) (ifStatement g) (ifStatement g') := by
  refine fun s hs => (Agree.refl expectKeyword_tallied).bind fun t => ?_
  refine (condition_moved hg hs).bind fun test => (hg.statement.next hs).bind fun consequent => ?_
  have hnode (alternate : Option Tree) : Agree (Moved s (alternate.toList ++ [consequent, test]))
      (node t.span.start (.ifStatement test consequent alternate))
      (node t.span.start (.ifStatement test consequent alternate)) fun x => Moved s [x] :=
    Agree.refl (node_moved (by cases alternate <;> rfl) rfl)
  refine (Agree.refl eatKeyword_moved).bind fun b => ?_
  cases b with
  | true => exact (hg.statement.some_moved hs).bind hnode
  | false => exact Agree.bind (Agree.pure fun _ hc => hc) hnode

theorem whileStatement_tallies (hg : g.Tallies n g') :
    Tallies (n + 1) (whileStatement g) (whileStatement g') := by
  refine fun s hs => (Agree.refl expectKeyword_tallied).bind fun t => ?_
  refine (condition_moved hg hs).bind fun test => (hg.statement.next hs).bind fun body => ?_
  exact Agree.refl (node_moved rfl rfl)

theorem doWhileStatement_tallies (hg : g.Tallies n g') :
    Tallies (n + 1) (doWhileStatement g) (doWhileStatement g') := by
  refine fun s hs => (Agree.refl expectKeyword_tallied).bind fun t => ?_
  refine (hg.statement.next hs).bind fun body => (Agree.refl expectKeyword_moved).bind fun _ => ?_
  refine (condition_moved hg hs).bind fun test => Agree.refl ?_
  exact Ensures.bind eatPunct_moved fun _ => node_moved rfl rfl

theorem expressionBefore_moved (hg : g.Tallies n g') (hs : s.length ≤ n + 1) {p : Punct} :
    Agree (Moved s ts) (expressionBefore g p) (expressionBefore g' p) fun o =>
      Moved s (o.toList ++ ts) := by
  refine Agree.at?.bind fun b => ?_
  cases b with
  | true => exact Agree.pure fun _ hc => hc.2
  | false =>
    refine ((hg.assignment.next hs).of_imp fun _ hc => hc.2).bind fun t => ?_
    exact Agree.pure fun _ hc => hc

theorem forStatement_tallies (hg : g.Tallies n g') :
    Tallies (n + 1) (forStatement g) (forStatement g') := by
  refine fun s hs => (Agree.refl expectKeyword_tallied).bind fun t => ?_
  have hrest (init : Option Tree) : Agree (Moved s (init.toList ++ []))
      (do let _ ← expectPunct .semicolon
          let test ← expressionBefore g .semicolon
          let _ ← expectPunct .semicolon
          let update ← expressionBefore g .parenClose
          let _ ← expectPunct .parenClose
          let body ← g.statement
          node t.span.start (.forStatement init test update body))
      (do let _ ← expectPunct .semicolon
          let test ← expressionBefore g' .semicolon
          let _ ← expectPunct .semicolon
          let update ← expressionBefore g' .parenClose
          let _ ← expectPunct .parenClose
          let body ← g'.statement
          node t.span.start (.forStatement init test update body)) fun x => Moved s [x] := by
    refine (Agree.refl expectPunct_moved).bind fun _ => ?_
    refine (expressionBefore_moved hg hs).bind fun test => ?_
    refine (Agree.refl expectPunct_moved).bind fun _ => ?_
    refine (expressionBefore_moved hg hs).bind fun update => ?_
    refine (Agree.refl expectPunct_moved).bind fun _ => (hg.statement.next hs).bind fun body => ?_
    refine Agree.refl (node_moved ?_ rfl)
    cases init <;> cases test <;> cases update <;> rfl
  refine (Agree.refl expectPunct_moved).bind fun _ => Agree.at?.bind fun b => ?_
  cases b with
  | false => exact ((expressionBefore_moved hg hs).of_imp fun _ hc => hc.2).bind hrest
  | true =>
    refine Agree.bind (Q := fun init => Moved s (init.toList ++ [])) (Agree.map ?_) hrest
    refine Agree.of_imp (Agree.of_kind (k := .keyword .localKw) fun t hk => ?_)
      fun c hc => ⟨hc.1.mp rfl, hc.2.toTallied⟩
    exact variableList_moved hg hs (hk ▸ rfl)

theorem foreachStatement_tallies (hg : g.Tallies n g') :
    Tallies (n + 1) (foreachStatement g) (foreachStatement g') := by
  refine fun s hs => (Agree.refl expectKeyword_tallied).bind fun t => ?_
  refine (Agree.refl expectPunct_moved).bind fun _ => identifier_moved.bind fun first => ?_
  have hrest (x : Option Tree × Tree) : Agree (Moved s (x.2 :: x.1.toList))
      (do let _ ← expectKeyword .inKw
          let object ← g.assignment
          let _ ← expectPunct .parenClose
          let body ← g.statement
          node t.span.start (.foreachStatement x.1 x.2 object body))
      (do let _ ← expectKeyword .inKw
          let object ← g'.assignment
          let _ ← expectPunct .parenClose
          let body ← g'.statement
          node t.span.start (.foreachStatement x.1 x.2 object body)) fun x => Moved s [x] := by
    refine (Agree.refl expectKeyword_moved).bind fun _ => (hg.assignment.next hs).bind fun object => ?_
    refine (Agree.refl expectPunct_moved).bind fun _ => (hg.statement.next hs).bind fun body => ?_
    refine Agree.refl (node_moved ?_ rfl)
    obtain ⟨index, value⟩ := x
    cases index <;> rfl
  refine (Agree.refl eatPunct_moved).bind fun b => ?_
  cases b with
  | false => exact Agree.bind (Agree.pure fun _ hc => hc) hrest
  | true =>
    exact Agree.bind (Q := fun x => Moved s (x.2 :: x.1.toList)) (Agree.map identifier_moved) hrest

theorem tryStatement_tallies (hg : g.Tallies n g') :
    Tallies (n + 1) (tryStatement g) (tryStatement g') := by
  refine fun s hs => (Agree.refl expectKeyword_tallied).bind fun t => ?_
  refine (hg.statement.next hs).bind fun block => (Agree.refl eatKeyword_moved).bind fun b => ?_
  cases b with
  | false => exact Agree.refl (node_moved rfl rfl)
  | true =>
    refine (Agree.refl expectPunct_moved).bind fun _ => identifier_moved.bind fun param => ?_
    refine (Agree.refl expectPunct_moved).bind fun _ => (hg.statement.next hs).bind fun handler => ?_
    exact Agree.refl (node_moved rfl rfl)

theorem throwStatement_tallies (hg : g.Tallies n g') :
    Tallies (n + 1) (throwStatement g) (throwStatement g') := by
  refine fun s hs => (Agree.refl expectKeyword_tallied).bind fun t => ?_
  refine (hg.assignment.next hs).bind fun argument => Agree.refl ?_
  exact Ensures.bind eatPunct_moved fun _ => node_moved rfl rfl

theorem jumpStatement_moved {t : Token} {shape : Shape Tree} (hk : t.kind.isPlain = true)
    (hshape : shape.children .full = []) (hcontent : shape.content? = none) :
    Ensures (fun c => c.next = t ∧ c.Tallied s []) (jumpStatement shape) fun x => Moved s [x] :=
  Ensures.bind (advance_plain hk) fun _ => Ensures.bind eatPunct_moved fun _ =>
    node_moved hshape hcontent

theorem expressionStatement_tallies (hg : g.Tallies n g') :
    Tallies (n + 1) (expressionStatement g) (expressionStatement g') := by
  refine Tallies.peek fun t s hs => ((assignment_tallies hg).of_moved hs).bind fun expression => ?_
  exact Agree.refl (Ensures.bind eatPunct_moved fun _ => node_moved rfl rfl)

theorem statement_tallies (hg : g.Tallies n g') : Tallies (n + 1) (statement g) (statement g') := by
  refine Tallies.peek fun t s hs => ?_
  split
  · exact (block_tallies hg).of_moved hs
  · next hk => exact localDeclaration_moved hg hs (hk ▸ rfl)
  · next hk => exact variableList_moved hg hs (hk ▸ rfl)
  · exact (functionDeclaration_tallies hg _).of_moved hs
  · exact (classDeclaration_tallies hg).of_moved hs
  · exact (enumDeclaration_tallies hg).of_moved hs
  · exact (returnStatement_tallies hg).of_moved hs
  · exact (ifStatement_tallies hg).of_moved hs
  · exact (whileStatement_tallies hg).of_moved hs
  · exact (doWhileStatement_tallies hg).of_moved hs
  · exact (forStatement_tallies hg).of_moved hs
  · exact (foreachStatement_tallies hg).of_moved hs
  · exact (tryStatement_tallies hg).of_moved hs
  · exact (throwStatement_tallies hg).of_moved hs
  · next hk => exact Agree.refl (jumpStatement_moved (hk ▸ rfl) rfl rfl)
  · next hk => exact Agree.refl (jumpStatement_moved (hk ▸ rfl) rfl rfl)
  · exact (expressionStatement_tallies hg).of_moved hs

end Parser

theorem Parser.Tallies.of_left (m : Nat → Parser Tree)
    (hm : ∀ {k depth depth'}, k ≤ depth → k ≤ depth' → Tallies k (m depth) (m depth'))
    {n depth : Nat} (h : n ≤ depth) :
    Tallies n (m depth) (do m ((← get).later.length + 1)) := by
  refine fun s hs => ⟨fun c hc => ?_, (hm h h s hs).ensures⟩
  have hle : (c.next :: c.later).length ≤ depth := Nat.le_trans hc.length_le (Nat.le_trans hs h)
  exact (hm hle (Nat.le_refl _) _ (Nat.le_refl _)).same c hc.begins

namespace Grammar

theorem tallies_of_tallies {n : Nat} {g g' : Grammar} (h : g.Tallies n g') : Tallies (n + 1)
    ⟨Parser.statement g, Parser.assignment g, Parser.binary g, Parser.unary g⟩
    ⟨Parser.statement g', Parser.assignment g', Parser.binary g', Parser.unary g'⟩ :=
  ⟨Parser.statement_tallies h, Parser.assignment_tallies h, Parser.binary_tallies h,
    Parser.unary_tallies h⟩

theorem tallies_ofDepth {n depth depth' : Nat} (h : n ≤ depth) (h' : n ≤ depth') :
    (ofDepth depth).Tallies n (ofDepth depth') := by
  induction n generalizing depth depth' with
  | zero => exact ⟨.zero, .zero, fun _ => .zero, .zero⟩
  | succ n ih =>
    obtain ⟨depth, rfl⟩ := Nat.exists_eq_add_of_le' (Nat.le_trans (Nat.le_add_left 1 n) h)
    obtain ⟨depth', rfl⟩ := Nat.exists_eq_add_of_le' (Nat.le_trans (Nat.le_add_left 1 n) h')
    exact tallies_of_tallies (ih (Nat.le_of_succ_le_succ h) (Nat.le_of_succ_le_succ h'))

theorem tallies_self (n depth : Nat) : (ofDepth depth).Tallies n (ofDepth depth) := by
  induction depth generalizing n with
  | zero => exact ⟨fun _ _ => .fail, fun _ _ => .fail, fun _ _ _ => .fail, fun _ _ => .fail⟩
  | succ depth ih =>
    cases n with
    | zero => exact ⟨.zero, .zero, fun _ => .zero, .zero⟩
    | succ n => exact tallies_of_tallies (ih n)

def whole : Grammar where
  statement := do (ofDepth ((← get).later.length + 1)).statement
  assignment := do (ofDepth ((← get).later.length + 1)).assignment
  binary least := do (ofDepth ((← get).later.length + 1)).binary least
  unary := do (ofDepth ((← get).later.length + 1)).unary

theorem tallies_whole {n depth : Nat} (h : n ≤ depth) : (ofDepth depth).Tallies n whole where
  statement := Parser.Tallies.of_left (fun k => (ofDepth k).statement)
    (fun h h' => (tallies_ofDepth h h').statement) h
  assignment := Parser.Tallies.of_left (fun k => (ofDepth k).assignment)
    (fun h h' => (tallies_ofDepth h h').assignment) h
  binary least := Parser.Tallies.of_left (fun k => (ofDepth k).binary least)
    (fun h h' => (tallies_ofDepth h h').binary least) h
  unary := Parser.Tallies.of_left (fun k => (ofDepth k).unary)
    (fun h h' => (tallies_ofDepth h h').unary) h

theorem whole_tallies (n : Nat) : whole.Tallies n ⟨Parser.statement whole, Parser.assignment whole,
    Parser.binary whole, Parser.unary whole⟩ := by
  cases n with
  | zero => exact ⟨.zero, .zero, fun _ => .zero, .zero⟩
  | succ n =>
    have hdeep := tallies_whole (Nat.le_refl (n + 1))
    have hstep := tallies_of_tallies (tallies_whole (Nat.le_refl n))
    exact ⟨hdeep.statement.symm.trans hstep.statement,
      hdeep.assignment.symm.trans hstep.assignment,
      fun least => (hdeep.binary least).symm.trans (hstep.binary least),
      hdeep.unary.symm.trans hstep.unary⟩

end Grammar

namespace Token.Chain

variable {offset : Nat} {k : Token} {ks : List Token}

theorem ended (h : Chain offset (k :: ks)) : Ended (k :: ks) := by
  induction ks generalizing k offset with
  | nil => exact ⟨k, rfl, h.2.1.mpr rfl⟩
  | cons k' ks ih =>
    obtain ⟨e, he, hkind⟩ := ih h.2.2
    exact ⟨e, by rwa [List.getLast?_cons_cons], hkind⟩

end Token.Chain

namespace Parser

open Cursor

end Parser

end SquirrelAnalyzer
