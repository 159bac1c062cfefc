import SquirrelAnalyzer.Proofs.Parser.Expression
import SquirrelAnalyzer.Proofs.Tree

namespace SquirrelAnalyzer

namespace Parser

open Cursor

variable {tokens : List Token} {lo : Nat} {ts : List Tree} {g : Grammar}

theorem Ensures.and {α : Type} {P : Cursor → Prop} {Q R : α → Cursor → Prop} {m : Parser α}
    (h : Ensures P m Q) (h' : Ensures (fun _ => True) m R) :
    Ensures P m fun a c => Q a c ∧ R a c :=
  fun c a c' hc hr => ⟨h c a c' hc hr, h' c a c' trivial hr⟩

theorem condition_at (hg : g.Sound tokens) :
    Ensures (At tokens lo ts) (condition g) fun t c =>
      t.Fits .expression ∧ c.At tokens lo (t :: ts) := by
  refine Ensures.bind expectPunct_at fun _ => ?_
  refine Ensures.bind_fact hg.assignment.ensures_at fun test htest => ?_
  exact Ensures.bind expectPunct_at fun _ => Ensures.pure fun _ hc => ⟨htest, hc⟩

theorem initializer_at (hg : g.Sound tokens) :
    Ensures (At tokens lo ts) (initializer g) fun o c =>
      (∀ e ∈ o, e.Fits .expression) ∧ c.At tokens lo (o.toList ++ ts) := by
  refine Ensures.bind eatPunct_at fun b => ?_
  cases b with
  | true =>
    refine Ensures.bind_fact hg.assignment.ensures_at fun t ht => ?_
    exact Ensures.pure fun _ hc => ⟨fun x hx => Option.mem_some.mp hx ▸ ht, hc⟩
  | false => exact Ensures.pure fun _ hc => ⟨nofun, hc⟩

theorem declarator_produces (hg : g.Sound tokens) :
    Produces tokens .declarator (declarator g) := by
  refine fun lo => Ensures.bind_fact (identifier_produces lo) fun id hid => ?_
  refine Ensures.shift (f := fun x => x) ?_
  refine Ensures.bind_fact (initializer_at hg) fun init hinit => ?_
  exact node_at (by cases init <;> rfl) fun _ => .declarator hid hinit

theorem enumMember_produces (hg : g.Sound tokens) :
    Produces tokens .enumMember (enumMember g) := by
  refine fun lo => Ensures.bind_fact (identifier_produces lo) fun id hid => ?_
  refine Ensures.shift (f := fun x => x) ?_
  refine Ensures.bind_fact (initializer_at hg) fun init hinit => ?_
  exact node_at (by cases init <;> rfl) fun _ => .enumMember hid hinit

def variableRole : VariableKind → Tree.Role
  | .localVariable => .variables
  | .constant => .statement

theorem separated_ne_nil {item : Parser Tree} {c c' : Cursor} {l : List Tree}
    (h : (separated (pure false) item).run c = .ok (l, c')) : l ≠ [] := by
  have hne : Ensures (fun _ => True) (separatedUpTo (pure false) item (c.later.length + 1))
      fun l _ => l ≠ [] := by
    refine Ensures.bind (Q := fun b _ => b = false) (Ensures.pure fun _ _ => rfl) ?_
    intro b
    cases b with
    | true => exact fun _ _ _ h => nomatch h
    | false =>
      refine Ensures.bind (Q := fun _ _ => True) (fun _ _ _ _ _ => trivial) fun t => ?_
      refine Ensures.bind (Q := fun _ _ => True) (fun _ _ _ _ _ => trivial) fun b => ?_
      cases b with
      | false => exact Ensures.pure fun _ _ => List.cons_ne_nil _ _
      | true =>
        refine Ensures.bind (Q := fun _ _ => True) (fun _ _ _ _ _ => trivial) fun l => ?_
        exact Ensures.pure fun _ _ => List.cons_ne_nil _ _
  exact hne c l c' trivial h

theorem variableList_next (hg : g.Sound tokens) {kind : VariableKind} {isStatement : Bool}
    {t : Token} (hk : t.kind ≠ .endOfFile) :
    Ensures (fun c => c.next = t ∧ c.Begins tokens t.span.start) (variableList g kind isStatement)
      fun x c => x.Fits (variableRole kind) ∧ c.At tokens t.span.start [x] := by
  refine advance_bind hk ?_
  have hrest (declarations : List Tree)
      (h : ∀ s, (Tree.node s (.variableDeclaration kind declarations)).Fits (variableRole kind)) :
      Ensures (At tokens t.span.start (declarations.reverse ++ [])) (do
        if isStatement then
          let _ ← eatPunct .semicolon
        node t.span.start (.variableDeclaration kind declarations)) fun x c =>
          x.Fits (variableRole kind) ∧ c.At tokens t.span.start [x] := by
    have hnode : Ensures (At tokens t.span.start (declarations.reverse ++ []))
        (node t.span.start (.variableDeclaration kind declarations)) fun x c =>
          x.Fits (variableRole kind) ∧ c.At tokens t.span.start [x] :=
      node_at (by simp [Shape.children, Shape.kind, Kind.fields, Shape.field]) h
    cases isStatement with
    | true => exact Ensures.bind eatPunct_at fun _ => hnode
    | false => exact hnode
  cases kind with
  | localVariable =>
    have hlist : Ensures (At tokens t.span.start []) (separated (pure false) (declarator g))
        fun l c => (l ≠ [] ∧ ∀ d ∈ l, d.Fits .declarator) ∧
          c.At tokens t.span.start (l.reverse ++ []) := by
      intro c l c' hc hr
      have hstop (ts : List Tree) : Ensures (At tokens t.span.start ts) (pure false : Parser Bool)
          fun _ => At tokens t.span.start ts := Ensures.pure fun _ hc => hc
      obtain ⟨hl, hat⟩ := separated_at hstop (declarator_produces hg) c l c' hc hr
      exact ⟨⟨separated_ne_nil hr, hl⟩, hat⟩
    exact Ensures.bind_fact hlist fun l hl => hrest l fun _ => .localVariables hl.1 hl.2
  | constant =>
    refine Ensures.bind_fact (F := fun l => ∃ d, l = [d] ∧ d.Fits .declarator)
      (Q := fun l c => c.At tokens t.span.start (l.reverse ++ [])) (Ensures.map ?_) ?_
    · refine (declarator_produces hg).ensures_at.mono (fun _ hc => hc) fun d c hd => ?_
      exact ⟨⟨d, rfl, hd.1⟩, hd.2⟩
    · rintro _ ⟨d, rfl, hd⟩
      exact hrest [d] fun _ => .constant hd

theorem functionDeclaration_from (hg : g.Sound tokens) :
    Ensures (From tokens lo []) (functionDeclaration g lo) fun x c =>
      x.Fits .statement ∧ c.At tokens lo [x] := by
  refine Ensures.bind expectKeyword_from fun _ => ?_
  refine Ensures.bind_fact qualifiedName_at ?_
  rintro ⟨qualifier, id⟩ ⟨hqualifier, hid⟩
  refine Ensures.bind_fact (parameters_at hg) fun params hps => ?_
  refine Ensures.bind_fact (block_produces hg).ensures_at fun body hbody => node_at ?_ fun _ => ?_
  · cases qualifier <;> simp [Shape.children, Shape.kind, Kind.fields, Shape.field]
  · exact .functionDeclaration hqualifier hid hps hbody

theorem classDeclaration_produces (hg : g.Sound tokens) :
    Produces tokens .statement (classDeclaration g) := by
  refine Produces.expectKeyword fun t => ?_
  refine Ensures.bind_fact qualifiedName_at ?_
  rintro ⟨qualifier, id⟩ ⟨hqualifier, hid⟩
  refine Ensures.bind_fact (superclass_at hg) fun superclass hsuper => ?_
  refine Ensures.bind_fact (classBody_produces hg).ensures_at fun body hbody =>
    node_at ?_ fun _ => ?_
  · cases qualifier <;> cases superclass <;> rfl
  · exact .classDeclaration hqualifier hid hsuper hbody

theorem enumDeclaration_produces (hg : g.Sound tokens) :
    Produces tokens .statement (enumDeclaration g) := by
  refine Produces.expectKeyword fun t => ?_
  refine Ensures.bind_fact identifier_produces.ensures_at fun id hid => ?_
  refine Ensures.bind expectPunct_at fun _ => ?_
  refine Ensures.bind_fact (braced_at (enumMember_produces hg)) fun members hmembers =>
    node_at ?_ fun _ => .enumDeclaration hid hmembers
  simp [Shape.children, Shape.kind, Kind.fields, Shape.field]

theorem localDeclaration_next (hg : g.Sound tokens) {t : Token} (hk : t.kind ≠ .endOfFile) :
    Ensures (fun c => c.next = t ∧ c.Begins tokens t.span.start) (localDeclaration g)
      fun x c => x.Fits .statement ∧ c.At tokens t.span.start [x] := by
  refine Ensures.bind Ensures.peek fun t' => ?_
  refine Ensures.bind Ensures.peekSecond fun second => ?_
  split
  · refine Ensures.bind_fact (F := fun _ => t' = t) (Q := fun _ => At tokens t.span.start []) ?_ ?_
    · rintro c _ _ ⟨rfl, rfl, hc⟩ ⟨⟩
      exact ⟨rfl, hc.from.advance hk⟩
    · rintro _ rfl
      exact (functionDeclaration_from hg).of_imp fun c hc => hc.toFrom
  · refine (variableList_next hg hk).mono (fun c hc => hc.2) fun x c hx => ?_
    exact ⟨.ofVariables hx.1, hx.2⟩

theorem returnStatement_produces (hg : g.Sound tokens) :
    Produces tokens .statement (returnStatement g) := by
  refine Produces.expectKeyword fun t => ?_
  have hnode (argument : Option Tree) (h : ∀ e ∈ argument, e.Fits .expression) :
      Ensures (At tokens t.span.start (argument.toList ++ []))
        (do let _ ← eatPunct .semicolon
            node t.span.start (.returnStatement argument)) fun x c =>
          x.Fits .statement ∧ c.At tokens t.span.start [x] :=
    Ensures.bind eatPunct_at fun _ =>
      node_at (by cases argument <;> rfl) fun _ => .returnStatement h
  refine Ensures.bind Ensures.atTerminator fun b => ?_
  cases b with
  | true => exact Ensures.bind_fact (Ensures.pure fun _ hc => ⟨nofun, hc⟩) hnode
  | false => exact Ensures.bind_fact (assignment_produces hg).some_at hnode

theorem statement_at (hg : g.Sound tokens) :
    Ensures (At tokens lo ts) g.statement fun t c =>
      t.Fits .statement ∧ c.At tokens lo (t :: ts) ∧ t.Settled c :=
  (hg.statement.ensures_at.and hg.settled).mono (fun _ hc => hc)
    fun _ _ h => ⟨h.1.1, h.1.2, h.2⟩

theorem eatKeyword_settled {t : Tree} {k : Keyword} (hk : k ∈ [Keyword.elseKw, .catchKw]) :
    Ensures (fun c => c.At tokens lo ts ∧ t.Settled c) (eatKeyword k) fun b c =>
      (b = true → t.takes k = false) ∧ c.At tokens lo ts := by
  intro c b c' hc hr
  refine ⟨fun hb => ?_, eatKeyword_at c b c' hc.1 hr⟩
  have heat : Ensures (fun c => t.Settled c) (eatKeyword k) fun b _ =>
      b = true → t.takes k = false := by
    refine eat_cases ?_ fun _ _ _ => nofun
    rintro c _ _ ⟨hnext, hsettled⟩ - -
    cases htakes : t.takes k with
    | false => rfl
    | true => exact absurd hnext (hsettled k hk htakes)
  exact heat c b c' hc.2 hr hb

theorem ifStatement_produces (hg : g.Sound tokens) :
    Produces tokens .statement (ifStatement g) := by
  refine Produces.expectKeyword fun t => ?_
  refine Ensures.bind_fact (condition_at hg) fun test htest => ?_
  refine Ensures.bind_fact (statement_at hg) fun consequent hconsequent => ?_
  have hnode (alternate : Option Tree) (hfits : ∀ s, (Tree.node s
      (.ifStatement test consequent alternate)).Fits .statement) :
      Ensures (At tokens t.span.start (alternate.toList ++ [consequent, test]))
        (node t.span.start (.ifStatement test consequent alternate)) fun x c =>
          x.Fits .statement ∧ c.At tokens t.span.start [x] :=
    node_at (by cases alternate <;> rfl) hfits
  refine Ensures.bind_fact (eatKeyword_settled (by simp)) fun b hclosed => ?_
  cases b with
  | true =>
    refine Ensures.bind_fact hg.statement.some_at fun alternate halternate => ?_
    exact hnode alternate fun _ => .ifStatement htest hconsequent halternate fun _ => hclosed rfl
  | false =>
    refine Ensures.bind_fact (F := fun a => a = none)
      (Q := fun a c => c.At tokens t.span.start (a.toList ++ [consequent, test]))
      (Ensures.pure fun _ hc => ⟨rfl, hc⟩) ?_
    rintro _ rfl
    exact hnode none fun _ => .ifStatement htest hconsequent nofun nofun

theorem whileStatement_produces (hg : g.Sound tokens) :
    Produces tokens .statement (whileStatement g) := by
  refine Produces.expectKeyword fun t => ?_
  refine Ensures.bind_fact (condition_at hg) fun test htest => ?_
  refine Ensures.bind_fact hg.statement.ensures_at fun body hbody => ?_
  exact node_at rfl fun _ => .whileStatement htest hbody

theorem doWhileStatement_produces (hg : g.Sound tokens) :
    Produces tokens .statement (doWhileStatement g) := by
  refine Produces.expectKeyword fun t => ?_
  refine Ensures.bind_fact hg.statement.ensures_at fun body hbody => ?_
  refine Ensures.bind expectKeyword_at fun _ => ?_
  refine Ensures.bind_fact (condition_at hg) fun test htest => ?_
  exact Ensures.bind eatPunct_at fun _ => node_at rfl fun _ => .doWhileStatement hbody htest

theorem expressionBefore_at (hg : g.Sound tokens) {p : Punct} :
    Ensures (At tokens lo ts) (expressionBefore g p) fun o c =>
      (∀ e ∈ o, e.Fits .expression) ∧ c.At tokens lo (o.toList ++ ts) := by
  refine Ensures.bind Ensures.at? fun b => ?_
  cases b with
  | true => exact Ensures.pure fun _ hc => ⟨nofun, hc.2⟩
  | false =>
    refine Ensures.bind_fact (hg.assignment.ensures_at.of_imp fun _ hc => hc.2) fun t ht => ?_
    exact Ensures.pure fun _ hc => ⟨fun x hx => Option.mem_some.mp hx ▸ ht, hc⟩

theorem forStatement_produces (hg : g.Sound tokens) :
    Produces tokens .statement (forStatement g) := by
  refine Produces.expectKeyword fun t => Ensures.bind expectPunct_at fun _ => ?_
  have hrest (init : Option Tree) (hinit : ∀ x ∈ init, x.Fits .initial) :
      Ensures (At tokens t.span.start (init.toList ++ [])) (do
        let _ ← expectPunct .semicolon
        let test ← expressionBefore g .semicolon
        let _ ← expectPunct .semicolon
        let update ← expressionBefore g .parenClose
        let _ ← expectPunct .parenClose
        let body ← g.statement
        node t.span.start (.forStatement init test update body)) fun x c =>
          x.Fits .statement ∧ c.At tokens t.span.start [x] := by
    refine Ensures.bind expectPunct_at fun _ => ?_
    refine Ensures.bind_fact (expressionBefore_at hg) fun test htest => ?_
    refine Ensures.bind expectPunct_at fun _ => ?_
    refine Ensures.bind_fact (expressionBefore_at hg) fun update hupdate => ?_
    refine Ensures.bind expectPunct_at fun _ => ?_
    refine Ensures.bind_fact hg.statement.ensures_at fun body hbody => node_at ?_ fun _ => ?_
    · cases init <;> cases test <;> cases update <;> rfl
    · exact .forStatement hinit htest hupdate hbody
  refine Ensures.bind Ensures.at? fun b => ?_
  cases b with
  | false =>
    refine Ensures.bind_fact ((expressionBefore_at hg).of_imp fun _ hc => hc.2) fun init hinit => ?_
    exact hrest init fun x hx => .ofExpression (hinit x hx)
  | true =>
    refine Ensures.bind_fact (Ensures.map ?_) hrest
    rintro c x c' ⟨hk, hc⟩ hr
    have hn : c.next.kind ≠ .endOfFile := by
      rw [hk.mp rfl]
      nofun
    obtain ⟨hfits, hat⟩ := variableList_next hg hn c x c' ⟨rfl, hc.begins⟩ hr
    exact ⟨fun y hy => Option.mem_some.mp hy ▸ .initialVariables hfits, hc.add hat⟩

theorem foreachStatement_produces (hg : g.Sound tokens) :
    Produces tokens .statement (foreachStatement g) := by
  refine Produces.expectKeyword fun t => Ensures.bind expectPunct_at fun _ => ?_
  refine Ensures.bind_fact identifier_produces.ensures_at fun first hfirst => ?_
  have hrest (x : Option Tree × Tree) (hx : (∀ i ∈ x.1, i.Fits .name) ∧ x.2.Fits .name) :
      Ensures (At tokens t.span.start (x.2 :: x.1.toList)) (do
        let _ ← expectKeyword .inKw
        let object ← g.assignment
        let _ ← expectPunct .parenClose
        let body ← g.statement
        node t.span.start (.foreachStatement x.1 x.2 object body)) fun x c =>
          x.Fits .statement ∧ c.At tokens t.span.start [x] := by
    refine Ensures.bind expectKeyword_at fun _ => ?_
    refine Ensures.bind_fact hg.assignment.ensures_at fun object hobject => ?_
    refine Ensures.bind expectPunct_at fun _ => ?_
    refine Ensures.bind_fact hg.statement.ensures_at fun body hbody => node_at ?_ fun _ => ?_
    · obtain ⟨index, value⟩ := x
      cases index <;> rfl
    · exact .foreachStatement hx.1 hx.2 hobject hbody
  refine Ensures.bind eatPunct_at fun b => ?_
  cases b with
  | false => exact Ensures.bind_fact (Ensures.pure fun _ hc => ⟨⟨nofun, hfirst⟩, hc⟩) hrest
  | true =>
    refine Ensures.bind_fact (Ensures.map ?_) hrest
    refine identifier_produces.ensures_at.mono (fun _ hc => hc) fun x c hx => ?_
    exact ⟨⟨fun y hy => Option.mem_some.mp hy ▸ hfirst, hx.1⟩, hx.2⟩

theorem tryStatement_produces (hg : g.Sound tokens) :
    Produces tokens .statement (tryStatement g) := by
  refine Produces.expectKeyword fun t => ?_
  refine Ensures.bind_fact (statement_at hg) fun block hblock => ?_
  refine Ensures.bind_fact (eatKeyword_settled (by simp)) fun b hclosed => ?_
  cases b with
  | false => exact node_at rfl fun _ => .tryStatement hblock
  | true =>
    refine Ensures.bind expectPunct_at fun _ => ?_
    refine Ensures.bind_fact identifier_produces.ensures_at fun param hparam => ?_
    refine Ensures.bind expectPunct_at fun _ => ?_
    refine Ensures.bind_fact hg.statement.ensures_at fun handler hhandler => ?_
    exact node_at rfl fun _ => .catchStatement hblock (hclosed rfl) hparam hhandler

theorem throwStatement_produces (hg : g.Sound tokens) :
    Produces tokens .statement (throwStatement g) := by
  refine Produces.expectKeyword fun t => ?_
  refine Ensures.bind_fact hg.assignment.ensures_at fun argument h => ?_
  exact Ensures.bind eatPunct_at fun _ => node_at rfl fun _ => .throwStatement h

theorem jumpStatement_next {shape : Shape Tree} {t : Token} (hk : t.kind ≠ .endOfFile)
    (hs : shape.children .full = []) (hfits : ∀ s, (Tree.node s shape).Fits .statement) :
    Ensures (fun c => c.next = t ∧ c.Begins tokens t.span.start) (jumpStatement shape) fun x c =>
      x.Fits .statement ∧ c.At tokens t.span.start [x] :=
  advance_bind hk (Ensures.bind eatPunct_at fun _ => node_at hs hfits)

theorem expressionStatement_produces (hg : g.Sound tokens) :
    Produces tokens .statement (expressionStatement g) := by
  refine Produces.peek fun t _ => ?_
  refine Ensures.bind_fact (assignment_produces hg).of_next fun expression h => ?_
  exact Ensures.bind eatPunct_at fun _ => node_at rfl fun _ => .expressionStatement h

theorem statement_produces (hg : g.Sound tokens) : Produces tokens .statement (statement g) := by
  refine Produces.peek fun t _ => ?_
  have hne {k : Keyword} (hk : t.kind = .keyword k) : t.kind ≠ .endOfFile := by
    rw [hk]
    nofun
  split
  · exact ((block_produces hg).mono fun _ h => .ofBlock h).of_next
  · next hk => exact localDeclaration_next hg (hne hk)
  · next hk => exact variableList_next hg (hne hk)
  · exact (functionDeclaration_from hg).of_imp fun c hc => hc.2.from
  · exact (classDeclaration_produces hg).of_next
  · exact (enumDeclaration_produces hg).of_next
  · exact (returnStatement_produces hg).of_next
  · exact (ifStatement_produces hg).of_next
  · exact (whileStatement_produces hg).of_next
  · exact (doWhileStatement_produces hg).of_next
  · exact (forStatement_produces hg).of_next
  · exact (foreachStatement_produces hg).of_next
  · exact (tryStatement_produces hg).of_next
  · exact (throwStatement_produces hg).of_next
  · next hk => exact jumpStatement_next (hne hk) rfl fun _ => .breakStatement
  · next hk => exact jumpStatement_next (hne hk) rfl fun _ => .continueStatement
  · exact (expressionStatement_produces hg).of_next

section

variable {α β : Type} {start : Nat} {shape : Shape Tree}

theorem Ensures.behind {m : Parser α} {k : α → Parser β} {Q : β → Cursor → Prop}
    (h : ∀ a, Ensures (fun _ => True) (k a) Q) : Ensures (fun _ => True) (m >>= k) Q :=
  Ensures.bind (Q := fun _ _ => True) (fun _ _ _ _ _ => trivial) h

theorem settled_closed (h : ∀ (f : Tree → Bool) k, (shape.map f).takes k = false) :
    Ensures (fun _ => True) (node start shape) Tree.Settled := by
  rintro c _ _ - ⟨⟩ k - htakes
  rw [Tree.takes_node, h] at htakes
  cases htakes

theorem settled_open (last : Tree) (h : ∀ (f : Tree → Bool) k, (shape.map f).takes k = f last) :
    Ensures (fun c => last.Settled c) (node start shape) Tree.Settled := by
  rintro c _ _ hlast ⟨⟩ k hk htakes
  rw [Tree.takes_node, h] at htakes
  exact hlast k hk htakes

theorem settled_last (hg : g.Sound tokens) (shape : Tree → Shape Tree)
    (h : ∀ last (f : Tree → Bool) k, ((shape last).map f).takes k = f last) :
    Ensures (fun _ => True) (do node start (shape (← g.statement))) Tree.Settled :=
  Ensures.bind hg.settled fun last => settled_open last (h last)

theorem settled_unless {last : Tree} {k' : Keyword}
    (h : ∀ (f : Tree → Bool) k, (shape.map f).takes k = (decide (k = k') || f last)) :
    Ensures (fun c => last.Settled c ∧ c.next.kind ≠ .keyword k') (node start shape)
      Tree.Settled := by
  rintro c _ _ ⟨hlast, hnext⟩ ⟨⟩ k hk htakes
  rw [Tree.takes_node, h] at htakes
  rcases (Bool.or_eq_true _ _).mp htakes with he | htakes
  · rwa [of_decide_eq_true he]
  · exact hlast k hk htakes

theorem settled_eatKeyword {last : Tree} {k : Keyword} :
    Ensures last.Settled (eatKeyword k) fun b c =>
      b = false → last.Settled c ∧ c.next.kind ≠ .keyword k :=
  eat_cases (fun _ _ _ _ _ => nofun) fun _ hk hc _ => ⟨hc, hk⟩

theorem settled_ifStatement (hg : g.Sound tokens) :
    Ensures (fun _ => True) (ifStatement g) Tree.Settled := by
  refine Ensures.behind fun _ => Ensures.behind fun test => ?_
  refine Ensures.bind hg.settled fun consequent => Ensures.bind settled_eatKeyword fun b => ?_
  cases b with
  | true =>
    refine Ensures.of_imp (Ensures.bind (Ensures.map (R := fun o c => ∃ t, o = some t ∧
      t.Settled c) (hg.settled.mono (fun _ hc => hc) fun t c ht => ⟨t, rfl, ht⟩)) ?_)
      fun _ _ => trivial
    rintro (_ | alternate)
    · exact fun c _ _ ⟨_, h, _⟩ => nomatch h
    · refine (settled_open alternate fun _ _ => rfl).of_imp ?_
      rintro c ⟨_, ⟨⟩, hc⟩
      exact hc
  | false =>
    refine Ensures.bind_fact (F := fun o => o = none) (Q := fun _ c => consequent.Settled c ∧
      c.next.kind ≠ .keyword .elseKw) (Ensures.pure fun c hc => ⟨rfl, hc rfl⟩) ?_
    rintro _ rfl
    exact settled_unless fun _ _ => rfl

theorem settled_tryStatement (hg : g.Sound tokens) :
    Ensures (fun _ => True) (tryStatement g) Tree.Settled := by
  refine Ensures.behind fun _ => Ensures.bind hg.settled fun block => ?_
  refine Ensures.bind settled_eatKeyword fun b => ?_
  cases b with
  | true =>
    refine Ensures.of_imp (Ensures.behind fun _ => Ensures.behind fun param => ?_)
      fun _ _ => trivial
    exact Ensures.behind fun _ => settled_last hg (fun handler =>
      .tryStatement block (some param) (some handler)) fun _ _ _ => rfl
  | false => exact (settled_unless fun _ _ => rfl).of_imp fun _ hc => hc rfl

theorem settled_foreachStatement (hg : g.Sound tokens) :
    Ensures (fun _ => True) (foreachStatement g) Tree.Settled := by
  refine Ensures.behind fun _ => Ensures.behind fun _ => Ensures.behind fun first => ?_
  have hrest {lo : Nat} (index : Option Tree) (value : Tree) : Ensures (fun _ => True) (do
      let _ ← expectKeyword .inKw
      let object ← g.assignment
      let _ ← expectPunct .parenClose
      let body ← g.statement
      node lo (.foreachStatement index value object body)) Tree.Settled := by
    refine Ensures.behind fun _ => Ensures.behind fun object => Ensures.behind fun _ => ?_
    exact settled_last hg (.foreachStatement index value object) fun _ _ _ => rfl
  refine Ensures.behind fun b => ?_
  cases b with
  | true => exact Ensures.behind fun x => hrest x.1 x.2
  | false => exact Ensures.behind fun x => hrest x.1 x.2

theorem settled_forStatement (hg : g.Sound tokens) :
    Ensures (fun _ => True) (forStatement g) Tree.Settled := by
  refine Ensures.behind fun _ => Ensures.behind fun _ => Ensures.behind fun b => ?_
  have hrest {lo : Nat} (init : Option Tree) : Ensures (fun _ => True) (do
      let _ ← expectPunct .semicolon
      let test ← expressionBefore g .semicolon
      let _ ← expectPunct .semicolon
      let update ← expressionBefore g .parenClose
      let _ ← expectPunct .parenClose
      let body ← g.statement
      node lo (.forStatement init test update body)) Tree.Settled := by
    refine Ensures.behind fun _ => Ensures.behind fun test => Ensures.behind fun _ => ?_
    refine Ensures.behind fun update => Ensures.behind fun _ => ?_
    exact settled_last hg (.forStatement init test update) fun _ _ _ => rfl
  cases b with
  | true => exact Ensures.behind hrest
  | false => exact Ensures.behind hrest

theorem settled_variableList {kind : VariableKind} :
    Ensures (fun _ => True) (variableList g kind true) Tree.Settled := by
  have hrest {lo : Nat} (declarations : List Tree) : Ensures (fun _ => True) (do
      let _ ← eatPunct .semicolon
      node lo (.variableDeclaration kind declarations)) Tree.Settled :=
    Ensures.behind fun _ => settled_closed fun _ _ => rfl
  refine Ensures.behind fun _ => ?_
  cases kind with
  | localVariable => exact Ensures.behind hrest
  | constant => exact Ensures.behind hrest

theorem settled_functionDeclaration :
    Ensures (fun _ => True) (functionDeclaration g start) Tree.Settled := by
  refine Ensures.behind fun _ => Ensures.behind fun name => Ensures.behind fun params => ?_
  exact Ensures.behind fun body => settled_closed fun _ _ => rfl

theorem settled_localDeclaration :
    Ensures (fun _ => True) (localDeclaration g) Tree.Settled := by
  refine Ensures.behind fun t => Ensures.behind fun second => ?_
  split
  · exact Ensures.behind fun _ => settled_functionDeclaration
  · exact settled_variableList

theorem settled_returnStatement :
    Ensures (fun _ => True) (returnStatement g) Tree.Settled := by
  have hrest {lo : Nat} (argument : Option Tree) : Ensures (fun _ => True) (do
      let _ ← eatPunct .semicolon
      node lo (.returnStatement argument)) Tree.Settled :=
    Ensures.behind fun _ => settled_closed fun _ _ => rfl
  refine Ensures.behind fun _ => Ensures.behind fun b => ?_
  cases b with
  | true => exact Ensures.behind hrest
  | false => exact Ensures.behind hrest

theorem settled_statement (hg : g.Sound tokens) :
    Ensures (fun _ => True) (Parser.statement g) Tree.Settled := by
  refine Ensures.behind fun t => ?_
  split
  · exact Ensures.behind fun _ => Ensures.behind fun _ => settled_closed fun _ _ => rfl
  · exact settled_localDeclaration
  · exact settled_variableList
  · exact settled_functionDeclaration
  · refine Ensures.behind fun _ => Ensures.behind fun name => Ensures.behind fun _ => ?_
    exact Ensures.behind fun _ => settled_closed fun _ _ => rfl
  · refine Ensures.behind fun _ => Ensures.behind fun name => Ensures.behind fun _ => ?_
    exact Ensures.behind fun _ => settled_closed fun _ _ => rfl
  · exact settled_returnStatement
  · exact settled_ifStatement hg
  · refine Ensures.behind fun _ => Ensures.behind fun test => ?_
    exact settled_last hg (.whileStatement test) fun _ _ _ => rfl
  · refine Ensures.behind fun _ => Ensures.behind fun _ => Ensures.behind fun _ => ?_
    exact Ensures.behind fun _ => Ensures.behind fun _ => settled_closed fun _ _ => rfl
  · exact settled_forStatement hg
  · exact settled_foreachStatement hg
  · exact settled_tryStatement hg
  · exact Ensures.behind fun _ => Ensures.behind fun _ => Ensures.behind fun _ =>
      settled_closed fun _ _ => rfl
  · exact Ensures.behind fun _ => Ensures.behind fun _ => settled_closed fun _ _ => rfl
  · exact Ensures.behind fun _ => Ensures.behind fun _ => settled_closed fun _ _ => rfl
  · exact Ensures.behind fun _ => Ensures.behind fun _ => Ensures.behind fun _ =>
      settled_closed fun _ _ => rfl

end

end Parser

theorem Grammar.sound_ofDepth (tokens : List Token) (n : Nat) :
    (Grammar.ofDepth n).Sound tokens := by
  induction n with
  | zero => exact ⟨.fail, .fail, .fail, fun _ => .fail, .fail⟩
  | succ n ih =>
    exact ⟨Parser.statement_produces ih, Parser.settled_statement ih,
      Parser.assignment_produces ih, Parser.binary_produces ih, Parser.unary_produces ih⟩

namespace Parser

open Cursor

variable {tokens : List Token} {g : Grammar}

theorem statements_holds (hg : g.Sound tokens) :
    Ensures (Holds tokens 0 []) (statements g) fun l c =>
      (∀ t ∈ l, t.Fits .statement) ∧ c.Holds tokens 0 (l.reverse ++ []) := by
  refine many_ensures (I := Holds tokens 0) fun ts => Ensures.bind skip_holds fun _ => ?_
  refine Ensures.bind Ensures.at? fun b => ?_
  cases b with
  | true => exact Ensures.pure fun _ hc => ⟨nofun, hc.2⟩
  | false =>
    refine Ensures.bind_fact (F := Tree.Fits .statement) (Q := fun t => Holds tokens 0 (t :: ts))
      ?_ fun t ht => Ensures.pure fun _ hc => ⟨fun x hx => Option.mem_some.mp hx ▸ ht, hc⟩
    intro c t c' hc hr
    obtain ⟨hfits, hat⟩ := hg.statement _ c t c' hc.2.begins hr
    exact ⟨hfits, hc.2.add (Nat.zero_le _) hat⟩

theorem sourceFile_placed {size : Nat} {t : Tree} (hchain : Token.Chain 0 tokens)
    (hsize : ∀ k ∈ tokens, k.span.stop ≤ size) (h : sourceFile tokens size = .ok t) :
    t.Placed tokens ∧ ∃ body, t = .node ⟨0, size⟩ (.sourceFile body) ∧
      ∀ s ∈ body, s.Fits .statement := by
  unfold sourceFile at h
  split at h
  · cases h
    exact ⟨.node nofun nofun .nil nofun, [], rfl, nofun⟩
  · next next later =>
    split at h
    · next body c hrun =>
      cases h
      have hstart : (⟨next, later, 0⟩ : Cursor).Holds (next :: later) 0 [] :=
        ⟨⟨hchain, List.suffix_refl _⟩, nofun, .nil⟩
      have hg := Grammar.sound_ofDepth (next :: later) (later.length + 2)
      obtain ⟨hfits, hholds⟩ := statements_holds hg _ body c hstart hrun
      rw [List.append_nil] at hholds
      have hin (x : Tree) (hx : x ∈ body) : x.In (next :: later) 0 c.lastEnd :=
        hholds.trees x (List.mem_reverse.mpr hx)
      have hchildren : (Shape.sourceFile body).children .full = body := by
        simp [Shape.children, Shape.kind, Kind.fields, Shape.field]
      refine ⟨.node ?_ ?_ ?_ ?_, body, rfl, hfits⟩
      all_goals rw [hchildren]
      · intro x hx
        obtain ⟨k, hk, -, hstop⟩ := (hin x hx).covers.stops
        exact ⟨Nat.zero_le _, hstop ▸ hsize k hk⟩
      · exact fun x hx => (hin x hx).covers
      · exact List.pairwise_reverse.mp hholds.apart
      · exact fun x hx => (hin x hx).placed
    · cases h

end Parser

end SquirrelAnalyzer
