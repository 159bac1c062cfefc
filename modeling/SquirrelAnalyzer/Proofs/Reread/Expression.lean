import SquirrelAnalyzer.Proofs.Reread.Cursor
import SquirrelAnalyzer.Proofs.Tree

namespace SquirrelAnalyzer

namespace Token.Kind

def BehindOperand (k : Kind) : Prop :=
  k ∉ [.punct .dot, .punct .parenOpen, .punct .bracketOpen, .punct .increment, .punct .decrement]

def BehindExpression (k : Kind) : Prop :=
  k ∈ [.punct .comma, .punct .semicolon, .punct .colon, .punct .parenClose, .punct .bracketClose]

def StartsOperand (k : Kind) : Prop := k ≠ .keyword .yieldKw ∧ UnaryOperator.leading? k = none

def StartsStatement (k : Kind) : Prop :=
  k ∉ [.punct .semicolon, .punct .braceClose, .endOfFile, .keyword .elseKw, .keyword .catchKw]

def BehindStatement (k : Kind) : Prop := k ∉ [.keyword .elseKw, .keyword .catchKw]

theorem BehindStatement.endsBefore {k : Kind} (h : k.BehindStatement) (t : Tree) :
    t.EndsBefore k := by
  rintro k' hk' - rfl
  refine h ?_
  simpa using hk'

namespace StartsStatement

variable {k : Kind}

theorem behindStatement (h : k.StartsStatement) : k.BehindStatement := fun hk => h (by simp_all)

theorem no_separator (h : k.StartsStatement) : ∀ p ∈ [Punct.semicolon], k ≠ .punct p := by
  rintro p hp rfl
  exact h (by simp_all)

theorem no_end (h : k.StartsStatement) : k ≠ .punct .braceClose ∧ k ≠ .endOfFile :=
  ⟨fun he => h (by simp [he]), fun he => h (by simp [he])⟩

end StartsStatement

namespace BehindExpression

variable {k : Kind}

theorem behindOperand (h : k.BehindExpression) : k.BehindOperand := by
  have hall : ∀ k ∈ [punct .comma, .punct .semicolon, .punct .colon, .punct .parenClose,
    .punct .bracketClose], k ∉ [punct .dot, .punct .parenOpen, .punct .bracketOpen, .punct .increment,
      .punct .decrement] := by decide
  exact hall k h

theorem no_operator (h : k.BehindExpression) : BinaryOperator.ofToken? k = none ∧
    k ≠ .punct .question ∧ AssignmentOperator.ofToken? k = none := by
  have hall : ∀ k ∈ [punct .comma, .punct .semicolon, .punct .colon, .punct .parenClose,
    .punct .bracketClose], BinaryOperator.ofToken? k = none ∧ k ≠ .punct .question ∧
      AssignmentOperator.ofToken? k = none := by decide
  exact hall k h

theorem ne_assign (h : k.BehindExpression) : k ≠ .punct .assign := by
  rintro rfl
  cases h.no_operator.2.2

end BehindExpression

end Token.Kind

structure Grammar.Rereads (g : Grammar) (n : Nat) : Prop where
  statement : ∀ t : Tree, t.Fits .statement → (t.write .statement).length < n →
    Parser.Reads g.statement (t.write .statement) t.EndsBefore t.Alike
  inner : ∀ t : Tree, t.Fits .expression → t.inner.length < n →
    Parser.Reads g.assignment t.inner (· = .punct .parenClose) t.Alike
  assignment : ∀ t : Tree, t.Fits .expression → (t.write .expression).length < n →
    Parser.Reads g.assignment (t.write .expression) Token.Kind.BehindExpression t.Alike
  binary : ∀ (t : Tree) (least : Nat), t.Fits .expression → (t.write .expression).length < n →
    Parser.Reads (g.binary least) (t.write .expression) Token.Kind.BehindExpression t.Alike
  unary : ∀ t : Tree, t.Fits .expression → (t.write .expression).length < n →
    Parser.Reads g.unary (t.write .expression) Token.Kind.BehindOperand t.Alike

namespace Parser

open Token.Kind

variable {g : Grammar} {n : Nat} {t : Tree} {k : Token.Kind} {ks : List Token.Kind}
  {P : Token.Kind → Prop} {F : Tree → Prop}

theorem heads_expression (hP : P (.punct .parenOpen)) (ks : List Token.Kind) (k : Token.Kind) :
    Heads P (t.write .expression ++ ks) k := by
  rw [Tree.write_expression]
  exact hP

section

variable {start : Nat} {e : Tree}

theorem postfixStep_stop (hP : ∀ k, P k → k.BehindOperand) :
    Reads (postfixStep g start e) [] P (· = none) := by
  refine Reads.peek_nil fun t ht => ?_
  have hbehind := hP _ ht
  split
  · next hk => exact absurd (hk ▸ hbehind) (by simp [BehindOperand])
  · next hk => exact absurd (hk ▸ hbehind) (by simp [BehindOperand])
  · next hk => exact absurd (hk ▸ hbehind) (by simp [BehindOperand])
  · have hnone : UnaryOperator.trailing? t.kind = none := by
      unfold UnaryOperator.trailing?
      split
      · next hk => exact absurd (hk ▸ hbehind) (by simp [BehindOperand])
      · next hk => exact absurd (hk ▸ hbehind) (by simp [BehindOperand])
      · rfl
    rw [hnone]
    exact Reads.pure rfl

theorem postfixed_of_primary (h : Reads (primary g) ks P F) (hP : ∀ k, P k → k.BehindOperand) :
    Reads (postfixed g) ks P F :=
  h.bind_last fun _ he => (ReadsLoop.stop (postfixStep_stop hP) he).iterate

theorem unary_of_postfixed (h : Reads (postfixed g) ks P F)
    (hstart : ∀ k, P k → Heads StartsOperand ks k) : Reads (unary g) ks P F := by
  refine Reads.peek_heads hstart fun t ht => ?_
  rw [if_neg ht.1, ht.2]
  exact h

theorem binaryStep_stop {least : Nat} (hP : ∀ k, P k → BinaryOperator.ofToken? k = none) :
    Reads (binaryStep g least e) [] P (· = none) := by
  refine Reads.peek_nil fun t ht => ?_
  rw [hP _ ht]
  exact Reads.pure rfl

theorem binary_of_unary {least : Nat} (h : Reads (unary g) ks P F)
    (hP : ∀ k, P k → BinaryOperator.ofToken? k = none) : Reads (binary g least) ks P F :=
  h.bind_last fun _ hleft => (ReadsLoop.stop (binaryStep_stop hP) hleft).iterate

theorem conditional_of_binary (h : Reads (binary g 1) ks P F)
    (hP : ∀ k, P k → k ≠ .punct .question) :
    Reads (conditional g) ks P F := by
  refine h.bind_last fun test htest => Reads.eat_ne hP ?_
  exact Reads.pure htest

theorem assignment_of_conditional (h : Reads (conditional g) ks P F)
    (hP : ∀ k, P k → AssignmentOperator.ofToken? k = none) : Reads (assignment g) ks P F := by
  refine h.bind_last fun left hleft => Reads.peek_nil fun t ht => ?_
  rw [hP _ ht]
  exact Reads.pure hleft

theorem assignment_of_binary (h : Reads (binary g 1) ks P F) (hP : ∀ k, P k → k.BehindExpression) :
    Reads (assignment g) ks P F :=
  assignment_of_conditional (conditional_of_binary h fun k hk => (hP k hk).no_operator.2.1)
    fun k hk => (hP k hk).no_operator.2.2

theorem assignment_of_unary (h : Reads (unary g) ks P F) (hP : ∀ k, P k → k.BehindExpression) :
    Reads (assignment g) ks P F :=
  assignment_of_binary (binary_of_unary h fun k hk => (hP k hk).no_operator.1) hP

end

variable (hg : g.Rereads n)

include hg

theorem primary_reads (h : t.Fits .expression) (hlen : (t.write .expression).length ≤ n) :
    Reads (primary g) (t.write .expression) P t.Alike := by
  rw [Tree.write_expression] at hlen ⊢
  -- the parentheses are two tokens of their own
  have hinner : t.inner.length < n := by
    simp only [Shape.enclosed, List.length_cons, List.length_append, List.length_nil] at hlen
    omega
  refine Reads.peek_cons fun t' ht' => ?_
  simp only [ht']
  refine Reads.expectPunct fun _ => Reads.bind (hg.inner t h hinner) ?_ fun _ _ => rfl
  exact fun u hu => Reads.expectPunct fun _ => Reads.pure hu

theorem unary_reads (h : t.Fits .expression) (hlen : (t.write .expression).length ≤ n)
    (hP : ∀ k, P k → k.BehindOperand) : Reads (unary g) (t.write .expression) P t.Alike := by
  refine unary_of_postfixed (postfixed_of_primary (primary_reads hg h hlen) hP) fun k _ => ?_
  rw [Tree.write_expression]
  exact ⟨nofun, rfl⟩

theorem binary_reads (least : Nat) (h : t.Fits .expression)
    (hlen : (t.write .expression).length ≤ n)
    (hP : ∀ k, P k → k.BehindOperand ∧ BinaryOperator.ofToken? k = none) :
    Reads (binary g least) (t.write .expression) P t.Alike :=
  binary_of_unary (unary_reads hg h hlen fun k hk => (hP k hk).1) fun k hk => (hP k hk).2

theorem conditional_reads (h : t.Fits .expression) (hlen : (t.write .expression).length ≤ n)
    (hP : ∀ k, P k → k.BehindOperand ∧ BinaryOperator.ofToken? k = none ∧ k ≠ .punct .question) :
    Reads (conditional g) (t.write .expression) P t.Alike :=
  conditional_of_binary (binary_reads hg 1 h hlen fun k hk => ⟨(hP k hk).1, (hP k hk).2.1⟩)
    fun k hk => (hP k hk).2.2

theorem assignment_reads (h : t.Fits .expression) (hlen : (t.write .expression).length ≤ n) :
    Reads (assignment g) (t.write .expression) BehindExpression t.Alike :=
  assignment_of_unary (unary_reads hg h hlen fun _ hk => hk.behindOperand) fun _ hk => hk

omit hg in
theorem write_name (h : t.Fits .name) :
    ∃ name, ∀ r ∈ [Tree.Role.name, .property, .parameter, .owner], t.write r = [.identifier name] := by
  cases h with
  | @name s name h =>
    refine ⟨name, fun r hr => ?_⟩
    have hwrite : (Tree.node s (.identifier name)).write r = [Token.nameKind name] := by
      rw [Tree.write_node]
      simp only [List.mem_cons, List.not_mem_nil, or_false] at hr
      rcases hr with rfl | rfl | rfl | rfl <;> rfl
    rw [hwrite, h.nameKind_eq]

omit hg in
theorem name_reads (h : t.Fits .name) : Reads identifier (t.write .name) P t.Alike := by
  cases h with
  | name h =>
    rw [Tree.write_node]
    show Reads _ [Token.nameKind _] P _
    rw [h.nameKind_eq]
    refine Reads.identifier.mono (fun _ hk => hk) ?_
    rintro _ ⟨s, rfl⟩
    exact Tree.alike_node rfl

omit hg in
theorem heads_name (h : t.Fits .name) (hP : ∀ name, P (.identifier name)) (ks : List Token.Kind)
    (k : Token.Kind) : Heads P (t.write .name ++ ks) k := by
  obtain ⟨name, hname⟩ := write_name h
  rw [hname .name (by simp)]
  exact hP name

omit hg in
theorem property_reads (h : t.Fits .property) :
    Reads propertyName (t.write .property) P t.Alike := by
  cases h with
  | propertyName h =>
    have hname := name_reads (P := P) h
    obtain ⟨name, hwrite⟩ := write_name h
    rw [hwrite .name (by simp)] at hname
    rw [hwrite .property (by simp)]
    refine Reads.peek_cons fun t' ht' => ?_
    simp only [ht']
    exact hname
  | keyword =>
    rw [Tree.write_node]
    show Reads _ [Token.nameKind _] P _
    rw [Token.nameKind_text]
    refine Reads.propertyName.mono (fun _ hk => hk) ?_
    rintro _ ⟨s, rfl⟩
    exact Tree.alike_node rfl

omit hg in
theorem write_property (h : t.Fits .property) :
    (∃ name, t.write .property = [.identifier name]) ∨ ∃ k, t.write .property = [.keyword k] := by
  cases h with
  | propertyName h =>
    obtain ⟨name, hwrite⟩ := write_name h
    exact .inl ⟨name, hwrite .property (by simp)⟩
  | keyword =>
    rw [Tree.write_node]
    exact .inr ⟨_, congrArg (List.cons · []) (Token.nameKind_text _)⟩

theorem parameter_reads (h : t.Fits .parameter) (hlen : (t.write .parameter).length ≤ n) :
    Reads (parameter g) (t.write .parameter) BehindExpression t.Alike := by
  cases h with
  | ofName h =>
    obtain ⟨name, hwrite⟩ := write_name h
    have hname := name_reads (P := BehindExpression) h
    rw [hwrite .name (by simp)] at hname
    rw [hwrite .parameter (by simp)]
    refine Reads.at_false (fun _ _ => nofun) (hname.bind_last fun left hleft => ?_)
    exact Reads.eat_ne (fun _ hk => hk.ne_assign) (Reads.pure hleft)
  | @default s left right hleft hright =>
    simp only [Tree.write_node, Shape.map, Shape.write, Shape.writePart, List.length_append,
      List.length_cons] at hlen ⊢
    refine Reads.at_false (fun k _ => heads_name hleft (fun _ => nofun) _ k) ?_
    refine Reads.bind_any (name_reads hleft) fun left' hleft' => Reads.eat_eq ?_
    refine (hg.assignment right hright (by omega)).bind_last fun right' hright' => ?_
    refine Reads.node fun _ => Tree.alike_node ?_
    simp only [Shape.map]
    rw [hleft', hright']
  | rest =>
    rw [Tree.write_node]
    refine Reads.at_true (k := .punct .ellipsis) (fun _ _ => rfl) (Reads.advance fun _ _ => ?_)
    exact Reads.node fun _ => Tree.alike_node rfl

omit hg in
theorem heads_parameter (h : t.Fits .parameter) (k : Token.Kind) :
    Heads (· ≠ .punct .parenClose) (t.write .parameter) k := by
  cases h with
  | ofName h =>
    obtain ⟨name, hwrite⟩ := write_name h
    rw [hwrite .parameter (by simp)]
    exact nofun
  | default hleft =>
    rw [Tree.write_node]
    exact heads_name hleft (fun _ => nofun) _ k
  | rest =>
    rw [Tree.write_node]
    exact nofun

theorem parameters_reads {ps : List Tree} (hps : ∀ t ∈ ps, t.Fits .parameter)
    (hlen : (Shape.parameters (ps.map Tree.write)).length ≤ n) :
    Reads (parameters g) (Shape.parameters (ps.map Tree.write)) P (AllAlike ps) := by
  have hlength (t : Tree) (ht : t ∈ ps) : (t.write .parameter).length ≤ n := by
    have hmem := length_le_commas_of_mem (write_mem ht .parameter)
    exact Nat.le_trans hmem (Nat.le_trans (Nat.le_of_lt (length_lt_enclosed _)) hlen)
  unfold Shape.parameters
  rw [List.map_map]
  refine Reads.expectPunct fun _ => Reads.listUntil (Q := BehindExpression) ?_ ?_ ?_ nofun ?_
  · exact fun t ht => parameter_reads hg (hps t ht) (hlength t ht)
  · simp [BehindExpression]
  · simp [BehindExpression]
  · intro t ht
    have hheads := heads_parameter (hps t ht)
    exact ⟨Heads.ne_nil hheads (fun h => h rfl), hheads⟩

omit hg in
theorem heads_statement (h : t.Fits .statement) (k : Token.Kind) :
    Heads StartsStatement (t.write .statement) k := by
  cases h with
  | ofBlock h =>
    cases h with
    | block => rw [Tree.write_node]; exact nofun
  | ofVariables h =>
    cases h with
    | _ => rw [Tree.write_node]; exact nofun
  | expressionStatement h =>
    rw [Tree.write_node]
    exact heads_expression nofun _ k
  | _ => rw [Tree.write_node]; exact nofun

theorem block_reads (h : t.Fits .block) (hlen : (t.write .block).length ≤ n) :
    Reads (block g) (t.write .block) P t.Alike := by
  cases h with
  | @block s body h =>
    rw [Tree.write_node] at hlen ⊢
    have hlength (t : Tree) (ht : t ∈ body) : (t.write .statement).length < n :=
      Nat.lt_of_lt_of_le (length_lt_braced _ (write_mem ht .statement)) hlen
    simp only [Shape.map, Shape.write, Shape.writePart, Shape.braced, List.flatMap_map]
    have hheads (t : Tree) (ht : t ∈ body) (k : Token.Kind) := heads_statement (h t ht) k
    refine Reads.expectPunct fun _ => ?_
    refine Reads.bind_last (Reads.many (Q := BehindStatement) (w := fun t => t.write .statement)
      ?_ ?_ ?_ ?_ ?_) fun body' hbody' => ?_
    · intro t ht lead hlead
      obtain rfl : lead = [] := or_self_iff.mp hlead
      refine Reads.skip_none (fun k _ => (hheads t ht k).imp fun _ hk => hk.no_separator) ?_
      refine Reads.eat_ne (fun k _ => (hheads t ht k).imp fun _ hk => hk.no_end.1) ?_
      refine Reads.at_false (fun k _ => (hheads t ht k).imp fun _ hk => hk.no_end.2) ?_
      refine Reads.bind_last ((hg.statement t (h t ht) (hlength t ht)).mono
        (fun _ hk => hk.endsBefore t) fun _ hu => hu) fun u hu => ?_
      exact Reads.pure ⟨u, rfl, hu⟩
    · intro lead hlead
      obtain rfl : lead = [] := or_self_iff.mp hlead
      refine Reads.skip_none (fun _ _ p hp he => ?_) (Reads.eat_eq (Reads.pure rfl))
      cases he
      simp at hp
    · exact fun t ht k => (hheads t ht k).imp fun _ hk => hk.behindStatement
    · exact fun _ _ => by simp [BehindStatement, Heads]
    · exact fun t ht => Heads.ne_nil (hheads t ht) (k := .endOfFile) (by simp [StartsStatement])
    · refine Reads.node fun _ => Tree.alike_node ?_
      simp only [Shape.map]
      rw [hbody']

theorem functionValue_reads (h : t.Fits .method) (hlen : (t.write .method).length ≤ n) :
    Reads (functionValue g) (t.write .method) P t.Alike := by
  cases h with
  | @method s params body hparams hbody =>
    simp only [Tree.write_node, Shape.map, Shape.write, Shape.writePart, List.length_append]
      at hlen ⊢
    refine Reads.peek fun _ => ?_
    refine Reads.bind_any (parameters_reads hg hparams (by omega)) fun params' hparams' => ?_
    refine Reads.bind_last (block_reads hg hbody (by omega)) fun body' hbody' => ?_
    refine Reads.node fun _ => Tree.alike_node ?_
    simp only [Shape.map]
    rw [hparams', hbody']

omit hg in
theorem slotKey_named (h : t.Fits .property) :
    Reads (slotKey g) (t.write .property) P fun x => t.Alike x.1 ∧ x.2 = false := by
  have hproperty := property_reads (P := P) h
  rcases write_property h with ⟨name, hwrite⟩ | ⟨k, hwrite⟩
  all_goals
    rw [hwrite] at hproperty ⊢
    refine Reads.eat_ne (fun _ _ => nofun) (Reads.peek_cons fun t' ht' => ?_)
    simp only [ht']
    exact hproperty.bind_last fun u hu => Reads.pure ⟨hu, rfl⟩

theorem slotKey_computed (h : t.Fits .expression) (hlen : (t.write .expression).length < n) :
    Reads (slotKey g) (.punct .bracketOpen :: (t.write .expression ++ [.punct .bracketClose])) P
      fun x => t.Alike x.1 ∧ x.2 = true := by
  refine Reads.eat_eq (Reads.bind (hg.assignment t h hlen) (fun u hu => ?_) fun _ _ => ?_)
  · exact Reads.expectPunct fun _ => Reads.pure ⟨hu, rfl⟩
  · simp [Heads, BehindExpression]

theorem method_reads {start : Nat} {s : Span} {kind : MethodKind} {isStatic : Bool}
    {key key' value : Tree} (hkey : key.Alike key') (h : value.Fits .method)
    (hlen : (value.write .method).length ≤ n) :
    Reads (do
      let value ← functionValue g
      node start (.methodDefinition kind isStatic key' value)) (value.write .method) P
      (Tree.Alike (.node s (.methodDefinition kind isStatic key value))) := by
  refine Reads.bind_last (functionValue_reads hg h hlen) fun value' hvalue' => ?_
  refine Reads.node fun _ => Tree.alike_node ?_
  simp only [Shape.map]
  rw [hkey, hvalue']

theorem propertyValue_reads {start : Nat} {s : Span} {isStatic computed : Bool}
    {key key' value : Tree} (hkey : key.Alike key') (h : value.Fits .expression)
    (hlen : (value.write .expression).length < n) :
    Reads (do
      let value ← g.assignment
      node start (.propertyDefinition isStatic computed key' (some value)))
      (value.write .expression) BehindExpression
      (Tree.Alike (.node s (.propertyDefinition isStatic computed key (some value)))) := by
  refine Reads.bind_last (hg.assignment value h hlen) fun value' hvalue' => ?_
  refine Reads.node fun _ => Tree.alike_node ?_
  simp only [Shape.map, Option.map_some]
  rw [hkey, hvalue']

theorem tableSlot_reads (h : t.Fits .slot) (hlen : (t.write .slot).length ≤ n) :
    Reads (tableSlot g) (t.write .slot) BehindExpression t.Alike := by
  cases h with
  | @slotMethod s key value hkey hvalue =>
    simp only [Tree.write_node, Shape.map, Shape.write, Shape.writePart, List.length_append,
      List.length_cons] at hlen ⊢
    refine Reads.peek fun _ => Reads.eat_eq ?_
    refine Reads.bind_any (name_reads hkey) fun key' hkey' => ?_
    exact method_reads hg hkey' hvalue (by omega)
  | @slotProperty s s' name value hkey hfunction hvalue =>
    rw [Tree.write_node] at hlen ⊢
    change ((Tree.node s' (.identifier name)).write .property ++
      .punct .assign :: value.write .expression).length ≤ n at hlen
    show Reads _ ((Tree.node s' (.identifier name)).write .property ++
      .punct .assign :: value.write .expression) _ _
    rw [List.length_append, List.length_cons] at hlen
    refine Reads.peek fun _ => Reads.eat_ne ?_ ?_
    · intro k _
      rw [Tree.write_node]
      exact Token.nameKind_ne hfunction
    · refine Reads.bind_any (slotKey_named hkey) ?_
      rintro ⟨key, _⟩ ⟨hkey', rfl⟩
      exact Reads.eat_eq (propertyValue_reads hg hkey' hvalue (by omega))
  | @slotComputed s key value hkey hvalue =>
    simp only [Tree.write_node, Shape.map, Shape.write, Shape.writePart, Shape.initializer,
      Option.map_some, Option.elim_some, if_true, Bool.false_eq_true, if_false, List.nil_append,
      List.length_append, List.length_cons] at hlen ⊢
    refine Reads.peek fun _ => Reads.eat_ne (fun _ _ => by rintro ⟨⟩) ?_
    refine Reads.bind_any (slotKey_computed hg hkey (by omega)) ?_
    rintro ⟨key', _⟩ ⟨hkey', rfl⟩
    exact Reads.eat_eq (propertyValue_reads hg hkey' hvalue (by omega))

omit hg in
theorem heads_property (h : t.Fits .property) (ks : List Token.Kind) (k : Token.Kind) :
    Heads StartsItem (t.write .property ++ ks) k := by
  rcases write_property h with ⟨name, hwrite⟩ | ⟨k, hwrite⟩
  · rw [hwrite]
    exact nofun
  · rw [hwrite]
    exact nofun

omit hg in
theorem heads_slot (h : t.Fits .slot) (k : Token.Kind) : Heads StartsItem (t.write .slot) k := by
  cases h with
  | slotMethod => rw [Tree.write_node]; exact nofun
  | slotProperty hkey =>
    rw [Tree.write_node]
    exact heads_property hkey _ k
  | slotComputed => rw [Tree.write_node]; exact nofun

theorem table_reads {s : Span} {properties : List Tree} (h : ∀ t ∈ properties, t.Fits .slot)
    (hlen : (Shape.braced [.punct .comma]
      ((properties.map Tree.write).map (· .slot))).length ≤ n) :
    Reads (table g) (Shape.braced [.punct .comma] ((properties.map Tree.write).map (· .slot))) P
      (Tree.Alike (.node s (.tableExpression properties))) := by
  have hlength (t : Tree) (ht : t ∈ properties) : (t.write .slot).length < n :=
    Nat.lt_of_lt_of_le (length_lt_braced _ (write_mem ht .slot)) hlen
  simp only [Shape.braced, List.flatMap_map]
  refine Reads.expectPunct fun _ => Reads.bind_last (Reads.braced (p := .comma)
    (w := fun t => t.write .slot) (by simp) (by simp) ?_ fun t ht => heads_slot (h t ht)) ?_
  · intro t ht
    refine (tableSlot_reads hg (h t ht) (Nat.le_of_lt (hlength t ht))).mono ?_ fun _ hu => hu
    rintro _ rfl
    simp [BehindExpression]
  · intro properties' hproperties'
    refine Reads.node fun _ => Tree.alike_node ?_
    simp only [Shape.map]
    rw [hproperties']

def staticMark (isStatic : Bool) : List Token.Kind :=
  if isStatic then [.keyword .staticKw] else []

omit hg in
theorem eat_staticMark {isStatic : Bool} {f : Bool → Parser Tree}
    (hne : isStatic = false → ∀ k, P k → Heads (· ≠ .keyword .staticKw) ks k)
    (h : Reads (f isStatic) ks P F) :
    Reads (eatKeyword .staticKw >>= f) (staticMark isStatic ++ ks) P F := by
  cases isStatic with
  | true => exact Reads.eat_eq h
  | false => exact Reads.eat_ne (hne rfl) h

theorem classMember_reads (h : t.Fits .classMember) (hlen : (t.write .classMember).length ≤ n) :
    Reads (classMember g) (t.write .classMember) BehindExpression t.Alike := by
  cases h with
  | @constructor s s' isStatic value h =>
    have hwrite : (Tree.node s (.methodDefinition .constructor isStatic
        (.node s' (.identifier Keyword.constructorKw.text)) value)).write .classMember =
        staticMark isStatic ++ .keyword .constructorKw :: value.write .method := by
      rw [Tree.write_node, ← Token.nameKind_text]
      simp only [Shape.map, Tree.write_node]
      rfl
    rw [hwrite] at hlen ⊢
    rw [List.length_append, List.length_cons] at hlen
    refine Reads.peek fun _ => eat_staticMark (fun _ _ _ => by rintro ⟨⟩) ?_
    refine Reads.at_true (fun _ _ => rfl) (Reads.advance fun _ _ => Reads.node_bind fun _ => ?_)
    exact method_reads hg (Tree.alike_node rfl) h (by omega)
  | @classMethod s isStatic key value hkey hvalue =>
    have hwrite : (Tree.node s (.methodDefinition .method isStatic key value)).write .classMember =
        staticMark isStatic ++ .keyword .functionKw :: (key.write .name ++ value.write .method) := by
      rw [Tree.write_node]
      rfl
    rw [hwrite] at hlen ⊢
    simp only [List.length_append, List.length_cons] at hlen
    refine Reads.peek fun _ => eat_staticMark (fun _ _ _ => by rintro ⟨⟩) ?_
    refine Reads.at_false (fun _ _ => by rintro ⟨⟩) (Reads.eat_eq ?_)
    refine Reads.bind_any (name_reads hkey) fun key' hkey' => ?_
    exact method_reads hg hkey' hvalue (by omega)
  | @classProperty s s' isStatic name value hkey hconstructor hfunction hstatic hvalue =>
    have hwrite : (Tree.node s (.propertyDefinition isStatic false
        (.node s' (.identifier name)) (some value))).write .classMember =
        staticMark isStatic ++ ((Tree.node s' (.identifier name)).write .property ++
          .punct .assign :: value.write .expression) := by
      rw [Tree.write_node, ← List.append_assoc]
      rfl
    -- a name that is one of these keywords would be read as the head of another member
    have hhead {k : Keyword} (hne : name ≠ k.text) (ks : List Token.Kind) (k' : Token.Kind) :
        Heads (· ≠ .keyword k) ((Tree.node s' (.identifier name)).write .property ++ ks) k' := by
      rw [Tree.write_node]
      exact Token.nameKind_ne hne
    rw [hwrite] at hlen ⊢
    simp only [List.length_append, List.length_cons] at hlen
    refine Reads.peek fun _ => eat_staticMark (fun h k _ => hhead (hstatic h) _ k) ?_
    refine Reads.at_false (fun k _ => hhead hconstructor _ k) ?_
    refine Reads.eat_ne (fun k _ => hhead hfunction _ k) ?_
    refine Reads.bind_any (slotKey_named hkey) ?_
    rintro ⟨key, _⟩ ⟨hkey', rfl⟩
    exact Reads.expectPunct fun _ => propertyValue_reads hg hkey' hvalue (by omega)
  | @classComputed s isStatic key value hkey hvalue =>
    have hwrite : (Tree.node s (.propertyDefinition isStatic true key (some value))).write
        .classMember = staticMark isStatic ++
          ((.punct .bracketOpen :: (key.write .expression ++ [.punct .bracketClose])) ++
            .punct .assign :: value.write .expression) := by
      rw [Tree.write_node, ← List.append_assoc]
      rfl
    rw [hwrite] at hlen ⊢
    simp only [List.length_append, List.length_cons] at hlen
    refine Reads.peek fun _ => eat_staticMark (fun _ _ _ => by rintro ⟨⟩) ?_
    refine Reads.at_false (fun _ _ => by rintro ⟨⟩) (Reads.eat_ne (fun _ _ => by rintro ⟨⟩) ?_)
    refine Reads.bind_any (slotKey_computed hg hkey (by omega)) ?_
    rintro ⟨key', _⟩ ⟨hkey', rfl⟩
    exact Reads.expectPunct fun _ => propertyValue_reads hg hkey' hvalue (by omega)

omit hg in
theorem heads_classMember (h : t.Fits .classMember) (k : Token.Kind) :
    Heads StartsItem (t.write .classMember) k := by
  cases h with
  | @constructor s s' isStatic value h =>
    cases isStatic with
    | true => rw [Tree.write_node]; exact nofun
    | false =>
      rw [Tree.write_node]
      exact heads_property (t := .node s' (.identifier Keyword.constructorKw.text)) .keyword _ k
  | @classMethod s isStatic key value hkey hvalue =>
    cases isStatic <;> (rw [Tree.write_node]; exact nofun)
  | @classProperty s s' isStatic name value hkey hconstructor hfunction hstatic hvalue =>
    cases isStatic with
    | true => rw [Tree.write_node]; exact nofun
    | false =>
      rw [Tree.write_node]
      exact heads_property hkey _ k
  | @classComputed s isStatic key value hkey hvalue =>
    cases isStatic <;> (rw [Tree.write_node]; exact nofun)

theorem classBody_reads (h : t.Fits .classBody) (hlen : (t.write .classBody).length ≤ n) :
    Reads (classBody g) (t.write .classBody) P t.Alike := by
  cases h with
  | @classBody s body h =>
    rw [Tree.write_node] at hlen ⊢
    have hlength (t : Tree) (ht : t ∈ body) : (t.write .classMember).length < n :=
      Nat.lt_of_lt_of_le (length_lt_braced _ (write_mem ht .classMember)) hlen
    simp only [Shape.map, Shape.write, Shape.writePart, Shape.braced, List.flatMap_map]
    refine Reads.expectPunct fun _ => Reads.bind_last (Reads.braced (p := .semicolon)
      (w := fun t => t.write .classMember) (by simp) (by simp) ?_
        fun t ht => heads_classMember (h t ht)) ?_
    · intro t ht
      refine (classMember_reads hg (h t ht) (Nat.le_of_lt (hlength t ht))).mono ?_ fun _ hu => hu
      rintro _ rfl
      simp [BehindExpression]
    · intro body' hbody'
      refine Reads.node fun _ => Tree.alike_node ?_
      simp only [Shape.map]
      rw [hbody']

theorem superclass_reads {o : Option Tree} (h : ∀ e ∈ o, e.Fits .expression)
    (hlen : (Shape.superclass (o.map Tree.write)).length ≤ n) :
    Reads (superclass g) (Shape.superclass (o.map Tree.write)) (· = .punct .braceOpen)
      fun o' => o'.map Tree.bare = o.map Tree.bare := by
  cases o with
  | none =>
    refine Reads.eat_ne ?_ (Reads.pure rfl)
    rintro _ rfl
    exact nofun
  | some e =>
    refine Reads.eat_eq (Reads.bind_last ((hg.unary e (h e rfl) hlen).mono ?_ fun _ hu => hu) ?_)
    · rintro _ rfl
      simp [BehindOperand]
    · exact fun e' he' => Reads.pure (congrArg some he')

omit hg in
theorem heads_classBody (h : t.Fits .classBody) (ks : List Token.Kind) (k : Token.Kind) :
    Heads (· = .punct .braceOpen) (t.write .classBody ++ ks) k := by
  cases h with
  | classBody =>
    rw [Tree.write_node]
    rfl

section

omit hg

variable {op : Token.Kind}

theorem inner_of_unary (h : Reads (unary g) ks (· = .punct .parenClose) F) :
    Reads (assignment g) ks (· = .punct .parenClose) F :=
  assignment_of_unary h fun _ hk => by simp [BehindExpression, hk]

theorem inner_of_postfixed (h : Reads (postfixed g) ks (· = .punct .parenClose) F)
    (hstart : ∀ k, Heads StartsOperand ks k) :
    Reads (assignment g) ks (· = .punct .parenClose) F :=
  inner_of_unary (unary_of_postfixed h fun k _ => hstart k)

theorem inner_of_primary (h : Reads (primary g) ks (· = .punct .parenClose) F)
    (hstart : ∀ k, Heads StartsOperand ks k) :
    Reads (assignment g) ks (· = .punct .parenClose) F :=
  inner_of_postfixed (postfixed_of_primary h fun _ hk => by simp [BehindOperand, hk]) hstart

end

theorem inner_postfix {object : Tree} (h : object.Fits .expression)
    (hlen : (object.write .expression).length ≤ n) (hks : ks ≠ [])
    (hstep : ∀ start e, object.Alike e → Reads (postfixStep g start e) ks (· = .punct .parenClose)
      fun o => ∃ u, o = some u ∧ F u) :
    Reads (assignment g) (object.write .expression ++ ks) (· = .punct .parenClose) F := by
  refine inner_of_postfixed (Reads.bind_any (primary_reads hg h hlen) fun e he => ?_)
    (heads_expression ⟨nofun, rfl⟩ ks)
  -- the object is in parentheses, so the chain has one step, and a closing parenthesis ends it
  refine (ReadsLoop.once hks (hstep _ e he) fun u _ => postfixStep_stop ?_).iterate
  rintro _ rfl
  simp [BehindOperand]

theorem expressions_reads {close : Punct} {es : List Tree} (h : ∀ e ∈ es, e.Fits .expression)
    (hlen : (Shape.commas ((es.map Tree.write).map (· .expression))).length < n)
    (hclose : BehindExpression (.punct close)) (hne : close ≠ .comma) (hopen : close ≠ .parenOpen) :
    Reads (listUntil close g.assignment)
      (Shape.commas ((es.map Tree.write).map (· .expression)) ++ [.punct close]) P (AllAlike es) := by
  have hlength (e : Tree) (he : e ∈ es) : (e.write .expression).length < n :=
    Nat.lt_of_le_of_lt (length_le_commas_of_mem (write_mem he .expression)) hlen
  rw [List.map_map]
  refine Reads.listUntil (fun e he => hg.assignment e (h e he) (hlength e he)) ?_ hclose hne ?_
  · simp [BehindExpression]
  · intro e _
    have hwrite := Tree.write_expression e
    refine ⟨fun he => ?_, fun k => ?_⟩
    · exact nomatch hwrite.symm.trans he
    · show Heads _ (e.write .expression) k
      rw [hwrite]
      exact fun he => hopen (Token.Kind.punct.inj he).symm

theorem array_reads {s : Span} {elements : List Tree} (h : ∀ e ∈ elements, e.Fits .expression)
    (hlen : (Tree.node s (.arrayExpression elements)).inner.length ≤ n) :
    Reads (array g) (Tree.node s (.arrayExpression elements)).inner P
      (Tree.Alike (.node s (.arrayExpression elements))) := by
  simp only [Tree.inner, Tree.shape, Shape.map, Shape.writeExpression, List.length_cons,
    List.length_append] at hlen ⊢
  refine Reads.expectPunct fun _ => Reads.bind_last
    (expressions_reads hg h (by omega) (by simp [BehindExpression]) (by simp) (by simp)) ?_
  intro elements' helements'
  refine Reads.node fun _ => Tree.alike_node ?_
  simp only [Shape.map]
  rw [helements']

theorem lambda_reads {s : Span} {params : List Tree} {body : Tree}
    (hparams : ∀ t ∈ params, t.Fits .parameter) (hbody : body.Fits .expression)
    (hlen : (Tree.node s (.lambdaExpression params body)).inner.length ≤ n) :
    Reads (lambda g) (Tree.node s (.lambdaExpression params body)).inner (· = .punct .parenClose)
      (Tree.Alike (.node s (.lambdaExpression params body))) := by
  simp only [Tree.inner, Tree.shape, Shape.map, Shape.writeExpression, List.length_cons,
    List.length_append] at hlen ⊢
  refine Reads.expectPunct fun _ => ?_
  refine Reads.bind_any (parameters_reads hg hparams (by omega)) fun params' hparams' => ?_
  refine Reads.bind_last ((hg.assignment body hbody (by omega)).mono ?_ fun _ hu => hu) ?_
  · rintro _ rfl
    simp [BehindExpression]
  · intro body' hbody'
    refine Reads.node fun _ => Tree.alike_node ?_
    simp only [Shape.map]
    rw [hparams', hbody']

theorem primary_function {s : Span} {params : List Tree} {body : Tree}
    (hparams : ∀ t ∈ params, t.Fits .parameter) (hbody : body.Fits .block)
    (hlen : (Tree.node s (.functionExpression params body)).inner.length ≤ n) :
    Reads (primary g) (Tree.node s (.functionExpression params body)).inner P
      (Tree.Alike (.node s (.functionExpression params body))) := by
  simp only [Tree.inner, Tree.shape, Shape.map, Shape.writeExpression, List.length_cons,
    List.length_append] at hlen ⊢
  refine Reads.peek_cons fun t' ht' => ?_
  simp only [ht']
  refine Reads.advance fun _ _ => ?_
  refine Reads.bind_any (parameters_reads hg hparams (by omega)) fun params' hparams' => ?_
  refine Reads.bind_last (block_reads hg hbody (by omega)) fun body' hbody' => ?_
  refine Reads.node fun _ => Tree.alike_node ?_
  simp only [Shape.map]
  rw [hparams', hbody']

theorem primary_class {s : Span} {o : Option Tree} {body : Tree}
    (ho : ∀ e ∈ o, e.Fits .expression) (hbody : body.Fits .classBody)
    (hlen : (Tree.node s (.classExpression o body)).inner.length ≤ n) :
    Reads (primary g) (Tree.node s (.classExpression o body)).inner P
      (Tree.Alike (.node s (.classExpression o body))) := by
  simp only [Tree.inner, Tree.shape, Shape.map, Shape.writeExpression, List.length_cons,
    List.length_append] at hlen ⊢
  refine Reads.peek_cons fun t' ht' => ?_
  simp only [ht']
  refine Reads.advance fun _ _ => ?_
  refine Reads.bind (superclass_reads hg ho (by omega)) (fun o' ho' => ?_)
    fun k _ => List.append_nil (body.write .classBody) ▸ heads_classBody hbody [] k
  refine Reads.bind_last (classBody_reads hg hbody (by omega)) fun body' hbody' => ?_
  refine Reads.node fun _ => Tree.alike_node ?_
  simp only [Shape.map]
  rw [ho', hbody']

theorem inner_call {s : Span} {callee : Tree} {arguments : List Tree}
    (hcallee : callee.Fits .expression) (harguments : ∀ e ∈ arguments, e.Fits .expression)
    (hlen : (Tree.node s (.callExpression callee arguments)).inner.length ≤ n) :
    Reads (assignment g) (Tree.node s (.callExpression callee arguments)).inner
      (· = .punct .parenClose) (Tree.Alike (.node s (.callExpression callee arguments))) := by
  simp only [Tree.inner, Tree.shape, Shape.map, Shape.writeExpression, Shape.enclosed,
    List.length_cons, List.length_append] at hlen ⊢
  refine inner_postfix hg hcallee (by omega) (by simp) fun start callee' hcallee' => ?_
  refine Reads.peek_cons fun t' ht' => ?_
  simp only [ht']
  refine Reads.advance fun _ _ => Reads.bind_last
    (expressions_reads hg harguments (by omega) (by simp [BehindExpression]) (by simp) (by simp)) ?_
  intro arguments' harguments'
  refine Reads.node_bind fun _ => Reads.pure ⟨_, rfl, Tree.alike_node ?_⟩
  simp only [Shape.map]
  rw [hcallee', harguments']

theorem inner_member {s : Span} {object property : Tree} (hobject : object.Fits .expression)
    (hproperty : property.Fits .property)
    (hlen : (Tree.node s (.memberExpression object property false)).inner.length ≤ n) :
    Reads (assignment g) (Tree.node s (.memberExpression object property false)).inner
      (· = .punct .parenClose) (Tree.Alike (.node s (.memberExpression object property false))) := by
  simp only [Tree.inner, Tree.shape, Shape.map, Shape.writeExpression, List.length_cons,
    List.length_append] at hlen ⊢
  refine inner_postfix hg hobject (by omega) (by simp) fun start object' hobject' => ?_
  refine Reads.peek_cons fun t' ht' => ?_
  simp only [ht']
  refine Reads.advance fun _ _ => (property_reads hproperty).bind_last ?_
  intro property' hproperty'
  refine Reads.node_bind fun _ => Reads.pure ⟨_, rfl, Tree.alike_node ?_⟩
  simp only [Shape.map]
  rw [hobject', hproperty']

theorem inner_index {s : Span} {object property : Tree} (hobject : object.Fits .expression)
    (hproperty : property.Fits .expression)
    (hlen : (Tree.node s (.memberExpression object property true)).inner.length ≤ n) :
    Reads (assignment g) (Tree.node s (.memberExpression object property true)).inner
      (· = .punct .parenClose) (Tree.Alike (.node s (.memberExpression object property true))) := by
  simp only [Tree.inner, Tree.shape, Shape.map, Shape.writeExpression, List.length_cons,
    List.length_append] at hlen ⊢
  refine inner_postfix hg hobject (by omega) (by simp) fun start object' hobject' => ?_
  refine Reads.peek_line fun t' ht' hline => ?_
  simp only [ht', hline]
  refine Reads.advance fun _ _ => (hg.assignment property hproperty (by omega)).bind ?_ ?_
  · intro property' hproperty'
    refine Reads.expectPunct fun _ => Reads.node_bind fun _ => Reads.pure ⟨_, rfl, ?_⟩
    refine Tree.alike_node ?_
    simp only [Shape.map]
    rw [hobject', hproperty']
  · exact fun _ _ => by simp [Heads, BehindExpression]

theorem inner_trailing {s : Span} {op : UnaryOperator} {argument : Tree} {k : Token.Kind}
    (hop : UnaryOperator.trailing? k = some op) (h : argument.Fits .expression)
    (hlen : (Tree.node s (.unaryExpression op false argument)).inner.length ≤ n) :
    Reads (assignment g) (Tree.node s (.unaryExpression op false argument)).inner
      (· = .punct .parenClose) (Tree.Alike (.node s (.unaryExpression op false argument))) := by
  simp only [Tree.inner, Tree.shape, Shape.map, Shape.writeExpression, List.length_cons,
    List.length_append] at hlen ⊢
  refine inner_postfix hg h (by omega) (by simp) fun start argument' hargument' => ?_
  refine Reads.peek_line fun t' ht' hline => ?_
  unfold UnaryOperator.trailing? at hop
  split at hop <;> cases hop
  all_goals
    simp only [ht', hline, UnaryOperator.token, UnaryOperator.trailing?]
    refine Reads.advance fun _ _ => Reads.node_bind fun _ => Reads.pure ⟨_, rfl, ?_⟩
    refine Tree.alike_node ?_
    simp only [Shape.map]
    rw [hargument']

theorem inner_leading {s : Span} {op : UnaryOperator} {argument : Tree}
    (h : argument.Fits .expression)
    (hlen : (Tree.node s (.unaryExpression op true argument)).inner.length ≤ n) :
    Reads (assignment g) (Tree.node s (.unaryExpression op true argument)).inner
      (· = .punct .parenClose) (Tree.Alike (.node s (.unaryExpression op true argument))) := by
  simp only [Tree.inner, Tree.shape, Shape.map, Shape.writeExpression, List.length_cons] at hlen ⊢
  refine inner_of_unary (Reads.peek_cons fun t' ht' => ?_)
  have hne : t'.kind ≠ .keyword .yieldKw := by
    rw [ht']
    cases op <;> rintro ⟨⟩
  rw [if_neg hne, ht', UnaryOperator.leading?_token]
  refine Reads.advance fun _ _ => Reads.bind_last ((hg.unary argument h (by omega)).mono ?_
    fun _ hu => hu) fun argument' hargument' => ?_
  · rintro _ rfl
    simp [BehindOperand]
  · refine Reads.node fun _ => Tree.alike_node ?_
    simp only [Shape.map]
    rw [hargument']

theorem inner_yield {s : Span} {argument : Option Tree}
    (h : ∀ e ∈ argument, e.Fits .expression)
    (hlen : (Tree.node s (.yieldExpression argument)).inner.length ≤ n) :
    Reads (assignment g) (Tree.node s (.yieldExpression argument)).inner
      (· = .punct .parenClose) (Tree.Alike (.node s (.yieldExpression argument))) := by
  simp only [Tree.inner, Tree.shape, Shape.map, Shape.writeExpression, List.length_cons] at hlen ⊢
  refine inner_of_unary (Reads.peek_cons fun t' ht' => ?_)
  rw [if_pos ht']
  refine Reads.expectKeyword fun _ => ?_
  cases argument with
  | none =>
    refine Reads.atTerminator (b := true) ?_ ?_
    · rintro _ rfl
      rfl
    · exact Reads.node fun _ => Tree.alike_node rfl
  | some e =>
    simp only [Option.map_some, Option.elim_some] at hlen ⊢
    refine Reads.atTerminator (b := false) ?_ ?_
    · intro k _
      rw [Tree.write_expression]
      rfl
    · refine Reads.bind_last (F := fun o => ∃ u, o = some u ∧ e.Alike u) (Reads.map
        ((hg.assignment e (h e rfl) (by omega)).mono ?_ fun u hu => ⟨u, rfl, hu⟩)) ?_
      · rintro _ rfl
        simp [BehindExpression]
      · rintro _ ⟨e', rfl, he'⟩
        exact Reads.node fun _ => Tree.alike_node (congrArg (Shape.yieldExpression ∘ some) he')

theorem inner_binary {s : Span} {op : BinaryOperator} {left right : Tree}
    (hleft : left.Fits .expression) (hright : right.Fits .expression)
    (hlen : (Tree.node s (.binaryExpression op left right)).inner.length ≤ n) :
    Reads (assignment g) (Tree.node s (.binaryExpression op left right)).inner
      (· = .punct .parenClose) (Tree.Alike (.node s (.binaryExpression op left right))) := by
  simp only [Tree.inner, Tree.shape, Shape.map, Shape.writeExpression, List.length_cons,
    List.length_append] at hlen ⊢
  refine assignment_of_binary (Reads.bind (Q := (· = op.token)) (unary_reads hg hleft (by omega) ?_)
    (fun left' hleft' => ?_) fun _ _ => rfl) fun _ hk => by simp [BehindExpression, hk]
  · rintro _ rfl
    cases op <;> simp [BehindOperand, BinaryOperator.token]
  · refine ReadsLoop.iterate (ReadsLoop.once (List.cons_ne_nil _ _) ?_ fun _ _ =>
      binaryStep_stop ?_)
    · refine Reads.peek_cons fun t' ht' => ?_
      have hleast : ¬ op.precedence < 1 := by cases op <;> decide
      rw [ht', BinaryOperator.ofToken?_token]
      simp only [if_neg hleast]
      refine Reads.advance fun _ _ => Reads.bind_last
        ((hg.binary right _ hright (by omega)).mono ?_ fun _ hu => hu) fun right' hright' => ?_
      · rintro _ rfl
        simp [BehindExpression]
      · refine Reads.start (Reads.node_bind fun _ => Reads.pure ⟨_, rfl, Tree.alike_node ?_⟩)
        simp only [Shape.map]
        rw [hleft', hright']
    · rintro _ rfl
      rfl

theorem inner_conditional {s : Span} {test consequent alternate : Tree}
    (htest : test.Fits .expression) (hconsequent : consequent.Fits .expression)
    (halternate : alternate.Fits .expression)
    (hlen : (Tree.node s (.conditionalExpression test consequent alternate)).inner.length ≤ n) :
    Reads (assignment g) (Tree.node s (.conditionalExpression test consequent alternate)).inner
      (· = .punct .parenClose)
      (Tree.Alike (.node s (.conditionalExpression test consequent alternate))) := by
  simp only [Tree.inner, Tree.shape, Shape.map, Shape.writeExpression, List.length_cons,
    List.length_append] at hlen ⊢
  refine assignment_of_conditional (Reads.bind (Q := (· = .punct .question))
    (binary_reads hg 1 htest (by omega) ?_) (fun test' htest' => ?_) fun _ _ => rfl) ?_
  · rintro _ rfl
    exact ⟨by simp [BehindOperand], rfl⟩
  · refine Reads.eat_eq (Reads.bind (hg.assignment consequent hconsequent (by omega))
      (fun consequent' hconsequent' => ?_) fun _ _ => by simp [Heads, BehindExpression])
    refine Reads.expectPunct fun _ => Reads.bind_last
      ((hg.assignment alternate halternate (by omega)).mono ?_ fun _ hu => hu) ?_
    · rintro _ rfl
      simp [BehindExpression]
    · intro alternate' halternate'
      refine Reads.node fun _ => Tree.alike_node ?_
      simp only [Shape.map]
      rw [htest', hconsequent', halternate']
  · rintro _ rfl
    rfl

theorem inner_assignment {s : Span} {op : AssignmentOperator} {left right : Tree}
    (hleft : left.Fits .expression) (hright : right.Fits .expression)
    (hlen : (Tree.node s (.assignmentExpression op left right)).inner.length ≤ n) :
    Reads (assignment g) (Tree.node s (.assignmentExpression op left right)).inner
      (· = .punct .parenClose) (Tree.Alike (.node s (.assignmentExpression op left right))) := by
  simp only [Tree.inner, Tree.shape, Shape.map, Shape.writeExpression, List.length_cons,
    List.length_append] at hlen ⊢
  refine Reads.bind (Q := (· = op.token)) (conditional_reads hg hleft (by omega) ?_)
    (fun left' hleft' => ?_) fun _ _ => rfl
  · rintro _ rfl
    cases op <;> simp [BehindOperand, AssignmentOperator.token, BinaryOperator.ofToken?]
  · refine Reads.peek_cons fun t' ht' => ?_
    rw [ht', AssignmentOperator.ofToken?_token]
    refine Reads.advance fun _ _ => Reads.bind_last
      ((hg.assignment right hright (by omega)).mono ?_ fun _ hu => hu) fun right' hright' => ?_
    · rintro _ rfl
      simp [BehindExpression]
    · refine Reads.node fun _ => Tree.alike_node ?_
      simp only [Shape.map]
      rw [hleft', hright']

omit hg in
theorem literal_starts (value : Literal) (k : Token.Kind) :
    Heads StartsOperand [value.token] k := by
  cases value with
  | bool b => cases b <;> exact ⟨nofun, rfl⟩
  | _ => exact ⟨nofun, rfl⟩

omit hg in
theorem literal_reads {s : Span} {value : Literal} :
    Reads (primary g) [value.token] P (Tree.Alike (.node s (.literal value))) := by
  refine Reads.peek_cons fun t' ht' => ?_
  have hvalue := Literal.ofToken?_token value
  cases value with
  | bool b =>
    cases b
    all_goals
      simp only [Literal.token] at ht' hvalue
      simp only [ht', hvalue]
      exact Reads.advance fun _ _ => Reads.node fun _ => Tree.alike_node rfl
  | _ =>
    simp only [Literal.token] at ht' hvalue
    simp only [ht', hvalue]
    exact Reads.advance fun _ _ => Reads.node fun _ => Tree.alike_node rfl

theorem inner_reads (h : t.Fits .expression) (hlen : t.inner.length ≤ n) :
    Reads (assignment g) t.inner (· = .punct .parenClose) t.Alike := by
  cases h with
  | identifier h =>
    have hinner : t.inner = t.write .name := by
      cases h
      rw [Tree.write_node]
      rfl
    obtain ⟨name, hwrite⟩ := write_name h
    have hname := name_reads (P := (· = .punct .parenClose)) h
    rw [hwrite .name (by simp)] at hinner hname
    rw [hinner]
    refine inner_of_primary (Reads.peek_cons fun t' ht' => ?_) fun _ => ⟨nofun, rfl⟩
    simp only [ht']
    exact hname
  | @literal s k value =>
    exact inner_of_primary literal_reads (literal_starts value)
  | table h =>
    refine inner_of_primary (Reads.peek_cons fun t' ht' => ?_) fun _ => ⟨nofun, rfl⟩
    simp only [ht']
    exact table_reads hg h hlen
  | array h =>
    refine inner_of_primary (Reads.peek_cons fun t' ht' => ?_) fun _ => ⟨nofun, rfl⟩
    simp only [ht']
    exact array_reads hg h hlen
  | function h =>
    cases h with
    | method hparams hbody =>
      exact inner_of_primary (primary_function hg hparams hbody hlen) fun _ => ⟨nofun, rfl⟩
  | lambda hparams hbody =>
    refine inner_of_primary (Reads.peek_cons fun t' ht' => ?_) fun _ => ⟨nofun, rfl⟩
    simp only [ht']
    exact lambda_reads hg hparams hbody hlen
  | classExpression hsuperclass hbody =>
    exact inner_of_primary (primary_class hg hsuperclass hbody hlen) fun _ => ⟨nofun, rfl⟩
  | call hcallee harguments => exact inner_call hg hcallee harguments hlen
  | member hobject hproperty => exact inner_member hg hobject hproperty hlen
  | index hobject hproperty => exact inner_index hg hobject hproperty hlen
  | this =>
    refine inner_of_primary (Reads.peek_cons fun t' ht' => ?_) fun _ => ⟨nofun, rfl⟩
    simp only [ht']
    exact Reads.advance fun _ _ => Reads.node fun _ => Tree.alike_node rfl
  | base =>
    refine inner_of_primary (Reads.peek_cons fun t' ht' => ?_) fun _ => ⟨nofun, rfl⟩
    simp only [ht']
    exact Reads.advance fun _ _ => Reads.node fun _ => Tree.alike_node rfl
  | root h =>
    refine inner_of_primary (Reads.peek_cons fun t' ht' => ?_) fun _ => ⟨nofun, rfl⟩
    simp only [ht']
    refine Reads.advance fun _ _ => (property_reads h).bind_last fun property' hproperty' => ?_
    exact Reads.node fun _ => Tree.alike_node (congrArg Shape.rootExpression hproperty')
  | assignment hleft hright => exact inner_assignment hg hleft hright hlen
  | binary hleft hright => exact inner_binary hg hleft hright hlen
  | leading h => exact inner_leading hg h hlen
  | trailing hop h => exact inner_trailing hg hop h hlen
  | conditional htest hconsequent halternate =>
    exact inner_conditional hg htest hconsequent halternate hlen
  | yieldExpression h => exact inner_yield hg h hlen

end Parser

end SquirrelAnalyzer
