import SquirrelAnalyzer.Proofs.Reread.Expression
import SquirrelAnalyzer.Proofs.Tree

namespace SquirrelAnalyzer

namespace Parser

open Token.Kind

variable {g : Grammar} {n : Nat} {t : Tree} {k : Token.Kind} {ks : List Token.Kind}
  {P : Token.Kind → Prop}

section

variable {separator : Punct} {q : Option Tree} {id id' o : Tree} {F : Option Tree × Tree → Prop}

theorem qualifyStep_first : (qualifyStep separator (none, id) : Parser _) = do
    if ← eatPunct separator then return some (some id, ← identifier) else return none := by
  simp [qualifyStep]

theorem qualifyStep_later : (qualifyStep separator (some o, id) : Parser _) = do
    if ← eatPunct separator then
      let owner ← node o.start (.memberExpression o id false)
      return some (some owner, ← identifier)
    else return none := rfl

def ReadsName (separator : Punct) (q : Option Tree) (ks : List Token.Kind) (P : Token.Kind → Prop)
    (F : Option Tree × Tree → Prop) : Prop :=
  ∃ (id : Tree) (ks' : List Token.Kind), id.Fits .name ∧ ks = id.write .name ++ ks' ∧
    ∀ id' : Tree, id.Alike id' → ReadsLoop (qualifyStep separator) (q, id') ks' P F

theorem ReadsName.qualifiedName (h : ReadsName separator none ks P F) :
    Reads (qualifiedName separator) ks P F := by
  obtain ⟨id, ks', hid, rfl, hloop⟩ := h
  exact Reads.bind_any (name_reads hid) fun id' hid' => (hloop id' hid').iterate

theorem ReadsName.next {n : Nat} (h : ReadsName separator q ks P F) (hn : ks.length ≤ n) :
    Reads (do
      let id ← identifier
      iterateUpTo (qualifyStep separator) n (q, id)) ks P F := by
  obtain ⟨id, ks', hid, rfl, hloop⟩ := h
  obtain ⟨name, hwrite⟩ := write_name hid
  refine Reads.bind_any (name_reads hid) fun id' hid' => hloop id' hid' n ?_
  rw [hwrite .name (by simp)] at hn
  exact hn

theorem ReadsName.loop_first (hid : id.Alike id')
    (h : ∀ o', id.Alike o' → ReadsName separator (some o') ks P F) :
    ReadsLoop (qualifyStep separator) (none, id') (.punct separator :: ks) P F := by
  intro n hn
  obtain ⟨n, rfl⟩ := Nat.exists_eq_succ_of_ne_zero (Nat.ne_of_gt (Nat.zero_lt_of_lt hn))
  have hnext := (h id' hid).next (Nat.le_of_lt_succ (Nat.lt_of_succ_lt hn))
  rw [iterateUpTo, qualifyStep_first, eatPunct, bind_assoc]
  refine Reads.eat_eq ?_
  simpa using hnext

theorem ReadsName.loop_later {s : Span} {object object' : Tree} (hobject : object.Alike object')
    (hid : id.Alike id') (h : ∀ o', (Tree.node s (.memberExpression object id false)).Alike o' →
      ReadsName separator (some o') ks P F) :
    ReadsLoop (qualifyStep separator) (some object', id') (.punct separator :: ks) P F := by
  intro n hn
  obtain ⟨n, rfl⟩ := Nat.exists_eq_succ_of_ne_zero (Nat.ne_of_gt (Nat.zero_lt_of_lt hn))
  rw [iterateUpTo, qualifyStep_later, eatPunct, bind_assoc]
  refine Reads.eat_eq ?_
  simp only [if_true, bind_assoc]
  refine Reads.node_bind fun s' => ?_
  have halike : (Tree.node s (.memberExpression object id false)).Alike
      (.node s' (.memberExpression object' id' false)) := by
    refine Tree.alike_node ?_
    simp only [Shape.map]
    rw [hobject, hid]
  have hnext := (h _ halike).next (Nat.le_of_lt_succ (Nat.lt_of_succ_lt hn))
  simpa using hnext

def ownerTokens (separator : Punct) (o : Tree) : List Token.Kind :=
  (o.write .owner).flatMap fun k => [k, .punct separator]

theorem ReadsName.owner (ho : o.Fits .owner)
    (h : ∀ o', o.Alike o' → ReadsName separator (some o') ks P F) :
    ReadsName separator none (ownerTokens separator o ++ ks) P F := by
  induction hn : (o.write .owner).length using Nat.strongRecOn generalizing o ks with
  | ind n ih =>
    cases ho with
    | ownerName hid =>
      obtain ⟨name, hwrite⟩ := write_name hid
      refine ⟨o, .punct separator :: ks, hid, ?_, fun id' hid' => ReadsName.loop_first hid' h⟩
      simp [ownerTokens, hwrite .owner, hwrite .name]
    | @ownerMember s object property hobject hproperty =>
      obtain ⟨name, hwrite⟩ := write_name hproperty
      have howner : (Tree.node s (.memberExpression object property false)).write .owner =
          object.write .owner ++ property.write .name := by
        rw [Tree.write_node]
        rfl
      have htokens : ownerTokens separator (.node s (.memberExpression object property false)) ++ ks =
          ownerTokens separator object ++ (property.write .name ++ .punct separator :: ks) := by
        simp [ownerTokens, howner, hwrite .name]
      rw [htokens]
      refine ih (object.write .owner).length ?_ hobject (fun object' hobject' => ?_) rfl
      · rw [← hn, howner, List.length_append, hwrite .name (by simp)]
        exact Nat.lt_succ_self _
      · exact ⟨property, .punct separator :: ks, hproperty, rfl,
          fun id' hid' =>
          ReadsName.loop_later hobject' hid' h⟩

theorem qualifiedName_reads (hq : ∀ o ∈ q, o.Fits .owner) (hid : id.Fits .name)
    (hP : ∀ k, P k → k ≠ .punct separator) :
    Reads (qualifiedName separator) (Shape.qualified separator (q.map Tree.write) id.write) P
      fun x => x.1.map Tree.bare = q.map Tree.bare ∧ id.Alike x.2 := by
  have hlast (q' : Option Tree) (hq' : q'.map Tree.bare = q.map Tree.bare) :
      ReadsName separator q' (id.write .name) P
        fun x => x.1.map Tree.bare = q.map Tree.bare ∧ id.Alike x.2 :=
    ⟨id, [], hid, (List.append_nil _).symm, fun id' hid' =>
      ReadsLoop.stop (Reads.eat_ne hP (Reads.pure rfl)) ⟨hq', hid'⟩⟩
  refine ReadsName.qualifiedName ?_
  cases q with
  | none => exact hlast none rfl
  | some o => exact ReadsName.owner (hq o rfl) fun o' ho' => hlast (some o') (congrArg some ho')

end

section

variable (hg : g.Rereads n)

include hg

theorem condition_reads (h : t.Fits .expression)
    (hlen : (Shape.enclosed (t.write .expression)).length ≤ n) :
    Reads (condition g) (Shape.enclosed (t.write .expression)) P t.Alike := by
  have hlength := Nat.lt_of_lt_of_le (length_lt_enclosed (t.write .expression)) hlen
  refine Reads.expectPunct fun _ => Reads.bind (hg.assignment t h hlength) ?_ ?_
  · exact fun u hu => Reads.expectPunct fun _ => Reads.pure hu
  · exact fun _ _ => by simp [Heads, BehindExpression]

theorem initializer_reads {o : Option Tree} (h : ∀ e ∈ o, e.Fits .expression)
    (hlen : (Shape.initializer (o.map Tree.write)).length ≤ n) :
    Reads (initializer g) (Shape.initializer (o.map Tree.write)) BehindExpression
      fun o' => o'.map Tree.bare = o.map Tree.bare := by
  cases o with
  | none => exact Reads.eat_ne (fun _ hk => hk.ne_assign) (Reads.pure rfl)
  | some e =>
    refine Reads.eat_eq (Reads.bind_last (hg.assignment e (h e rfl) hlen) fun e' he' => ?_)
    exact Reads.pure (congrArg some he')

theorem declarator_reads (h : t.Fits .declarator) (hlen : (t.write .declarator).length ≤ n) :
    Reads (declarator g) (t.write .declarator) BehindExpression t.Alike := by
  cases h with
  | @declarator s id init hid hinit =>
    simp only [Tree.write_node, Shape.map, Shape.write, Shape.writePart, List.length_append]
      at hlen ⊢
    refine Reads.bind_any (name_reads hid) fun id' hid' => ?_
    refine Reads.bind_last (initializer_reads hg hinit (by omega)) fun init' hinit' => ?_
    refine Reads.node fun _ => Tree.alike_node ?_
    simp only [Shape.map]
    rw [hid', hinit']

theorem enumMember_reads (h : t.Fits .enumMember) (hlen : (t.write .enumMember).length ≤ n) :
    Reads (enumMember g) (t.write .enumMember) BehindExpression t.Alike := by
  cases h with
  | @enumMember s id init hid hinit =>
    simp only [Tree.write_node, Shape.map, Shape.write, Shape.writePart, List.length_append]
      at hlen ⊢
    refine Reads.bind_any (name_reads hid) fun id' hid' => ?_
    refine Reads.bind_last (initializer_reads hg hinit (by omega)) fun init' hinit' => ?_
    refine Reads.node fun _ => Tree.alike_node ?_
    simp only [Shape.map]
    rw [hid', hinit']

omit hg in
theorem heads_declarator (h : t.Fits .declarator) (hP : ∀ name, P (.identifier name))
    (k : Token.Kind) :
    Heads P (t.write .declarator) k := by
  cases h with
  | declarator hid =>
    rw [Tree.write_node]
    exact heads_name hid hP _ k

theorem declarations_reads {ds : List Tree} (hne : ds ≠ []) (h : ∀ d ∈ ds, d.Fits .declarator)
    (hlen : (Shape.commas ((ds.map Tree.write).map (· .declarator))).length ≤ n) :
    Reads (separated (return false) (declarator g))
      (Shape.commas ((ds.map Tree.write).map (· .declarator))) (· = .punct .semicolon)
      (AllAlike ds) := by
  have hlength (d : Tree) (hd : d ∈ ds) : (d.write .declarator).length ≤ n :=
    Nat.le_trans (length_le_commas_of_mem (write_mem hd .declarator)) hlen
  rw [List.map_map]
  refine Reads.separated (Q := BehindExpression) ?_ (fun he => absurd he hne)
    (fun d hd => declarator_reads hg (h d hd) (hlength d hd)) (by simp [BehindExpression]) ?_ ?_
  · intro d _ ks f G hf
    rw [pure_bind]
    exact hf
  · rintro _ rfl
    exact ⟨by simp [BehindExpression], by simp⟩
  · intro d hd
    exact Heads.ne_nil (P := (· ≠ .endOfFile)) (heads_declarator (h d hd) fun _ => by rintro ⟨⟩)
      fun he => he rfl

theorem variables_reads (h : t.Fits .variables) (hlen : (t.write .variables).length ≤ n) :
    Reads (variableList g .localVariable false) (t.write .variables) (· = .punct .semicolon)
      t.Alike := by
  cases h with
  | @localVariables s ds hne hds =>
    simp only [Tree.write_node, Shape.map, Shape.write, Shape.writePart, List.length_cons]
      at hlen ⊢
    refine Reads.advance fun _ _ => Reads.bind_last (declarations_reads hg hne hds (by omega)) ?_
    intro ds' hds'
    refine Reads.node fun _ => Tree.alike_node ?_
    simp only [Shape.map]
    rw [hds']

theorem localVariables_reads {s : Span} {ds : List Tree} (hne : ds ≠ [])
    (hds : ∀ d ∈ ds, d.Fits .declarator)
    (hlen : ((Tree.node s (.variableDeclaration .localVariable ds)).write .statement).length ≤ n) :
    Reads (localDeclaration g) ((Tree.node s (.variableDeclaration .localVariable ds)).write .statement)
      P (Tree.Alike (.node s (.variableDeclaration .localVariable ds))) := by
  obtain ⟨d, ds', rfl⟩ := List.exists_cons_of_ne_nil hne
  simp only [Tree.write_node, Shape.map, Shape.write, Shape.writeStatement, List.length_cons,
    List.length_append] at hlen ⊢
  refine Reads.peek fun _ => Reads.peekSecond (Q := (· ≠ .keyword .functionKw)) (fun k _ => ?_)
    fun second hsecond => ?_
  · exact heads_commas (heads_declarator (hds d List.mem_cons_self) fun _ => by rintro ⟨⟩) _ _ k
  · have hfunction : second.map (·.kind) ≠ some (.keyword .functionKw) := by
      intro he
      obtain ⟨t', rfl, ht'⟩ := Option.map_eq_some_iff.mp he
      exact hsecond t' rfl ht'
    rw [if_neg hfunction]
    refine Reads.advance fun _ _ => Reads.bind (declarations_reads hg hne hds (by omega)) ?_
      fun _ _ => rfl
    intro ds' hds'
    refine Reads.eat_eq (Reads.node fun _ => Tree.alike_node ?_)
    simp only [Shape.map]
    rw [hds']

theorem constant_reads {s : Span} {d : Tree} (h : d.Fits .declarator)
    (hlen : ((Tree.node s (.variableDeclaration .constant [d])).write .statement).length ≤ n) :
    Reads (variableList g .constant true)
      ((Tree.node s (.variableDeclaration .constant [d])).write .statement) P
      (Tree.Alike (.node s (.variableDeclaration .constant [d]))) := by
  have hwrite : (Tree.node s (.variableDeclaration .constant [d])).write .statement =
      .keyword .constKw :: (d.write .declarator ++ [.punct .semicolon]) := by
    rw [Tree.write_node]
    simp [Shape.map, Shape.write, Shape.writeStatement, Shape.commas, List.intercalate,
      VariableKind.token]
  rw [hwrite] at hlen ⊢
  simp only [List.length_cons, List.length_append] at hlen
  refine Reads.advance fun _ _ => Reads.bind (Q := (· = .punct .semicolon))
    (F := fun l => ∃ u, l = [u] ∧ d.Alike u) (Reads.map ?_) ?_ fun _ _ => rfl
  · refine (declarator_reads hg h (by omega)).mono ?_ fun u hu => ⟨u, rfl, hu⟩
    rintro _ rfl
    simp [BehindExpression]
  · rintro _ ⟨d', rfl, hd'⟩
    refine Reads.eat_eq (Reads.node fun _ => Tree.alike_node ?_)
    simp only [Shape.map, List.map_cons, List.map_nil]
    rw [hd']

theorem functionDeclaration_reads (start : Nat) {s : Span} {q : Option Tree} {id body : Tree}
    {params : List Tree} (hq : ∀ o ∈ q, o.Fits .owner) (hid : id.Fits .name)
    (hparams : ∀ t ∈ params, t.Fits .parameter) (hbody : body.Fits .block)
    (hlen : ((Tree.node s (.functionDeclaration q id params body)).write .statement).length ≤ n) :
    Reads (functionDeclaration g start)
      ((Tree.node s (.functionDeclaration q id params body)).write .statement) P
      (Tree.Alike (.node s (.functionDeclaration q id params body))) := by
  simp only [Tree.write_node, Shape.map, Shape.write, Shape.writeStatement, List.length_cons,
    List.length_append] at hlen ⊢
  refine Reads.expectKeyword fun _ => Reads.bind (Q := (· = .punct .parenOpen))
    (qualifiedName_reads hq hid ?_) ?_ fun _ _ => rfl
  · rintro _ rfl ⟨⟩
  · rintro ⟨q', id'⟩ ⟨hq', hid'⟩
    refine Reads.bind_any (parameters_reads hg hparams (by omega)) fun params' hparams' => ?_
    refine Reads.bind_last (block_reads hg hbody (by omega)) fun body' hbody' => ?_
    refine Reads.node fun _ => Tree.alike_node ?_
    simp only [Shape.map]
    rw [hq', hid', hparams', hbody']

theorem classDeclaration_reads {s : Span} {q o : Option Tree} {id body : Tree}
    (hq : ∀ o ∈ q, o.Fits .owner) (hid : id.Fits .name) (ho : ∀ e ∈ o, e.Fits .expression)
    (hbody : body.Fits .classBody)
    (hlen : ((Tree.node s (.classDeclaration q id o body)).write .statement).length ≤ n) :
    Reads (classDeclaration g) ((Tree.node s (.classDeclaration q id o body)).write .statement) P
      (Tree.Alike (.node s (.classDeclaration q id o body))) := by
  simp only [Tree.write_node, Shape.map, Shape.write, Shape.writeStatement, List.length_cons,
    List.length_append] at hlen ⊢
  have hbrace (k : Token.Kind) : Heads (· = .punct .braceOpen) (body.write .classBody) k :=
    List.append_nil (body.write .classBody) ▸ heads_classBody hbody [] k
  refine Reads.expectKeyword fun _ => Reads.bind (Q := (· ≠ .punct .dot))
    (qualifiedName_reads hq hid fun _ hk => hk) ?_ fun k _ => ?_
  · rintro ⟨q', id'⟩ ⟨hq', hid'⟩
    refine Reads.bind (superclass_reads hg ho (by omega)) (fun o' ho' => ?_) fun k _ => hbrace k
    refine Reads.bind_last (classBody_reads hg hbody (by omega)) fun body' hbody' => ?_
    refine Reads.node fun _ => Tree.alike_node ?_
    simp only [Shape.map]
    rw [hq', hid', ho', hbody']
  · cases o with
    | none => exact (hbrace k).imp fun _ hk => by rintro rfl; cases hk
    | some e => rintro ⟨⟩

theorem enumDeclaration_reads {s : Span} {id : Tree} {members : List Tree} (hid : id.Fits .name)
    (hmembers : ∀ t ∈ members, t.Fits .enumMember)
    (hlen : ((Tree.node s (.enumDeclaration id members)).write .statement).length ≤ n) :
    Reads (enumDeclaration g) ((Tree.node s (.enumDeclaration id members)).write .statement) P
      (Tree.Alike (.node s (.enumDeclaration id members))) := by
  simp only [Tree.write_node, Shape.map, Shape.write, Shape.writeStatement, List.length_cons,
    List.length_append] at hlen ⊢
  have hlength (t : Tree) (ht : t ∈ members) : (t.write .enumMember).length ≤ n := by
    have hmember := length_lt_braced [.punct .comma] (write_mem ht .enumMember)
    omega
  refine Reads.expectKeyword fun _ => Reads.bind_any (name_reads hid) fun id' hid' => ?_
  simp only [Shape.braced, List.flatMap_map]
  refine Reads.expectPunct fun _ => Reads.bind_last (Reads.braced (p := .comma)
    (w := fun t => t.write .enumMember) (by simp) (by simp) ?_ ?_) ?_
  · intro t ht
    refine (enumMember_reads hg (hmembers t ht) (hlength t ht)).mono ?_ fun _ hu => hu
    rintro _ rfl
    simp [BehindExpression]
  · intro t ht k
    cases hmembers t ht with
    | enumMember hid =>
      rw [Tree.write_node]
      exact heads_name hid (fun _ => by simp [StartsItem]) _ k
  · intro members' hmembers'
    refine Reads.node fun _ => Tree.alike_node ?_
    simp only [Shape.map]
    rw [hid', hmembers']

theorem returnStatement_reads {s : Span} {argument : Option Tree}
    (h : ∀ e ∈ argument, e.Fits .expression)
    (hlen : ((Tree.node s (.returnStatement argument)).write .statement).length ≤ n) :
    Reads (returnStatement g) ((Tree.node s (.returnStatement argument)).write .statement) P
      (Tree.Alike (.node s (.returnStatement argument))) := by
  simp only [Tree.write_node, Shape.map, Shape.write, Shape.writeStatement, List.length_cons,
    List.length_append] at hlen ⊢
  refine Reads.expectKeyword fun _ => ?_
  -- no token follows a line break, so only the next kind says whether there is an argument
  cases argument with
  | none =>
    refine Reads.atTerminator (b := true) (fun _ _ => rfl) ?_
    simp only [if_true, pure_bind]
    exact Reads.eat_eq (Reads.node fun _ => Tree.alike_node rfl)
  | some e =>
    simp only [Option.map_some, Option.elim_some] at hlen ⊢
    refine Reads.atTerminator (b := false) ?_ ?_
    · intro k _
      rw [Tree.write_expression]
      rfl
    · refine Reads.bind (F := fun o => ∃ u, o = some u ∧ e.Alike u) (Reads.map
        ((assignment_reads hg (h e rfl) (by omega)).mono (fun _ hk => hk) fun u hu => ⟨u, rfl, hu⟩))
        ?_ fun _ _ => by simp [Heads, BehindExpression]
      rintro _ ⟨e', rfl, he'⟩
      refine Reads.eat_eq (Reads.node fun _ => Tree.alike_node ?_)
      exact congrArg (Shape.returnStatement ∘ some) he'

omit hg in
theorem endsBefore_last {s : Span} {shape : Shape Tree} {last : Tree}
    (h : ∀ (f : Tree → Bool) k, (shape.map f).takes k = f last)
    (hk : (Tree.node s shape).EndsBefore k) : last.EndsBefore k := by
  intro k' hk' htakes
  refine hk k' hk' ?_
  rw [Tree.takes_node, h]
  exact htakes

omit hg in
theorem endsBefore_unless {s : Span} {shape : Shape Tree} (last : Tree) {k' : Keyword}
    (hk' : k' ∈ [Keyword.elseKw, .catchKw])
    (h : ∀ (f : Tree → Bool) k, (shape.map f).takes k = (decide (k = k') || f last))
    (hk : (Tree.node s shape).EndsBefore k) : last.EndsBefore k ∧ k ≠ .keyword k' := by
  constructor
  · intro k'' hk'' htakes
    refine hk k'' hk'' ?_
    rw [Tree.takes_node, h, Bool.or_eq_true]
    exact .inr htakes
  · refine hk k' hk' ?_
    rw [Tree.takes_node, h, decide_eq_true rfl, Bool.true_or]

theorem last_reads {s : Span} {start : Nat} {last : Tree} (shape shape' : Tree → Shape Tree)
    (h : last.Fits .statement) (hlen : (last.write .statement).length < n)
    (htakes : ∀ (f : Tree → Bool) k, ((shape last).map f).takes k = f last)
    (hshape : ∀ last', last.Alike last' →
      (shape' last').map Tree.bare = (shape last).map Tree.bare) :
    Reads (do node start (shape' (← g.statement))) (last.write .statement)
      (Tree.node s (shape last)).EndsBefore (Tree.Alike (.node s (shape last))) := by
  refine Reads.bind_last ((hg.statement last h hlen).mono (fun _ hk => endsBefore_last htakes hk)
    fun _ hu => hu) fun last' hlast' => ?_
  exact Reads.node fun _ => Tree.alike_node (hshape last' hlast')

theorem ifStatement_reads {s : Span} {test consequent : Tree} {alternate : Option Tree}
    (htest : test.Fits .expression) (hconsequent : consequent.Fits .statement)
    (halternate : ∀ t ∈ alternate, t.Fits .statement)
    (hclosed : alternate.isSome → consequent.takes .elseKw = false)
    (hlen : ((Tree.node s (.ifStatement test consequent alternate)).write .statement).length ≤ n) :
    Reads (ifStatement g) ((Tree.node s (.ifStatement test consequent alternate)).write .statement)
      (Tree.node s (.ifStatement test consequent alternate)).EndsBefore
      (Tree.Alike (.node s (.ifStatement test consequent alternate))) := by
  simp only [Tree.write_node, Shape.map, Shape.write, Shape.writeStatement, List.length_cons,
    List.length_append] at hlen ⊢
  refine Reads.expectKeyword fun _ => ?_
  refine Reads.bind_any (condition_reads hg htest (by omega)) fun test' htest' => ?_
  -- the consequent must not take an else for its own: none follows where there is no alternate, and
  -- it takes none where there is one
  refine Reads.bind (hg.statement consequent hconsequent (by omega)) ?_ ?_
  · intro consequent' hconsequent'
    cases alternate with
    | none =>
      refine Reads.eat_ne (fun k hk => ?_) ?_
      · exact (endsBefore_unless consequent (by simp) (fun _ _ => rfl) hk).2
      · refine Reads.node fun _ => Tree.alike_node ?_
        simp only [Shape.map]
        rw [htest', hconsequent', Option.map_none]
    | some a =>
      simp only [Option.map_some, Option.elim_some, List.length_cons] at hlen ⊢
      refine Reads.eat_eq (Reads.bind_last (F := fun o => ∃ u, o = some u ∧ a.Alike u) (Reads.map
        ((hg.statement a (halternate a rfl) (by omega)).mono ?_ fun u hu => ⟨u, rfl, hu⟩)) ?_)
      · exact fun _ hk => endsBefore_last (fun _ _ => rfl) hk
      · rintro _ ⟨a', rfl, ha'⟩
        refine Reads.node fun _ => Tree.alike_node ?_
        simp only [Shape.map, Option.map_some]
        rw [htest', hconsequent', ha']
  · intro k hk
    cases alternate with
    | none => exact (endsBefore_unless consequent (by simp) (fun _ _ => rfl) hk).1
    | some a =>
      rintro k' - htakes he
      cases he
      rw [hclosed rfl] at htakes
      cases htakes

theorem whileStatement_reads {s : Span} {test body : Tree} (htest : test.Fits .expression)
    (hbody : body.Fits .statement)
    (hlen : ((Tree.node s (.whileStatement test body)).write .statement).length ≤ n) :
    Reads (whileStatement g) ((Tree.node s (.whileStatement test body)).write .statement)
      (Tree.node s (.whileStatement test body)).EndsBefore
      (Tree.Alike (.node s (.whileStatement test body))) := by
  simp only [Tree.write_node, Shape.map, Shape.write, Shape.writeStatement, List.length_cons,
    List.length_append] at hlen ⊢
  refine Reads.expectKeyword fun _ => ?_
  refine Reads.bind_any (condition_reads hg htest (by omega)) fun test' htest' => ?_
  refine last_reads hg (.whileStatement test) (.whileStatement test') hbody
    (by omega) (fun _ _ => rfl) fun body' hbody' => ?_
  simp only [Shape.map]
  rw [htest', hbody']

theorem doWhileStatement_reads {s : Span} {body test : Tree} (hbody : body.Fits .statement)
    (htest : test.Fits .expression)
    (hlen : ((Tree.node s (.doWhileStatement body test)).write .statement).length ≤ n) :
    Reads (doWhileStatement g) ((Tree.node s (.doWhileStatement body test)).write .statement) P
      (Tree.Alike (.node s (.doWhileStatement body test))) := by
  simp only [Tree.write_node, Shape.map, Shape.write, Shape.writeStatement, List.length_cons,
    List.length_append] at hlen ⊢
  refine Reads.expectKeyword fun _ => Reads.bind (hg.statement body hbody (by omega)) ?_ ?_
  · intro body' hbody'
    refine Reads.expectKeyword fun _ => ?_
    refine Reads.bind_any (condition_reads hg htest (by omega)) fun test' htest' => ?_
    refine Reads.eat_eq (Reads.node fun _ => Tree.alike_node ?_)
    simp only [Shape.map]
    rw [hbody', htest']
  · intro _ _
    exact BehindStatement.endsBefore (by simp [BehindStatement]) body

theorem expressionBefore_reads {p : Punct} {o : Option Tree} (h : ∀ e ∈ o, e.Fits .expression)
    (hlen : ((o.map Tree.write).elim [] (· .expression)).length < n)
    (hp : BehindExpression (.punct p)) (hne : p ≠ .parenOpen) :
    Reads (expressionBefore g p) ((o.map Tree.write).elim [] (· .expression)) (· = .punct p)
      fun o' => o'.map Tree.bare = o.map Tree.bare := by
  cases o with
  | none => exact Reads.at_true (fun _ hk => hk) (Reads.pure rfl)
  | some e =>
    refine Reads.at_false (fun k _ => ?_) (Reads.bind_last
      ((hg.assignment e (h e rfl) hlen).mono ?_ fun _ hu => hu) fun e' he' => ?_)
    · simp only [Option.map_some, Option.elim_some]
      rw [Tree.write_expression]
      exact fun he => hne (Token.Kind.punct.inj he).symm
    · rintro _ rfl
      exact hp
    · exact Reads.pure (congrArg some he')

theorem forRest_reads {start : Nat} {s : Span} {init init' test update : Option Tree} {body : Tree}
    (hinit : init'.map Tree.bare = init.map Tree.bare)
    (htest : ∀ e ∈ test, e.Fits .expression) (hupdate : ∀ e ∈ update, e.Fits .expression)
    (hbody : body.Fits .statement)
    (hlen : ((test.map Tree.write).elim [] (· .expression)).length +
      ((update.map Tree.write).elim [] (· .expression)).length +
        (body.write .statement).length < n) :
    Reads (do
      let _ ← Parser.expectPunct .semicolon
      let test ← expressionBefore g .semicolon
      let _ ← Parser.expectPunct .semicolon
      let update ← expressionBefore g .parenClose
      let _ ← Parser.expectPunct .parenClose
      let body ← g.statement
      node start (.forStatement init' test update body))
      (.punct .semicolon :: ((test.map Tree.write).elim [] (· .expression) ++
        .punct .semicolon :: ((update.map Tree.write).elim [] (· .expression) ++
          .punct .parenClose :: body.write .statement)))
      (Tree.node s (.forStatement init test update body)).EndsBefore
      (Tree.Alike (.node s (.forStatement init test update body))) := by
  refine Reads.expectPunct fun _ => Reads.bind (expressionBefore_reads hg htest (by omega)
    (by simp [BehindExpression]) (by simp)) (fun test' htest' => ?_) fun _ _ => rfl
  refine Reads.expectPunct fun _ => Reads.bind (expressionBefore_reads hg hupdate (by omega)
    (by simp [BehindExpression]) (by simp)) (fun update' hupdate' => ?_) fun _ _ => rfl
  refine Reads.expectPunct fun _ => last_reads hg (.forStatement init test update)
    (.forStatement init' test' update') hbody (by omega) (fun _ _ => rfl)
    fun body' hbody' => ?_
  simp only [Shape.map]
  rw [hinit, htest', hupdate', hbody']

omit hg in
theorem write_initial (h : t.Fits .expression) : t.write .initial = t.write .expression := by
  cases h with
  | identifier h =>
    cases h
    rw [Tree.write_node]
    rfl
  | function h =>
    cases h
    rw [Tree.write_node]
    rfl
  | _ =>
    rw [Tree.write_node]
    rfl

theorem initial_reads {init : Option Tree} (h : ∀ t ∈ init, t.Fits .initial)
    (hlen : ((init.map Tree.write).elim [] (· .initial)).length < n) {f : Option Tree → Parser Tree}
    {F : Tree → Prop} (hf : ∀ init', init'.map Tree.bare = init.map Tree.bare →
      Reads (f init') (.punct .semicolon :: ks) P F) :
    Reads (do
      if ← at? (.keyword .localKw) then some <$> variableList g .localVariable false >>= f
      else expressionBefore g .semicolon >>= f)
      ((init.map Tree.write).elim [] (· .initial) ++ .punct .semicolon :: ks) P F := by
  cases init with
  | none =>
    have hnone := expressionBefore_reads (o := none) (p := .semicolon) hg (by simp) hlen
      (by simp [BehindExpression]) (by simp)
    refine Reads.at_false (fun _ _ => by rintro ⟨⟩) ?_
    exact hnone.bind hf fun _ _ => rfl
  | some t =>
    simp only [Option.map_some, Option.elim_some] at hlen ⊢
    cases h t rfl with
    | ofExpression h =>
      rw [write_initial h] at hlen ⊢
      have hexpression := expressionBefore_reads (o := some t) (p := .semicolon) hg
        (fun e he => Option.mem_some.mp he ▸ h) hlen (by simp [BehindExpression]) (by simp)
      refine Reads.at_false (fun k _ => heads_expression (by simp) _ k) ?_
      exact hexpression.bind hf fun _ _ => rfl
    | initialVariables h =>
      have hwrite : t.write .initial = t.write .variables := by
        cases h
        rw [Tree.write_node]
        rfl
      rw [hwrite] at hlen ⊢
      have hvariables := variables_reads hg h (Nat.le_of_lt hlen)
      have hlocal (k : Token.Kind) :
          Heads (· = .keyword .localKw) (t.write .variables ++ .punct .semicolon :: ks) k := by
        cases h
        rw [Tree.write_node]
        rfl
      refine Reads.at_true (fun k _ => hlocal k) ?_
      refine Reads.bind (F := fun o => ∃ u, o = some u ∧ t.Alike u)
        (Reads.map (hvariables.mono (fun _ hk => hk) fun u hu => ⟨u, rfl, hu⟩)) ?_ fun _ _ => rfl
      rintro _ ⟨t', rfl, ht'⟩
      exact hf (some t') (congrArg some ht')

theorem forStatement_reads {s : Span} {init test update : Option Tree} {body : Tree}
    (hinit : ∀ t ∈ init, t.Fits .initial)
    (htest : ∀ e ∈ test, e.Fits .expression) (hupdate : ∀ e ∈ update, e.Fits .expression)
    (hbody : body.Fits .statement)
    (hlen : ((Tree.node s (.forStatement init test update body)).write .statement).length ≤ n) :
    Reads (forStatement g) ((Tree.node s (.forStatement init test update body)).write .statement)
      (Tree.node s (.forStatement init test update body)).EndsBefore
      (Tree.Alike (.node s (.forStatement init test update body))) := by
  simp only [Tree.write_node, Shape.map, Shape.write, Shape.writeStatement, Shape.enclosed,
    List.length_cons, List.length_append] at hlen ⊢
  simp only [List.append_assoc, List.cons_append, List.nil_append]
  refine Reads.expectKeyword fun _ => Reads.expectPunct fun _ => ?_
  exact initial_reads hg hinit (by omega) fun init' hinit' =>
    forRest_reads hg hinit' htest hupdate hbody (by omega)

theorem foreachStatement_reads {s : Span} {index : Option Tree} {value object body : Tree}
    (hindex : ∀ t ∈ index, t.Fits .name) (hvalue : value.Fits .name)
    (hobject : object.Fits .expression) (hbody : body.Fits .statement)
    (hlen : ((Tree.node s (.foreachStatement index value object body)).write .statement).length ≤ n) :
    Reads (foreachStatement g)
      ((Tree.node s (.foreachStatement index value object body)).write .statement)
      (Tree.node s (.foreachStatement index value object body)).EndsBefore
      (Tree.Alike (.node s (.foreachStatement index value object body))) := by
  have hrest (start : Nat) (index' : Option Tree) (value' : Tree)
      (hindex' : index'.map Tree.bare = index.map Tree.bare) (hvalue' : value.Alike value')
      (hlen : (object.write .expression).length + (body.write .statement).length < n) :
      Reads (do
        let _ ← Parser.expectKeyword .inKw
        let object ← g.assignment
        let _ ← Parser.expectPunct .parenClose
        let body ← g.statement
        node start (.foreachStatement index' value' object body))
        (.keyword .inKw :: (object.write .expression ++
          .punct .parenClose :: body.write .statement))
        (Tree.node s (.foreachStatement index value object body)).EndsBefore
        (Tree.Alike (.node s (.foreachStatement index value object body))) := by
    refine Reads.expectKeyword fun _ => Reads.bind (hg.assignment object hobject (by omega))
      (fun object' hobject' => ?_) fun _ _ => by simp [Heads, BehindExpression]
    refine Reads.expectPunct fun _ => last_reads hg (.foreachStatement index value object)
      (.foreachStatement index' value' object') hbody (by omega) (fun _ _ => rfl)
      fun body' hbody' => ?_
    simp only [Shape.map]
    rw [hindex', hvalue', hobject', hbody']
  simp only [Tree.write_node, Shape.map, Shape.write, Shape.writeStatement, Shape.enclosed,
    List.length_cons, List.length_append] at hlen ⊢
  simp only [List.append_assoc, List.cons_append, List.nil_append]
  refine Reads.expectKeyword fun _ => Reads.expectPunct fun _ => ?_
  cases index with
  | none =>
    simp only [Option.map_none, Option.elim_none, List.nil_append]
    refine Reads.bind_any (name_reads hvalue) fun value' hvalue' => ?_
    refine Reads.eat_ne (fun _ _ => by rintro ⟨⟩) ?_
    exact hrest _ none value' rfl hvalue' (by omega)
  | some i =>
    simp only [Option.map_some, Option.elim_some, List.append_assoc, List.cons_append,
      List.nil_append]
    refine Reads.bind_any (name_reads (hindex i rfl)) fun index' hindex' => Reads.eat_eq ?_
    refine Reads.bind_any (F := fun x => x.1 = some index' ∧ value.Alike x.2)
      (Reads.map ((name_reads hvalue).mono (fun _ hk => hk) fun u hu => ⟨rfl, hu⟩)) ?_
    rintro ⟨_, value'⟩ ⟨rfl, hvalue'⟩
    exact hrest _ (some index') value' (congrArg some hindex') hvalue' (by omega)

theorem tryStatement_reads {s : Span} {block : Tree} (hblock : block.Fits .statement)
    (hlen : ((Tree.node s (.tryStatement block none none)).write .statement).length ≤ n) :
    Reads (tryStatement g) ((Tree.node s (.tryStatement block none none)).write .statement)
      (Tree.node s (.tryStatement block none none)).EndsBefore
      (Tree.Alike (.node s (.tryStatement block none none))) := by
  simp only [Tree.write_node, Shape.map, Shape.write, Shape.writeStatement, Option.map_none,
    Option.elim_none, List.append_nil, List.length_cons] at hlen ⊢
  refine Reads.expectKeyword fun _ => Reads.bind_last
    ((hg.statement block hblock (by omega)).mono ?_ fun _ hu => hu) fun block' hblock' => ?_
  · exact fun k hk => (endsBefore_unless block (by simp) (fun _ _ => rfl) hk).1
  · refine Reads.eat_ne (fun k hk => ?_) (Reads.node fun _ => Tree.alike_node ?_)
    · exact (endsBefore_unless block (by simp) (fun _ _ => rfl) hk).2
    · simp only [Shape.map, Option.map_none]
      rw [hblock']

theorem catchStatement_reads {s : Span} {block param handler : Tree}
    (hblock : block.Fits .statement) (hclosed : block.takes .catchKw = false)
    (hparam : param.Fits .name) (hhandler : handler.Fits .statement)
    (hlen : ((Tree.node s (.tryStatement block (some param) (some handler))).write
      .statement).length ≤ n) :
    Reads (tryStatement g)
      ((Tree.node s (.tryStatement block (some param) (some handler))).write .statement)
      (Tree.node s (.tryStatement block (some param) (some handler))).EndsBefore
      (Tree.Alike (.node s (.tryStatement block (some param) (some handler)))) := by
  simp only [Tree.write_node, Shape.map, Shape.write, Shape.writeStatement, Option.map_some,
    Option.elim_some, Shape.enclosed, List.append_assoc, List.cons_append, List.nil_append,
    List.length_cons, List.length_append] at hlen ⊢
  refine Reads.expectKeyword fun _ => Reads.bind (hg.statement block hblock (by omega)) ?_ ?_
  · intro block' hblock'
    refine Reads.eat_eq (Reads.expectPunct fun _ => ?_)
    refine Reads.bind_any (name_reads hparam) fun param' hparam' => Reads.expectPunct fun _ => ?_
    refine last_reads hg (fun t => .tryStatement block (some param) (some t))
      (fun t => .tryStatement block' (some param') (some t)) hhandler (by omega)
      (fun _ _ => rfl) fun handler' hhandler' => ?_
    simp only [Shape.map, Option.map_some]
    rw [hblock', hparam', hhandler']
  · rintro _ - k' - htakes he
    cases he
    rw [hclosed] at htakes
    cases htakes

theorem throwStatement_reads {s : Span} {e : Tree} (h : e.Fits .expression)
    (hlen : ((Tree.node s (.throwStatement e)).write .statement).length ≤ n) :
    Reads (throwStatement g) ((Tree.node s (.throwStatement e)).write .statement) P
      (Tree.Alike (.node s (.throwStatement e))) := by
  simp only [Tree.write_node, Shape.map, Shape.write, Shape.writeStatement, List.length_cons,
    List.length_append] at hlen ⊢
  refine Reads.expectKeyword fun _ => Reads.bind (hg.assignment e h (by omega))
    (fun e' he' => ?_) fun _ _ => by simp [Heads, BehindExpression]
  exact Reads.eat_eq (Reads.node fun _ => Tree.alike_node (congrArg Shape.throwStatement he'))

theorem expressionStatement_reads {s : Span} {e : Tree} (h : e.Fits .expression)
    (hlen : ((Tree.node s (.expressionStatement e)).write .statement).length ≤ n) :
    Reads (expressionStatement g) ((Tree.node s (.expressionStatement e)).write .statement) P
      (Tree.Alike (.node s (.expressionStatement e))) := by
  simp only [Tree.write_node, Shape.map, Shape.write, Shape.writeStatement, List.length_cons,
    List.length_append] at hlen ⊢
  refine Reads.peek fun _ => Reads.bind (assignment_reads hg h (by omega)) (fun e' he' => ?_)
    fun _ _ => by simp [Heads, BehindExpression]
  exact Reads.eat_eq (Reads.node fun _ => Tree.alike_node (congrArg Shape.expressionStatement he'))

omit hg in
theorem jumpStatement_reads {shape : Shape Tree} {s : Span} :
    Reads (jumpStatement shape) [k, .punct .semicolon] P (Tree.Alike (.node s shape)) :=
  Reads.advance fun _ _ => Reads.eat_eq (Reads.node fun _ => Tree.alike_node rfl)

omit hg in
theorem head_reads {f : Token → Parser Tree} (hhead : ∀ k', Heads (· = k) (t.write .statement) k')
    (h : ∀ t' : Token, t'.kind = k → Reads (f t') (t.write .statement) P t.Alike) :
    Reads (peek >>= f) (t.write .statement) P t.Alike :=
  Reads.peek_heads (Q := (· = k)) (fun k' _ => hhead k') h

omit hg in
theorem keyword_reads {s : Span} {shape : Shape Tree} (k : Keyword) {f : Token → Parser Tree}
    {production : Nat → Parser Tree}
    (hhead : ∀ k', Heads (· = .keyword k) ((shape.map Tree.write).write .statement) k')
    (h : ∀ start, Reads (production start) ((Tree.node s shape).write .statement) P
      (Tree.Alike (.node s shape)))
    (hf : ∀ t' : Token, t'.kind = .keyword k → f t' = production t'.span.start) :
    Reads (peek >>= f) ((Tree.node s shape).write .statement) P (Tree.Alike (.node s shape)) :=
  head_reads (by rw [Tree.write_node]; exact hhead) fun t' ht' => hf t' ht' ▸ h t'.span.start

theorem statement_reads_block (h : t.Fits .block) (hlen : (t.write .statement).length ≤ n) :
    Reads (statement g) (t.write .statement) P t.Alike := by
  have hwrite : t.write .statement = t.write .block := by
    cases h
    rw [Tree.write_node]
    rfl
  refine head_reads (k := .punct .braceOpen) (fun k => ?_) fun t' ht' => ?_
  · cases h
    rw [Tree.write_node]
    rfl
  · simp only [ht']
    rw [hwrite] at hlen ⊢
    exact block_reads hg h hlen

theorem statement_reads_variables (h : t.Fits .variables)
    (hlen : (t.write .statement).length ≤ n) :
    Reads (statement g) (t.write .statement) P t.Alike := by
  cases h with
  | localVariables hne hds =>
    exact keyword_reads .localKw (fun _ => rfl) (fun _ => localVariables_reads hg hne hds hlen)
      fun t' ht' => by simp only [ht']

theorem statement_reads_expression {s : Span} {e : Tree} (h : e.Fits .expression)
    (hlen : ((Tree.node s (.expressionStatement e)).write .statement).length ≤ n) :
    Reads (statement g) ((Tree.node s (.expressionStatement e)).write .statement) P
      (Tree.Alike (.node s (.expressionStatement e))) := by
  refine head_reads (k := .punct .parenOpen) (fun k => ?_) fun t' ht' => ?_
  · rw [Tree.write_node]
    exact heads_expression (P := (· = .punct .parenOpen)) rfl _ k
  · simp only [ht']
    exact expressionStatement_reads hg h hlen

omit hg in
theorem statement_reads_jump {s : Span} {shape : Shape Tree}
    (hshape : shape = .breakStatement ∨ shape = .continueStatement) :
    Reads (statement g) ((Tree.node s shape).write .statement) P (Tree.Alike (.node s shape)) := by
  rcases hshape with rfl | rfl
  all_goals
    rw [Tree.write_node]
    refine Reads.peek_cons fun t' ht' => ?_
    simp only [ht']
    exact jumpStatement_reads

theorem statement_reads (h : t.Fits .statement) (hlen : (t.write .statement).length ≤ n) :
    Reads (statement g) (t.write .statement) t.EndsBefore t.Alike := by
  cases h with
  | ofBlock h => exact statement_reads_block hg h hlen
  | ofVariables h => exact statement_reads_variables hg h hlen
  | expressionStatement h => exact statement_reads_expression hg h hlen
  | breakStatement => exact statement_reads_jump (.inl rfl)
  | continueStatement => exact statement_reads_jump (.inr rfl)
  | constant h =>
    exact keyword_reads .constKw (fun _ => rfl) (fun _ => constant_reads hg h hlen)
      fun t' ht' => by simp only [ht']
  | returnStatement h =>
    exact keyword_reads .returnKw (fun _ => rfl) (fun _ => returnStatement_reads hg h hlen)
      fun t' ht' => by simp only [ht']
  | ifStatement htest hconsequent halternate hclosed =>
    exact keyword_reads .ifKw (fun _ => rfl)
      (fun _ => ifStatement_reads hg htest hconsequent halternate hclosed hlen)
      fun t' ht' => by simp only [ht']
  | whileStatement htest hbody =>
    exact keyword_reads .whileKw (fun _ => rfl) (fun _ => whileStatement_reads hg htest hbody hlen)
      fun t' ht' => by simp only [ht']
  | doWhileStatement hbody htest =>
    exact keyword_reads .doKw (fun _ => rfl) (fun _ => doWhileStatement_reads hg hbody htest hlen)
      fun t' ht' => by simp only [ht']
  | forStatement hinit htest hupdate hbody =>
    exact keyword_reads .forKw (fun _ => rfl)
      (fun _ => forStatement_reads hg hinit htest hupdate hbody hlen)
      fun t' ht' => by simp only [ht']
  | foreachStatement hindex hvalue hobject hbody =>
    exact keyword_reads .foreachKw (fun _ => rfl)
      (fun _ => foreachStatement_reads hg hindex hvalue hobject hbody hlen)
      fun t' ht' => by simp only [ht']
  | tryStatement hblock =>
    exact keyword_reads .tryKw (fun _ => rfl) (fun _ => tryStatement_reads hg hblock hlen)
      fun t' ht' => by simp only [ht']
  | catchStatement hblock hclosed hparam hhandler =>
    exact keyword_reads .tryKw (fun _ => rfl)
      (fun _ => catchStatement_reads hg hblock hclosed hparam hhandler hlen)
      fun t' ht' => by simp only [ht']
  | throwStatement h =>
    exact keyword_reads .throwKw (fun _ => rfl) (fun _ => throwStatement_reads hg h hlen)
      fun t' ht' => by simp only [ht']
  | functionDeclaration hqualifier hid hparams hbody =>
    exact keyword_reads .functionKw (fun _ => rfl)
      (fun start => functionDeclaration_reads hg start hqualifier hid hparams hbody hlen)
      fun t' ht' => by simp only [ht']
  | classDeclaration hqualifier hid hsuperclass hbody =>
    exact keyword_reads .classKw (fun _ => rfl)
      (fun _ => classDeclaration_reads hg hqualifier hid hsuperclass hbody hlen)
      fun t' ht' => by simp only [ht']
  | enumDeclaration hid hmembers =>
    exact keyword_reads .enumKw (fun _ => rfl)
      (fun _ => enumDeclaration_reads hg hid hmembers hlen) fun t' ht' => by simp only [ht']

end

end Parser

theorem Grammar.rereads_ofDepth (n : Nat) : (ofDepth n).Rereads n := by
  -- a production writes a token of its own, so what it leaves to the grammar below is shorter
  induction n with
  | zero => exact ⟨nofun, nofun, nofun, nofun, nofun⟩
  | succ n ih =>
    exact {
      statement := fun t h hlen => Parser.statement_reads ih h (Nat.le_of_lt_succ hlen)
      inner := fun t h hlen => Parser.inner_reads ih h (Nat.le_of_lt_succ hlen)
      assignment := fun t h hlen => Parser.assignment_reads ih h (Nat.le_of_lt_succ hlen)
      binary := fun t least h hlen => Parser.binary_reads ih least h (Nat.le_of_lt_succ hlen)
        fun _ hk => ⟨hk.behindOperand, hk.no_operator.1⟩
      unary := fun t h hlen => Parser.unary_reads ih h (Nat.le_of_lt_succ hlen) fun _ hk => hk }

namespace Parser

open Token.Kind

theorem statements_reads {g : Grammar} {n : Nat} (hg : g.Rereads n) {body : List Tree}
    (h : ∀ t ∈ body, t.Fits .statement) (hlen : ∀ t ∈ body, (t.write .statement).length < n) :
    Reads (statements g) (body.flatMap (·.write .statement)) (· = .endOfFile) (AllAlike body) := by
  have hheads (t : Tree) (ht : t ∈ body) (k : Token.Kind) := heads_statement (h t ht) k
  -- no further semicolons are printed between statements
  have htokens : body.flatMap (·.write .statement) =
      body.flatMap (fun t => t.write .statement ++ []) ++ [] := by simp
  rw [htokens]
  refine Reads.many (Q := BehindStatement) ?_ ?_ ?_ ?_ ?_
  · intro t ht lead hlead
    obtain rfl : lead = [] := or_self_iff.mp hlead
    refine Reads.skip_none (fun k _ => (hheads t ht k).imp fun _ hk => hk.no_separator) ?_
    refine Reads.at_false (fun k _ => (hheads t ht k).imp fun _ hk => hk.no_end.2) ?_
    refine Reads.bind_last ((hg.statement t (h t ht) (hlen t ht)).mono
      (fun _ hk => hk.endsBefore t) fun _ hu => hu) fun u hu => ?_
    exact Reads.pure ⟨u, rfl, hu⟩
  · intro lead hlead
    obtain rfl : lead = [] := or_self_iff.mp hlead
    refine Reads.skip_none ?_ (Reads.at_true (fun _ hk => hk) (Reads.pure rfl))
    rintro _ rfl
    exact nofun
  · exact fun t ht k => (hheads t ht k).imp fun _ hk => hk.behindStatement
  · rintro _ rfl
    simp [BehindStatement, Heads]
  · exact fun t ht => Heads.ne_nil (hheads t ht) (k := .endOfFile) (by simp [StartsStatement])

theorem sourceFile_reads {body : List Tree} {tokens : List Token} (size : Nat)
    (h : ∀ t ∈ body, t.Fits .statement)
    (htokens : Token.OneLine (body.flatMap (·.write .statement) ++ [.endOfFile]) tokens) :
    ∃ body', sourceFile tokens size = .ok (.node ⟨0, size⟩ (.sourceFile body')) ∧
      AllAlike body body' := by
  have hlength := congrArg List.length htokens
  simp only [List.length_map, List.length_append, List.length_singleton] at hlength
  cases tokens with
  | nil => cases hlength
  | cons next later =>
    have hlen (t : Tree) (ht : t ∈ body) : (t.write .statement).length < later.length + 2 := by
      have hmem := (List.sublist_flatten_of_mem
        (List.mem_map_of_mem (f := fun t => t.write .statement) ht)).length_le
      rw [← List.flatMap_def] at hmem
      simp only [List.length_cons] at hlength
      omega
    obtain ⟨body', c, hrun, halike, -⟩ := statements_reads (Grammar.rereads_ofDepth _) h hlen
      ⟨next, later, 0⟩ .endOfFile [] rfl htokens
    refine ⟨body', ?_, halike⟩
    simp only [sourceFile]
    rw [hrun]

end Parser

end SquirrelAnalyzer
