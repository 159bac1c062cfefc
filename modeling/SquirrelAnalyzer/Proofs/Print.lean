import SquirrelAnalyzer.Proofs.Readable
import SquirrelAnalyzer.Proofs.Shape

namespace SquirrelAnalyzer

def BinaryOperator.token : BinaryOperator → Token.Kind
  | or => .punct .logicalOr
  | and => .punct .logicalAnd
  | bitOr => .punct .bar
  | bitXor => .punct .caret
  | bitAnd => .punct .ampersand
  | eq => .punct .equal
  | ne => .punct .notEqual
  | cmp => .punct .compare
  | lt => .punct .less
  | le => .punct .lessEqual
  | gt => .punct .greater
  | ge => .punct .greaterEqual
  | .in => .keyword .inKw
  | instanceOf => .keyword .instanceofKw
  | shl => .punct .shiftLeft
  | shr => .punct .shiftRight
  | uShr => .punct .unsignedShiftRight
  | add => .punct .plus
  | sub => .punct .minus
  | mul => .punct .star
  | div => .punct .slash
  | mod => .punct .percent

def UnaryOperator.token : UnaryOperator → Token.Kind
  | neg => .punct .minus
  | not => .punct .bang
  | bitNot => .punct .tilde
  | typeOf => .keyword .typeofKw
  | clone => .keyword .cloneKw
  | delete => .keyword .deleteKw
  | resume => .keyword .resumeKw
  | increment => .punct .increment
  | decrement => .punct .decrement

def AssignmentOperator.token : AssignmentOperator → Token.Kind
  | assign => .punct .assign
  | newSlot => .punct .newSlot
  | add => .punct .addAssign
  | sub => .punct .subAssign
  | mul => .punct .mulAssign
  | div => .punct .divAssign
  | mod => .punct .modAssign

def VariableKind.token : VariableKind → Token.Kind
  | localVariable => .keyword .localKw
  | constant => .keyword .constKw

def Literal.token : Literal → Token.Kind
  | integer n => .integer n
  | float bits => .float bits
  | string text => .string text
  | bool true => .keyword .trueKw
  | bool false => .keyword .falseKw
  | null => .keyword .nullKw

theorem BinaryOperator.ofToken?_token (op : BinaryOperator) : ofToken? op.token = some op := by
  cases op <;> rfl

theorem UnaryOperator.leading?_token (op : UnaryOperator) : leading? op.token = some op := by
  cases op <;> rfl

theorem AssignmentOperator.ofToken?_token (op : AssignmentOperator) :
    ofToken? op.token = some op := by
  cases op <;> rfl

theorem Literal.ofToken?_token (value : Literal) : ofToken? value.token = some value := by
  cases value with
  | bool b => cases b <;> rfl
  | _ => rfl

theorem Literal.token_eq {k : Token.Kind} {value : Literal} (h : ofToken? k = some value) :
    value.token = k := by
  cases k with
  | keyword k =>
    cases k <;> cases h <;> rfl
  | _ => cases h <;> rfl

def Token.nameKind (name : String) : Token.Kind :=
  match Keyword.ofWord? name.toList with
  | some k => .keyword k
  | none => .identifier name

theorem Token.nameKind_text (k : Keyword) : nameKind k.text = .keyword k := by
  simp [nameKind, Keyword.ofWord?_text]

theorem Token.nameKind_ne {name : String} {k : Keyword} (h : name ≠ k.text) :
    nameKind name ≠ .keyword k := by
  intro he
  unfold nameKind at he
  split at he
  · next hword =>
    cases he
    have htext := List.find?_some (p := fun k : Keyword => decide (k.text.toList = name.toList)) hword
    exact h (String.toList_inj.mp (of_decide_eq_true htext)).symm
  · cases he

theorem Token.Kind.Readable.nameKind_eq {name : String} (h : Readable (.identifier name)) :
    nameKind name = .identifier name := by
  obtain ⟨cs, hcs⟩ := h
  obtain ⟨c, rest, -, -, -, hname, hword⟩ := scan_identifier hcs
  have htext : name.toList = cs.takeWhile Text.isWordPart := by rw [hname, String.toList_ofList]
  simp [nameKind, htext, hword]

abbrev Writing := Tree.Role → List Token.Kind

namespace Shape

def enclosed (ks : List Token.Kind) : List Token.Kind :=
  .punct .parenOpen :: (ks ++ [.punct .parenClose])

def commas (l : List (List Token.Kind)) : List Token.Kind := List.intercalate [.punct .comma] l

def parameters (params : List Writing) : List Token.Kind :=
  enclosed (commas (params.map (· .parameter)))

def braced (separator : List Token.Kind) (items : List (List Token.Kind)) : List Token.Kind :=
  .punct .braceOpen :: (items.flatMap (· ++ separator) ++ [.punct .braceClose])

def initializer (init : Option Writing) : List Token.Kind :=
  init.elim [] fun e => .punct .assign :: e .expression

def superclass (s : Option Writing) : List Token.Kind :=
  s.elim [] fun e => .keyword .extendsKw :: e .expression

def qualified (separator : Punct) (qualifier : Option Writing) (id : Writing) : List Token.Kind :=
  (qualifier.elim [] (· .owner)).flatMap (fun k => [k, .punct separator]) ++ id .name

def writeExpression : Shape Writing → List Token.Kind
  | identifier name => [Token.nameKind name]
  | literal value => [value.token]
  | tableExpression ps => braced [.punct .comma] (ps.map (· .slot))
  | arrayExpression es =>
    .punct .bracketOpen :: (commas (es.map (· .expression)) ++ [.punct .bracketClose])
  | functionExpression ps b => .keyword .functionKw :: (parameters ps ++ b .block)
  | lambdaExpression ps b => .punct .atSign :: (parameters ps ++ b .expression)
  | classExpression s b => .keyword .classKw :: (superclass s ++ b .classBody)
  | callExpression c as => c .expression ++ enclosed (commas (as.map (· .expression)))
  | memberExpression o p false => o .expression ++ .punct .dot :: p .property
  | memberExpression o p true =>
    o .expression ++ .punct .bracketOpen :: (p .expression ++ [.punct .bracketClose])
  | thisExpression => [.keyword .thisKw]
  | baseExpression => [.keyword .baseKw]
  | rootExpression p => .punct .scope :: p .property
  | assignmentExpression op l r => l .expression ++ op.token :: r .expression
  | binaryExpression op l r => l .expression ++ op.token :: r .expression
  | unaryExpression op true a => op.token :: a .expression
  | unaryExpression op false a => a .expression ++ [op.token]
  | conditionalExpression t c a =>
    t .expression ++ .punct .question :: (c .expression ++ .punct .colon :: a .expression)
  | yieldExpression a => .keyword .yieldKw :: a.elim [] (· .expression)
  | _ => []

def writePart : Shape Writing → List Token.Kind
  | blockStatement body => braced [] (body.map (· .statement))
  | variableDeclaration kind ds => kind.token :: commas (ds.map (· .declarator))
  | variableDeclarator id init => id .name ++ initializer init
  | enumMember id init => id .name ++ initializer init
  | classBody body => braced [.punct .semicolon] (body.map (· .classMember))
  | methodDefinition kind isStatic key value =>
    (if isStatic then [.keyword .staticKw] else []) ++ match kind with
      | .constructor => key .property ++ value .method
      | .method => .keyword .functionKw :: (key .name ++ value .method)
  | propertyDefinition isStatic computed key value =>
    (if isStatic then [.keyword .staticKw] else []) ++
      (if computed then .punct .bracketOpen :: (key .expression ++ [.punct .bracketClose])
        else key .property) ++ initializer value
  | functionExpression ps b => parameters ps ++ b .block
  | assignmentPattern l r => l .name ++ .punct .assign :: r .expression
  | restElement => [.punct .ellipsis]
  | identifier name => [Token.nameKind name]
  | memberExpression o p _ => o .owner ++ p .name
  | _ => []

def writeStatement : Shape Writing → List Token.Kind
  | sourceFile body => body.flatMap (· .statement)
  | blockStatement body => braced [] (body.map (· .statement))
  | expressionStatement e => e .expression ++ [.punct .semicolon]
  | returnStatement a => .keyword .returnKw :: (a.elim [] (· .expression) ++ [.punct .semicolon])
  | ifStatement t c a => .keyword .ifKw :: (enclosed (t .expression) ++ (c .statement ++
      a.elim [] fun s => .keyword .elseKw :: s .statement))
  | whileStatement t b => .keyword .whileKw :: (enclosed (t .expression) ++ b .statement)
  | doWhileStatement b t => .keyword .doKw :: (b .statement ++
      .keyword .whileKw :: (enclosed (t .expression) ++ [.punct .semicolon]))
  | forStatement i t u b => .keyword .forKw :: (enclosed (i.elim [] (· .initial) ++
      .punct .semicolon :: (t.elim [] (· .expression) ++
        .punct .semicolon :: u.elim [] (· .expression))) ++ b .statement)
  | foreachStatement i v o b => .keyword .foreachKw :: (enclosed (
      i.elim [] (fun n => n .name ++ [.punct .comma]) ++ (v .name ++
        .keyword .inKw :: o .expression)) ++ b .statement)
  | tryStatement b p h => .keyword .tryKw :: (b .statement ++
      p.elim [] (fun n => .keyword .catchKw :: enclosed (n .name)) ++ h.elim [] (· .statement))
  | throwStatement a => .keyword .throwKw :: (a .expression ++ [.punct .semicolon])
  | breakStatement => [.keyword .breakKw, .punct .semicolon]
  | continueStatement => [.keyword .continueKw, .punct .semicolon]
  | variableDeclaration kind ds =>
    kind.token :: (commas (ds.map (· .declarator)) ++ [.punct .semicolon])
  | functionDeclaration q i ps b =>
    .keyword .functionKw :: (qualified .scope q i ++ (parameters ps ++ b .block))
  | classDeclaration q i s b =>
    .keyword .classKw :: (qualified .dot q i ++ (superclass s ++ b .classBody))
  | enumDeclaration i ms =>
    .keyword .enumKw :: (i .name ++ braced [.punct .comma] (ms.map (· .enumMember)))
  | _ => []

def write (s : Shape Writing) : Writing
  | .statement => s.writeStatement
  | .expression => enclosed s.writeExpression
  | .initial => match s with
    | variableDeclaration .. => s.writePart
    | _ => enclosed s.writeExpression
  | _ => s.writePart

end Shape

def Tree.write (t : Tree) : Writing := t.fold fun _ shape => shape.write

theorem Tree.write_node (s : Span) (shape : Shape Tree) :
    (Tree.node s shape).write = (shape.map Tree.write).write := Tree.fold_node _ s shape

def Tree.inner (t : Tree) : List Token.Kind := (t.shape.map Tree.write).writeExpression

theorem Tree.write_expression (t : Tree) : t.write .expression = Shape.enclosed t.inner := by
  obtain ⟨s, shape⟩ := t
  rw [write_node]
  rfl

def Token.Kind.Printable (k : Token.Kind) : Prop := k.Readable ∧ k ≠ .endOfFile

@[simp] theorem Punct.printable (p : Punct) : Token.Kind.Printable (.punct p) := by
  have h : ∀ p ∈ all, (Token.scan p.text.toList).outcome = .ok (.punct p) := by decide +kernel
  exact ⟨⟨_, h p (mem_all p)⟩, nofun⟩

@[simp] theorem Keyword.printable (k : Keyword) : Token.Kind.Printable (.keyword k) := by
  have h : ∀ k ∈ all, (Token.scan k.text.toList).outcome = .ok (.keyword k) := by decide +kernel
  exact ⟨⟨_, h k (mem_all k)⟩, nofun⟩

@[simp] theorem BinaryOperator.printable (op : BinaryOperator) : op.token.Printable := by
  cases op <;> simp [token]

@[simp] theorem UnaryOperator.printable (op : UnaryOperator) : op.token.Printable := by
  cases op <;> simp [token]

@[simp] theorem AssignmentOperator.printable (op : AssignmentOperator) : op.token.Printable := by
  cases op <;> simp [token]

@[simp] theorem VariableKind.printable (kind : VariableKind) : kind.token.Printable := by
  cases kind <;> simp [token]

def Token.Printable (ks : List Token.Kind) : Prop := ∀ k ∈ ks, k.Printable

namespace Token

variable {k : Kind} {ks ks' : List Kind}

@[simp] theorem printable_nil : Printable [] := nofun

@[simp] theorem printable_cons : Printable (k :: ks) ↔ k.Printable ∧ Printable ks :=
  List.forall_mem_cons

@[simp] theorem printable_append : Printable (ks ++ ks') ↔ Printable ks ∧ Printable ks' :=
  List.forall_mem_append

@[simp] theorem printable_flatMap {α : Type} {l : List α} {f : α → List Kind} :
    Printable (l.flatMap f) ↔ ∀ x ∈ l, Printable (f x) := by
  induction l <;> simp_all

@[simp] theorem printable_elim {α : Type} {o : Option α} {f : α → List Kind} :
    Printable (o.elim [] f) ↔ ∀ x ∈ o, Printable (f x) := by
  cases o <;> simp

end Token

namespace Shape

open Token

theorem commas_cons_cons (l l' : List Token.Kind) (ls : List (List Token.Kind)) :
    commas (l :: l' :: ls) = l ++ .punct .comma :: commas (l' :: ls) := by
  simp [commas, List.intercalate, List.intersperse]

@[simp] theorem printable_commas {ls : List (List Token.Kind)} :
    Printable (commas ls) ↔ ∀ l ∈ ls, Printable l := by
  induction ls with
  | nil => simp [commas, List.intercalate]
  | cons l ls ih =>
    cases ls with
    | nil => simp [commas, List.intercalate]
    | cons l' ls => simp [commas_cons_cons, ih]

@[simp] theorem printable_enclosed {ks : List Token.Kind} :
    Printable (enclosed ks) ↔ Printable ks := by
  simp [enclosed]

@[simp] theorem printable_braced {separator : List Token.Kind} (h : Printable separator)
    {items : List (List Token.Kind)} :
    Printable (braced separator items) ↔ ∀ l ∈ items, Printable l := by
  simp [braced, h]

@[simp] theorem printable_qualified {separator : Punct} {qualifier : Option Writing}
    {id : Writing} :
    Printable (qualified separator qualifier id) ↔
      (∀ w ∈ qualifier, Printable (w .owner)) ∧ Printable (id .name) := by
  have hpair (k : Token.Kind) : Printable [k, .punct separator] ↔ k.Printable := by simp
  rw [qualified, printable_append, printable_flatMap, ← printable_elim]
  simp only [hpair]
  rfl

def ownTokens {α : Type} : Shape α → List Token.Kind
  | identifier name => [nameKind name]
  | literal value => [value.token]
  | _ => []

variable {s : Shape Writing}

theorem printable_writeExpression (hown : Printable s.ownTokens)
    (h : ∀ w ∈ s.children .full, ∀ r, Printable (w r)) : Printable s.writeExpression := by
  unfold writeExpression
  split <;>
    simp only [children, kind, Kind.fields, field, List.flatMap_cons, List.flatMap_nil,
      List.append_nil, List.forall_mem_append, List.forall_mem_singleton] at h <;>
    simp_all [ownTokens, parameters, superclass]

theorem printable_writePart (hown : Printable s.ownTokens)
    (h : ∀ w ∈ s.children .full, ∀ r, Printable (w r)) : Printable s.writePart := by
  unfold writePart
  split <;>
    simp only [children, kind, Kind.fields, field, List.flatMap_cons, List.flatMap_nil,
      List.append_nil, List.forall_mem_append, List.forall_mem_singleton] at h <;>
    simp_all [ownTokens, parameters, initializer]
  all_goals repeat split <;> simp_all

theorem printable_writeStatement (hown : Printable s.ownTokens)
    (h : ∀ w ∈ s.children .full, ∀ r, Printable (w r)) : Printable s.writeStatement := by
  unfold writeStatement
  split <;>
    simp only [children, kind, Kind.fields, field, List.flatMap_cons, List.flatMap_nil,
      List.append_nil, List.forall_mem_append, List.forall_mem_singleton] at h <;>
    simp_all [ownTokens, parameters, superclass]

theorem printable_write (hown : Printable s.ownTokens)
    (h : ∀ w ∈ s.children .full, ∀ r, Printable (w r)) (r : Tree.Role) : Printable (s.write r) := by
  have hexpression : Printable (enclosed s.writeExpression) := by
    rw [printable_enclosed]
    exact printable_writeExpression hown h
  have hpart := printable_writePart hown h
  unfold write
  split
  · exact printable_writeStatement hown h
  · exact hexpression
  · split
    · exact hpart
    · exact hexpression
  · exact hpart

end Shape

namespace Tree

theorem printable_write {s : Span} {shape : Shape Tree} (hown : Token.Printable shape.ownTokens)
    (h : ∀ c ∈ shape.children .full, ∀ r, Token.Printable (c.write r)) (r : Role) :
    Token.Printable ((node s shape).write r) := by
  rw [write_node]
  refine Shape.printable_write ?_ ?_ r
  · cases shape <;> exact hown
  · simpa [Shape.children_map] using h

theorem Fits.printable {t : Tree} {r : Role} (h : t.Fits r) (r' : Role) :
    Token.Printable (t.write r') := by
  have hkeyword (s : Span) (k : Keyword) (r : Role) :
      Token.Printable ((node s (.identifier k.text)).write r) :=
    printable_write (by simp [Shape.ownTokens, Token.nameKind_text])
      (by simp [Shape.children, Shape.kind, Kind.fields]) r
  induction h generalizing r'
  case ofBlock ih => exact ih r'
  case ofVariables ih => exact ih r'
  case ofExpression ih => exact ih r'
  case initialVariables ih => exact ih r'
  case ofName ih => exact ih r'
  case propertyName ih => exact ih r'
  case ownerName ih => exact ih r'
  case identifier ih => exact ih r'
  case function ih => exact ih r'
  case keyword s k => exact hkeyword s k r'
  all_goals refine printable_write ?_ ?_ r'
  case name.refine_1 h => simpa [Shape.ownTokens, h.nameKind_eq] using ⟨h, by simp⟩
  case literal.refine_1 k value h hvalue =>
    have hne : k ≠ .endOfFile := by
      rintro rfl
      cases hvalue
    simpa [Shape.ownTokens, Literal.token_eq hvalue] using ⟨h, hne⟩
  all_goals
    simp_all [Shape.children, Shape.kind, Kind.fields, Shape.field, Shape.ownTokens, or_imp]

end Tree

/-- For every token a text that is read as this token. -/
structure Spelling where
  text : Token.Kind → List Char
  reads : ∀ k, k.Readable → k ≠ .endOfFile → Token.scan (text k) = ⟨.ok k, text k, []⟩

def Spelling.spell (sp : Spelling) (ks : List Token.Kind) : List Char :=
  ks.flatMap fun k => sp.text k ++ [' ']

def Tree.print (sp : Spelling) (t : Tree) : String := String.ofList (sp.spell (t.write .statement))

end SquirrelAnalyzer
