import SquirrelAnalyzer.Parser.Statement

namespace SquirrelAnalyzer

inductive Tree where
  | node (span : Span) (shape : Shape Tree)

instance : Inhabited Tree := ⟨.node default .restElement⟩

namespace Tree

def span : Tree → Span
  | node span _ => span

def shape : Tree → Shape Tree
  | node _ shape => shape

def start (t : Tree) : Nat := t.span.start

variable {α : Type}

mutual

def fold (step : Span → Shape α → α) : Tree → α
  | node span shape => step span (foldShape step shape)

def foldShape (step : Span → Shape α → α) : Shape Tree → Shape α
  | .sourceFile body => .sourceFile (foldList step body)
  | .blockStatement body => .blockStatement (foldList step body)
  | .expressionStatement e => .expressionStatement (fold step e)
  | .returnStatement a => .returnStatement (foldOption step a)
  | .ifStatement t c a => .ifStatement (fold step t) (fold step c) (foldOption step a)
  | .whileStatement t b => .whileStatement (fold step t) (fold step b)
  | .doWhileStatement b t => .doWhileStatement (fold step b) (fold step t)
  | .forStatement i t u b =>
    .forStatement (foldOption step i) (foldOption step t) (foldOption step u) (fold step b)
  | .foreachStatement i v o b =>
    .foreachStatement (foldOption step i) (fold step v) (fold step o) (fold step b)
  | .tryStatement b p h => .tryStatement (fold step b) (foldOption step p) (foldOption step h)
  | .throwStatement a => .throwStatement (fold step a)
  | .breakStatement => .breakStatement
  | .continueStatement => .continueStatement
  | .variableDeclaration k ds => .variableDeclaration k (foldList step ds)
  | .variableDeclarator i v => .variableDeclarator (fold step i) (foldOption step v)
  | .functionDeclaration q i ps b =>
    .functionDeclaration (foldOption step q) (fold step i) (foldList step ps) (fold step b)
  | .classDeclaration q i s b =>
    .classDeclaration (foldOption step q) (fold step i) (foldOption step s) (fold step b)
  | .enumDeclaration i ms => .enumDeclaration (fold step i) (foldList step ms)
  | .classBody body => .classBody (foldList step body)
  | .methodDefinition k s key v => .methodDefinition k s (fold step key) (fold step v)
  | .propertyDefinition s c key v => .propertyDefinition s c (fold step key) (foldOption step v)
  | .enumMember i v => .enumMember (fold step i) (foldOption step v)
  | .metaProperty key => .metaProperty (fold step key)
  | .identifier name => .identifier name
  | .literal value => .literal value
  | .tableExpression ps => .tableExpression (foldList step ps)
  | .arrayExpression es => .arrayExpression (foldList step es)
  | .functionExpression ps b => .functionExpression (foldList step ps) (fold step b)
  | .lambdaExpression ps b => .lambdaExpression (foldList step ps) (fold step b)
  | .classExpression s b => .classExpression (foldOption step s) (fold step b)
  | .callExpression c as => .callExpression (fold step c) (foldList step as)
  | .memberExpression o p c => .memberExpression (fold step o) (fold step p) c
  | .thisExpression => .thisExpression
  | .baseExpression => .baseExpression
  | .rootExpression p => .rootExpression (fold step p)
  | .assignmentExpression op l r => .assignmentExpression op (fold step l) (fold step r)
  | .binaryExpression op l r => .binaryExpression op (fold step l) (fold step r)
  | .unaryExpression op p a => .unaryExpression op p (fold step a)
  | .conditionalExpression t c a =>
    .conditionalExpression (fold step t) (fold step c) (fold step a)
  | .yieldExpression a => .yieldExpression (foldOption step a)
  | .assignmentPattern l r => .assignmentPattern (fold step l) (fold step r)
  | .restElement => .restElement

def foldList (step : Span → Shape α → α) : List Tree → List α
  | [] => []
  | t :: ts => fold step t :: foldList step ts

def foldOption (step : Span → Shape α → α) : Option Tree → Option α
  | none => none
  | some t => some (fold step t)

end

theorem foldList_eq_map (step : Span → Shape α → α) (ts : List Tree) :
    foldList step ts = ts.map (fold step) := by
  induction ts with
  | nil => simp [foldList]
  | cons t ts ih => simp [foldList, ih]

theorem foldOption_eq_map (step : Span → Shape α → α) (t : Option Tree) :
    foldOption step t = t.map (fold step) := by
  cases t <;> simp [foldOption]

end Tree

abbrev Parser := StateT Cursor (Except ParseFault)

instance : Sink Parser Tree where
  add span shape := return .node span shape
  start t := return t.start

abbrev Grammar := Productions Parser Tree

abbrev Grammar.ofDepth : Nat → Grammar := Productions.ofDepth

namespace Parser

def sourceFile (tokens : List Token) (size : Nat) : Except ParseFault Tree :=
  match tokens with
  | [] => .ok (.node ⟨0, size⟩ (.sourceFile []))
  | t :: ts =>
    match (statements (Grammar.ofDepth (ts.length + 2))).run ⟨t, ts, 0⟩ with
    | .ok (body, _) => .ok (.node ⟨0, size⟩ (.sourceFile body))
    | .error f => .error f

end Parser

end SquirrelAnalyzer
