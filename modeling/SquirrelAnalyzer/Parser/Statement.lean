import SquirrelAnalyzer.Parser.Expression

namespace SquirrelAnalyzer

namespace Parser

variable {m : Type → Type} {χ : Type} [Monad m] [MonadStateOf Cursor m]
  [MonadExceptOf ParseFault m] [Sink m χ] (g : Productions m χ)

def condition : m χ := do
  let _ ← expectPunct .parenOpen
  let test ← g.assignment
  let _ ← expectPunct .parenClose
  return test

def initializer : m (Option χ) := do
  if ← eatPunct .assign then return some (← g.assignment) else return none

def declarator : m χ := do
  let id ← identifier
  let init ← initializer g
  node (← Sink.start id) (.variableDeclarator id init)

def variableList (kind : VariableKind) (isStatement : Bool) : m χ := do
  let t ← advance
  let declarations ← match kind with
    | .localVariable => separated (return false) (declarator g)
    | .constant => List.singleton <$> declarator g
  if isStatement then
    let _ ← eatPunct .semicolon
  node t.span.start (.variableDeclaration kind declarations)

def functionDeclaration (start : Nat) : m χ := do
  let _ ← expectKeyword .functionKw
  let (qualifier, id) ← qualifiedName .scope
  let params ← parameters g
  let body ← block g
  node start (.functionDeclaration qualifier id params body)

def classDeclaration : m χ := do
  let t ← expectKeyword .classKw
  let (qualifier, id) ← qualifiedName .dot
  let superclass ← superclass g
  let body ← classBody g
  node t.span.start (.classDeclaration qualifier id superclass body)

def enumMember : m χ := do
  let id ← identifier
  let init ← initializer g
  node (← Sink.start id) (.enumMember id init)

def enumDeclaration : m χ := do
  let t ← expectKeyword .enumKw
  let id ← identifier
  let _ ← expectPunct .braceOpen
  let members ← braced [.comma, .semicolon] (enumMember g)
  node t.span.start (.enumDeclaration id members)

def localDeclaration : m χ := do
  let t ← peek
  if (← peekSecond).map (·.kind) = some (.keyword .functionKw) then
    let _ ← advance
    functionDeclaration g t.span.start
  else variableList g .localVariable true

def returnStatement : m χ := do
  let t ← expectKeyword .returnKw
  let argument ← if ← atTerminator then pure none else some <$> assignment g
  let _ ← eatPunct .semicolon
  node t.span.start (.returnStatement argument)

def ifStatement : m χ := do
  let t ← expectKeyword .ifKw
  let test ← condition g
  let consequent ← g.statement
  let alternate ← if ← eatKeyword .elseKw then some <$> g.statement else pure none
  node t.span.start (.ifStatement test consequent alternate)

def whileStatement : m χ := do
  let t ← expectKeyword .whileKw
  let test ← condition g
  let body ← g.statement
  node t.span.start (.whileStatement test body)

def doWhileStatement : m χ := do
  let t ← expectKeyword .doKw
  let body ← g.statement
  let _ ← expectKeyword .whileKw
  let test ← condition g
  let _ ← eatPunct .semicolon
  node t.span.start (.doWhileStatement body test)

def expressionBefore (p : Punct) : m (Option χ) := do
  if ← atPunct p then return none else return some (← g.assignment)

def forStatement : m χ := do
  let t ← expectKeyword .forKw
  let _ ← expectPunct .parenOpen
  let init ← if ← at? (.keyword .localKw) then some <$> variableList g .localVariable false
    else expressionBefore g .semicolon
  let _ ← expectPunct .semicolon
  let test ← expressionBefore g .semicolon
  let _ ← expectPunct .semicolon
  let update ← expressionBefore g .parenClose
  let _ ← expectPunct .parenClose
  let body ← g.statement
  node t.span.start (.forStatement init test update body)

def foreachStatement : m χ := do
  let t ← expectKeyword .foreachKw
  let _ ← expectPunct .parenOpen
  let first ← identifier
  let (index, value) ← if ← eatPunct .comma then (some first, ·) <$> identifier
    else pure (none, first)
  let _ ← expectKeyword .inKw
  let object ← g.assignment
  let _ ← expectPunct .parenClose
  let body ← g.statement
  node t.span.start (.foreachStatement index value object body)

def tryStatement : m χ := do
  let t ← expectKeyword .tryKw
  let block ← g.statement
  if ← eatKeyword .catchKw then
    let _ ← expectPunct .parenOpen
    let param ← identifier
    let _ ← expectPunct .parenClose
    let handler ← g.statement
    node t.span.start (.tryStatement block (some param) (some handler))
  else node t.span.start (.tryStatement block none none)

def throwStatement : m χ := do
  let t ← expectKeyword .throwKw
  let argument ← g.assignment
  let _ ← eatPunct .semicolon
  node t.span.start (.throwStatement argument)

def jumpStatement (shape : Shape χ) : m χ := do
  let t ← advance
  let _ ← eatPunct .semicolon
  node t.span.start shape

def expressionStatement : m χ := do
  let start := (← peek).span.start
  let expression ← assignment g
  let _ ← eatPunct .semicolon
  node start (.expressionStatement expression)

def statement : m χ := do
  let t ← peek
  match t.kind with
  | .punct .braceOpen => block g
  | .keyword .localKw => localDeclaration g
  | .keyword .constKw => variableList g .constant true
  | .keyword .functionKw => functionDeclaration g t.span.start
  | .keyword .classKw => classDeclaration g
  | .keyword .enumKw => enumDeclaration g
  | .keyword .returnKw => returnStatement g
  | .keyword .ifKw => ifStatement g
  | .keyword .whileKw => whileStatement g
  | .keyword .doKw => doWhileStatement g
  | .keyword .forKw => forStatement g
  | .keyword .foreachKw => foreachStatement g
  | .keyword .tryKw => tryStatement g
  | .keyword .throwKw => throwStatement g
  | .keyword .breakKw => jumpStatement .breakStatement
  | .keyword .continueKw => jumpStatement .continueStatement
  | _ => expressionStatement g

end Parser

namespace Productions

variable {m : Type → Type} {χ : Type} [Monad m] [MonadStateOf Cursor m]
  [MonadExceptOf ParseFault m] [Sink m χ]

/-- The grammar for nesting up to a depth. Every nested production comes behind a token that the
one around it has taken, so the number of tokens is depth enough. -/
def ofDepth : Nat → Productions m χ
  | 0 => ⟨Parser.fail .expression, Parser.fail .expression, fun _ => Parser.fail .expression,
      Parser.fail .expression⟩
  | n + 1 =>
    let g := ofDepth n
    ⟨Parser.statement g, Parser.assignment g, Parser.binary g, Parser.unary g⟩

end Productions

namespace Parser

variable {m : Type → Type} {χ : Type} [Monad m] [MonadStateOf Cursor m]
  [MonadExceptOf ParseFault m] [Sink m χ]

def statements (g : Productions m χ) : m (List χ) :=
  many do
    skip [.semicolon]
    if ← at? .endOfFile then return none else return some (← g.statement)

end Parser

end SquirrelAnalyzer
