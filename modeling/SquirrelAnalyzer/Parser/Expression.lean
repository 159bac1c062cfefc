import SquirrelAnalyzer.Parser.Cursor
import SquirrelAnalyzer.Parser.Operator

/-!
Productions of expressions. What a production needs of others that may contain it is taken from
`Productions`, and only after it has taken a token.
-/

namespace SquirrelAnalyzer

structure Productions (m : Type → Type) (χ : Type) where
  statement : m χ
  assignment : m χ
  binary : Nat → m χ
  unary : m χ

namespace Parser

variable {m : Type → Type} {χ : Type} [Monad m] [MonadStateOf Cursor m]
  [MonadExceptOf ParseFault m] [Sink m χ] (g : Productions m χ)

def parameter : m χ := do
  if ← atPunct .ellipsis then
    let t ← advance
    node t.span.start .restElement
  else
    let left ← identifier
    if ← eatPunct .assign then
      let right ← g.assignment
      node (← Sink.start left) (.assignmentPattern left right)
    else return left

def parameters : m (List χ) := do
  let _ ← expectPunct .parenOpen
  listUntil .parenClose (parameter g)

def block : m χ := do
  let t ← expectPunct .braceOpen
  let body ← many do
    skip [.semicolon]
    if ← eatPunct .braceClose then return none
    else if ← at? .endOfFile then fail (.punct .braceClose)
    else return some (← g.statement)
  node t.span.start (.blockStatement body)

def functionValue : m χ := do
  let start := (← peek).span.start
  let params ← parameters g
  let body ← block g
  node start (.functionExpression params body)

def slotKey : m (χ × Bool) := do
  if ← eatPunct .bracketOpen then
    let key ← g.assignment
    let _ ← expectPunct .bracketClose
    return (key, true)
  else
    match (← peek).kind with
    | .string text =>
      let t ← advance
      return (← node t.span.start (.literal (.string text)), true)
    | _ => return (← propertyName, false)

def tableSlot : m χ := do
  let start := (← peek).span.start
  if ← eatKeyword .functionKw then
    let key ← identifier
    let value ← functionValue g
    node start (.methodDefinition .method false key value)
  else
    let (key, computed) ← slotKey g
    if !(← eatPunct .assign) then
      let _ ← expectPunct .colon
    let value ← g.assignment
    node start (.propertyDefinition false computed key (some value))

def table : m χ := do
  let t ← expectPunct .braceOpen
  let properties ← braced [.comma, .semicolon] (tableSlot g)
  node t.span.start (.tableExpression properties)

def classMember : m χ := do
  let start := (← peek).span.start
  let isStatic ← eatKeyword .staticKw
  if ← at? (.keyword .constructorKw) then
    let t ← advance
    let key ← node t.span.start (.identifier Keyword.constructorKw.text)
    let value ← functionValue g
    node start (.methodDefinition .constructor isStatic key value)
  else if ← eatKeyword .functionKw then
    let key ← identifier
    let value ← functionValue g
    node start (.methodDefinition .method isStatic key value)
  else
    let (key, computed) ← slotKey g
    let _ ← expectPunct .assign
    let value ← g.assignment
    node start (.propertyDefinition isStatic computed key (some value))

def classBody : m χ := do
  let t ← expectPunct .braceOpen
  let body ← braced [.semicolon, .comma] (classMember g)
  node t.span.start (.classBody body)

def superclass : m (Option χ) := do
  if ← eatKeyword .extendsKw then return some (← g.unary) else return none

def lambda : m χ := do
  let t ← expectPunct .atSign
  let params ← parameters g
  let body ← g.assignment
  node t.span.start (.lambdaExpression params body)

def array : m χ := do
  let t ← expectPunct .bracketOpen
  let elements ← listUntil .bracketClose g.assignment
  node t.span.start (.arrayExpression elements)

def parenthesized : m χ := do
  let _ ← expectPunct .parenOpen
  let inner ← g.assignment
  let _ ← expectPunct .parenClose
  return inner

def primary : m χ := do
  let t ← peek
  match t.kind with
  | .identifier _ => identifier
  | .keyword .thisKw =>
    let _ ← advance
    node t.span.start .thisExpression
  | .keyword .baseKw =>
    let _ ← advance
    node t.span.start .baseExpression
  | .punct .scope =>
    let _ ← advance
    let property ← propertyName
    node t.span.start (.rootExpression property)
  | .punct .parenOpen => parenthesized g
  | .punct .braceOpen => table g
  | .punct .bracketOpen => array g
  | .punct .atSign => lambda g
  | .keyword .functionKw =>
    let _ ← advance
    let params ← parameters g
    let body ← block g
    node t.span.start (.functionExpression params body)
  | .keyword .classKw =>
    let _ ← advance
    let superclass ← superclass g
    let body ← classBody g
    node t.span.start (.classExpression superclass body)
  | kind =>
    match Literal.ofToken? kind with
    | some value =>
      let _ ← advance
      node t.span.start (.literal value)
    | none => fail .expression

/-- One more member access, call or operator behind an expression. An index and an operator have to
stand on the line of the expression. -/
def postfixStep (start : Nat) (e : χ) : m (Option χ) := do
  let t ← peek
  match t.kind with
  | .punct .dot =>
    let _ ← advance
    let property ← propertyName
    return some (← node start (.memberExpression e property false))
  | .punct .parenOpen =>
    let _ ← advance
    let arguments ← listUntil .parenClose g.assignment
    return some (← node start (.callExpression e arguments))
  | .punct .bracketOpen =>
    if t.newlineBefore then return none
    let _ ← advance
    let property ← g.assignment
    let _ ← expectPunct .bracketClose
    return some (← node start (.memberExpression e property true))
  | kind =>
    match UnaryOperator.trailing? kind with
    | some op =>
      if t.newlineBefore then return none
      let _ ← advance
      return some (← node start (.unaryExpression op false e))
    | none => return none

def postfixed : m χ := do
  let e ← primary g
  iterate (postfixStep g (← Sink.start e)) e

def yield : m χ := do
  let t ← expectKeyword .yieldKw
  let argument ← if ← atTerminator then pure none else some <$> g.assignment
  node t.span.start (.yieldExpression argument)

def unary : m χ := do
  let t ← peek
  if t.kind = .keyword .yieldKw then yield g
  else match UnaryOperator.leading? t.kind with
    | some op =>
      let _ ← advance
      let argument ← g.unary
      node t.span.start (.unaryExpression op true argument)
    | none => postfixed g

def binaryStep (least : Nat) (left : χ) : m (Option χ) := do
  match BinaryOperator.ofToken? (← peek).kind with
  | some op =>
    if op.precedence < least then return none
    let _ ← advance
    let right ← g.binary (op.precedence + 1)
    return some (← node (← Sink.start left) (.binaryExpression op left right))
  | none => return none

def binary (least : Nat) : m χ := do
  let left ← unary g
  iterate (binaryStep g least) left

def conditional : m χ := do
  let test ← binary g 1
  if ← eatPunct .question then
    let consequent ← g.assignment
    let _ ← expectPunct .colon
    let alternate ← g.assignment
    node (← Sink.start test) (.conditionalExpression test consequent alternate)
  else return test

def assignment : m χ := do
  let left ← conditional g
  match AssignmentOperator.ofToken? (← peek).kind with
  | some op =>
    let _ ← advance
    let right ← g.assignment
    node (← Sink.start left) (.assignmentExpression op left right)
  | none => return left

end Parser

end SquirrelAnalyzer
