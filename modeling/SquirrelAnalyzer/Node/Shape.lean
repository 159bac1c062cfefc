import SquirrelAnalyzer.Node.Kind

/-!
The shape of a node: its kind with what it carries and one slot per child. Shapes are the same for
the nodes of a tree and of an arena; only what fills the slots differs.
-/

namespace SquirrelAnalyzer

inductive Shape (χ : Type) where
  | sourceFile (body : List χ)
  | blockStatement (body : List χ)
  | expressionStatement (expression : χ)
  | returnStatement (argument : Option χ)
  | ifStatement (test consequent : χ) (alternate : Option χ)
  | whileStatement (test body : χ)
  | doWhileStatement (body test : χ)
  | forStatement (init test update : Option χ) (body : χ)
  | foreachStatement (index : Option χ) (value object body : χ)
  | tryStatement (block : χ) (param handler : Option χ)
  | throwStatement (argument : χ)
  | breakStatement
  | continueStatement
  | variableDeclaration (kind : VariableKind) (declarations : List χ)
  | variableDeclarator (id : χ) (init : Option χ)
  | functionDeclaration (qualifier : Option χ) (id : χ) (params : List χ) (body : χ)
  | classDeclaration (qualifier : Option χ) (id : χ) (superclass : Option χ) (body : χ)
  | enumDeclaration (id : χ) (members : List χ)
  | classBody (body : List χ)
  | methodDefinition (kind : MethodKind) (isStatic : Bool) (key value : χ)
  /-- The key is computed when it is written in brackets or as a string. -/
  | propertyDefinition (isStatic computed : Bool) (key : χ) (value : Option χ)
  | enumMember (id : χ) (init : Option χ)
  | metaProperty (key : χ)
  | identifier (name : String)
  | literal (value : Literal)
  | tableExpression (properties : List χ)
  | arrayExpression (elements : List χ)
  | functionExpression (params : List χ) (body : χ)
  | lambdaExpression (params : List χ) (body : χ)
  | classExpression (superclass : Option χ) (body : χ)
  | callExpression (callee : χ) (arguments : List χ)
  | memberExpression (object property : χ) (computed : Bool)
  | thisExpression
  | baseExpression
  | rootExpression (property : χ)
  | assignmentExpression (operator : AssignmentOperator) (left right : χ)
  | binaryExpression (operator : BinaryOperator) (left right : χ)
  | unaryExpression (operator : UnaryOperator) (isPrefixed : Bool) (argument : χ)
  | conditionalExpression (test consequent alternate : χ)
  | yieldExpression (argument : Option χ)
  /-- A parameter with a default value. -/
  | assignmentPattern (left right : χ)
  | restElement
  deriving DecidableEq, Repr, Inhabited

namespace Shape

variable {α β χ : Type}

def kind : Shape χ → Kind
  | sourceFile .. => .sourceFile
  | blockStatement .. => .blockStatement
  | expressionStatement .. => .expressionStatement
  | returnStatement .. => .returnStatement
  | ifStatement .. => .ifStatement
  | whileStatement .. => .whileStatement
  | doWhileStatement .. => .doWhileStatement
  | forStatement .. => .forStatement
  | foreachStatement .. => .foreachStatement
  | tryStatement .. => .tryStatement
  | throwStatement .. => .throwStatement
  | breakStatement => .breakStatement
  | continueStatement => .continueStatement
  | variableDeclaration .. => .variableDeclaration
  | variableDeclarator .. => .variableDeclarator
  | functionDeclaration .. => .functionDeclaration
  | classDeclaration .. => .classDeclaration
  | enumDeclaration .. => .enumDeclaration
  | classBody .. => .classBody
  | methodDefinition .. => .methodDefinition
  | propertyDefinition .. => .propertyDefinition
  | enumMember .. => .enumMember
  | metaProperty .. => .metaProperty
  | identifier .. => .identifier
  | literal .. => .literal
  | tableExpression .. => .tableExpression
  | arrayExpression .. => .arrayExpression
  | functionExpression .. => .functionExpression
  | lambdaExpression .. => .lambdaExpression
  | classExpression .. => .classExpression
  | callExpression .. => .callExpression
  | memberExpression .. => .memberExpression
  | thisExpression => .thisExpression
  | baseExpression => .baseExpression
  | rootExpression .. => .rootExpression
  | assignmentExpression .. => .assignmentExpression
  | binaryExpression .. => .binaryExpression
  | unaryExpression .. => .unaryExpression
  | conditionalExpression .. => .conditionalExpression
  | yieldExpression .. => .yieldExpression
  | assignmentPattern .. => .assignmentPattern
  | restElement => .restElement

def field : Shape χ → Field → List χ
  | sourceFile body, .body => body
  | blockStatement body, .body => body
  | expressionStatement e, .expression => [e]
  | returnStatement a, .argument => a.toList
  | ifStatement t _ _, .test => [t]
  | ifStatement _ c _, .consequent => [c]
  | ifStatement _ _ a, .alternate => a.toList
  | whileStatement t _, .test => [t]
  | whileStatement _ b, .body => [b]
  | doWhileStatement b _, .body => [b]
  | doWhileStatement _ t, .test => [t]
  | forStatement i _ _ _, .init => i.toList
  | forStatement _ t _ _, .test => t.toList
  | forStatement _ _ u _, .update => u.toList
  | forStatement _ _ _ b, .body => [b]
  | foreachStatement i _ _ _, .index => i.toList
  | foreachStatement _ v _ _, .value => [v]
  | foreachStatement _ _ o _, .object => [o]
  | foreachStatement _ _ _ b, .body => [b]
  | tryStatement b _ _, .block => [b]
  | tryStatement _ p _, .param => p.toList
  | tryStatement _ _ h, .handler => h.toList
  | throwStatement a, .argument => [a]
  | variableDeclaration _ ds, .declarations => ds
  | variableDeclarator i _, .id => [i]
  | variableDeclarator _ v, .init => v.toList
  | functionDeclaration q _ _ _, .qualifier => q.toList
  | functionDeclaration _ i _ _, .id => [i]
  | functionDeclaration _ _ ps _, .params => ps
  | functionDeclaration _ _ _ b, .body => [b]
  | classDeclaration q _ _ _, .qualifier => q.toList
  | classDeclaration _ i _ _, .id => [i]
  | classDeclaration _ _ s _, .superclass => s.toList
  | classDeclaration _ _ _ b, .body => [b]
  | enumDeclaration i _, .id => [i]
  | enumDeclaration _ ms, .members => ms
  | classBody body, .body => body
  | methodDefinition _ _ k _, .key => [k]
  | methodDefinition _ _ _ v, .value => [v]
  | propertyDefinition _ _ k _, .key => [k]
  | propertyDefinition _ _ _ v, .value => v.toList
  | enumMember i _, .id => [i]
  | enumMember _ v, .init => v.toList
  | metaProperty k, .key => [k]
  | tableExpression ps, .properties => ps
  | arrayExpression es, .elements => es
  | functionExpression ps _, .params => ps
  | functionExpression _ b, .body => [b]
  | lambdaExpression ps _, .params => ps
  | lambdaExpression _ b, .body => [b]
  | classExpression s _, .superclass => s.toList
  | classExpression _ b, .body => [b]
  | callExpression c _, .callee => [c]
  | callExpression _ as, .arguments => as
  | memberExpression o _ _, .object => [o]
  | memberExpression _ p _, .property => [p]
  | rootExpression p, .property => [p]
  | assignmentExpression _ l _, .left => [l]
  | assignmentExpression _ _ r, .right => [r]
  | binaryExpression _ l _, .left => [l]
  | binaryExpression _ _ r, .right => [r]
  | unaryExpression _ _ a, .argument => [a]
  | conditionalExpression t _ _, .test => [t]
  | conditionalExpression _ c _, .consequent => [c]
  | conditionalExpression _ _ a, .alternate => [a]
  | yieldExpression a, .argument => a.toList
  | assignmentPattern l _, .left => [l]
  | assignmentPattern _ r, .right => [r]
  | _, _ => []

def children (table : FieldTable) (s : Shape χ) : List χ := (s.kind.fields table).flatMap s.field

def traverse {m : Type → Type} [Monad m] (f : α → m β) : Shape α → m (Shape β)
  | sourceFile body => return sourceFile (← body.mapM f)
  | blockStatement body => return blockStatement (← body.mapM f)
  | expressionStatement e => return expressionStatement (← f e)
  | returnStatement a => return returnStatement (← a.mapM f)
  | ifStatement t c a => return ifStatement (← f t) (← f c) (← a.mapM f)
  | whileStatement t b => return whileStatement (← f t) (← f b)
  | doWhileStatement b t => return doWhileStatement (← f b) (← f t)
  | forStatement i t u b => return forStatement (← i.mapM f) (← t.mapM f) (← u.mapM f) (← f b)
  | foreachStatement i v o b => return foreachStatement (← i.mapM f) (← f v) (← f o) (← f b)
  | tryStatement b p h => return tryStatement (← f b) (← p.mapM f) (← h.mapM f)
  | throwStatement a => return throwStatement (← f a)
  | breakStatement => return breakStatement
  | continueStatement => return continueStatement
  | variableDeclaration k ds => return variableDeclaration k (← ds.mapM f)
  | variableDeclarator i v => return variableDeclarator (← f i) (← v.mapM f)
  | functionDeclaration q i ps b =>
    return functionDeclaration (← q.mapM f) (← f i) (← ps.mapM f) (← f b)
  | classDeclaration q i s b => return classDeclaration (← q.mapM f) (← f i) (← s.mapM f) (← f b)
  | enumDeclaration i ms => return enumDeclaration (← f i) (← ms.mapM f)
  | classBody body => return classBody (← body.mapM f)
  | methodDefinition k s key v => return methodDefinition k s (← f key) (← f v)
  | propertyDefinition s c key v => return propertyDefinition s c (← f key) (← v.mapM f)
  | enumMember i v => return enumMember (← f i) (← v.mapM f)
  | metaProperty key => return metaProperty (← f key)
  | identifier name => return identifier name
  | literal value => return literal value
  | tableExpression ps => return tableExpression (← ps.mapM f)
  | arrayExpression es => return arrayExpression (← es.mapM f)
  | functionExpression ps b => return functionExpression (← ps.mapM f) (← f b)
  | lambdaExpression ps b => return lambdaExpression (← ps.mapM f) (← f b)
  | classExpression s b => return classExpression (← s.mapM f) (← f b)
  | callExpression c as => return callExpression (← f c) (← as.mapM f)
  | memberExpression o p c => return memberExpression (← f o) (← f p) c
  | thisExpression => return thisExpression
  | baseExpression => return baseExpression
  | rootExpression p => return rootExpression (← f p)
  | assignmentExpression op l r => return assignmentExpression op (← f l) (← f r)
  | binaryExpression op l r => return binaryExpression op (← f l) (← f r)
  | unaryExpression op p a => return unaryExpression op p (← f a)
  | conditionalExpression t c a => return conditionalExpression (← f t) (← f c) (← f a)
  | yieldExpression a => return yieldExpression (← a.mapM f)
  | assignmentPattern l r => return assignmentPattern (← f l) (← f r)
  | restElement => return restElement

def identifierName? : Shape χ → Option String
  | identifier name => some name
  | _ => none

def literal? : Shape χ → Option Literal
  | literal value => some value
  | _ => none

def literalText? (s : Shape χ) : Option String := s.literal?.bind Literal.text?

def call? : Shape χ → Option (χ × List χ)
  | callExpression callee arguments => some (callee, arguments)
  | _ => none

def member? : Shape χ → Option (χ × χ × Bool)
  | memberExpression object property computed => some (object, property, computed)
  | _ => none

def nameNode? : Shape χ → Option χ
  | variableDeclarator id _ => some id
  | functionDeclaration _ id _ _ => some id
  | classDeclaration _ id _ _ => some id
  | enumDeclaration id _ => some id
  | methodDefinition _ _ key _ => some key
  | propertyDefinition _ _ key _ => some key
  | enumMember id _ => some id
  | metaProperty key => some key
  | assignmentPattern left _ => some left
  | assignmentExpression .newSlot left _ => some left
  | _ => none

def params? : Shape χ → Option (List χ)
  | functionDeclaration _ _ params _ => some params
  | functionExpression params _ => some params
  | lambdaExpression params _ => some params
  | _ => none

def classParts? : Shape χ → Option (Option χ × χ)
  | classDeclaration _ _ superclass body => some (superclass, body)
  | classExpression superclass body => some (superclass, body)
  | _ => none

def functionBody? : Shape χ → Option χ
  | functionDeclaration _ _ _ body => some body
  | functionExpression _ body => some body
  | lambdaExpression _ body => some body
  | _ => none

def isNewSlot : Shape χ → Bool
  | assignmentExpression .newSlot _ _ => true
  | _ => false

def plainAssignment? : Shape χ → Option (χ × χ)
  | assignmentExpression .newSlot _ _ => none
  | assignmentExpression _ left right => some (left, right)
  | _ => none

end Shape

end SquirrelAnalyzer
