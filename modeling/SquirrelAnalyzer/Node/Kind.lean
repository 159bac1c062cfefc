namespace SquirrelAnalyzer

inductive Kind
  | sourceFile | blockStatement | expressionStatement | returnStatement | ifStatement
  | whileStatement | doWhileStatement | forStatement | foreachStatement | tryStatement
  | throwStatement | breakStatement | continueStatement | variableDeclaration | variableDeclarator
  | functionDeclaration | classDeclaration | enumDeclaration | classBody | methodDefinition
  | propertyDefinition | enumMember | metaProperty | identifier | literal | tableExpression
  | arrayExpression | functionExpression | lambdaExpression | classExpression | callExpression
  | memberExpression | thisExpression | baseExpression | rootExpression | assignmentExpression
  | binaryExpression | unaryExpression | conditionalExpression | yieldExpression
  | assignmentPattern | restElement
  deriving DecidableEq, Repr, Inhabited

namespace Kind

def all : List Kind :=
  [sourceFile, blockStatement, expressionStatement, returnStatement, ifStatement, whileStatement,
    doWhileStatement, forStatement, foreachStatement, tryStatement, throwStatement, breakStatement,
    continueStatement, variableDeclaration, variableDeclarator, functionDeclaration,
    classDeclaration, enumDeclaration, classBody, methodDefinition, propertyDefinition, enumMember,
    metaProperty, identifier, literal, tableExpression, arrayExpression, functionExpression,
    lambdaExpression, classExpression, callExpression, memberExpression, thisExpression,
    baseExpression, rootExpression, assignmentExpression, binaryExpression, unaryExpression,
    conditionalExpression, yieldExpression, assignmentPattern, restElement]

def name : Kind → String
  | sourceFile => "SourceFile"
  | blockStatement => "BlockStatement"
  | expressionStatement => "ExpressionStatement"
  | returnStatement => "ReturnStatement"
  | ifStatement => "IfStatement"
  | whileStatement => "WhileStatement"
  | doWhileStatement => "DoWhileStatement"
  | forStatement => "ForStatement"
  | foreachStatement => "ForeachStatement"
  | tryStatement => "TryStatement"
  | throwStatement => "ThrowStatement"
  | breakStatement => "BreakStatement"
  | continueStatement => "ContinueStatement"
  | variableDeclaration => "VariableDeclaration"
  | variableDeclarator => "VariableDeclarator"
  | functionDeclaration => "FunctionDeclaration"
  | classDeclaration => "ClassDeclaration"
  | enumDeclaration => "EnumDeclaration"
  | classBody => "ClassBody"
  | methodDefinition => "MethodDefinition"
  | propertyDefinition => "PropertyDefinition"
  | enumMember => "EnumMember"
  | metaProperty => "MetaProperty"
  | identifier => "Identifier"
  | literal => "Literal"
  | tableExpression => "TableExpression"
  | arrayExpression => "ArrayExpression"
  | functionExpression => "FunctionExpression"
  | lambdaExpression => "LambdaExpression"
  | classExpression => "ClassExpression"
  | callExpression => "CallExpression"
  | memberExpression => "MemberExpression"
  | thisExpression => "ThisExpression"
  | baseExpression => "BaseExpression"
  | rootExpression => "RootExpression"
  | assignmentExpression => "AssignmentExpression"
  | binaryExpression => "BinaryExpression"
  | unaryExpression => "UnaryExpression"
  | conditionalExpression => "ConditionalExpression"
  | yieldExpression => "YieldExpression"
  | assignmentPattern => "AssignmentPattern"
  | restElement => "RestElement"

def ofName? (name : String) : Option Kind := all.find? (·.name = name)

def isClass : Kind → Bool
  | classDeclaration | classExpression => true
  | _ => false

def isFunction : Kind → Bool
  | functionDeclaration | functionExpression | lambdaExpression => true
  | _ => false

def isScope : Kind → Bool
  | sourceFile | blockStatement | functionDeclaration | functionExpression | lambdaExpression
  | forStatement | foreachStatement | tryStatement => true
  | _ => false

end Kind

inductive Field
  | body | expression | argument | test | consequent | alternate | init | update | index | value
  | object | block | param | handler | declarations | id | qualifier | params | superclass
  | members | key | properties | elements | callee | arguments | property | left | right
  deriving DecidableEq, Repr, Inhabited

namespace Field

def all : List Field :=
  [body, expression, argument, test, consequent, alternate, init, update, index, value, object,
    block, param, handler, declarations, id, qualifier, params, superclass, members, key,
    properties, elements, callee, arguments, property, left, right]

def name : Field → String
  | body => "Body"
  | expression => "Expression"
  | argument => "Argument"
  | test => "Test"
  | consequent => "Consequent"
  | alternate => "Alternate"
  | init => "Init"
  | update => "Update"
  | index => "Index"
  | value => "Value"
  | object => "Object"
  | block => "Block"
  | param => "Param"
  | handler => "Handler"
  | declarations => "Declarations"
  | id => "Id"
  | qualifier => "Qualifier"
  | params => "Params"
  | superclass => "Superclass"
  | members => "Members"
  | key => "Key"
  | properties => "Properties"
  | elements => "Elements"
  | callee => "Callee"
  | arguments => "Arguments"
  | property => "Property"
  | left => "Left"
  | right => "Right"

def ofName? (name : String) : Option Field := all.find? (·.name = name)

end Field

inductive FieldTable
  | full | value
  deriving DecidableEq, Repr, Inhabited

def FieldTable.ofName? : String → Option FieldTable
  | "Full" => some full
  | "Value" => some value
  | _ => none

def Kind.fields (table : FieldTable) : Kind → List Field
  | sourceFile | blockStatement | classBody => [.body]
  | expressionStatement => [.expression]
  | returnStatement | throwStatement | unaryExpression | yieldExpression => [.argument]
  | ifStatement | conditionalExpression => [.test, .consequent, .alternate]
  | whileStatement => [.test, .body]
  | doWhileStatement => [.body, .test]
  | forStatement => [.init, .test, .update, .body]
  | foreachStatement => [.index, .value, .object, .body]
  | tryStatement => [.block, .param, .handler]
  | variableDeclaration => [.declarations]
  | variableDeclarator | enumMember =>
    match table with
    | .full => [.id, .init]
    | .value => [.init]
  | functionDeclaration =>
    match table with
    | .full => [.qualifier, .id, .params, .body]
    | .value => [.qualifier, .params, .body]
  | classDeclaration =>
    match table with
    | .full => [.qualifier, .id, .superclass, .body]
    | .value => [.qualifier, .superclass, .body]
  | enumDeclaration =>
    match table with
    | .full => [.id, .members]
    | .value => [.members]
  | methodDefinition | propertyDefinition =>
    match table with
    | .full => [.key, .value]
    | .value => [.value]
  | metaProperty =>
    match table with
    | .full => [.key]
    | .value => []
  | assignmentPattern =>
    match table with
    | .full => [.left, .right]
    | .value => [.right]
  | tableExpression => [.properties]
  | arrayExpression => [.elements]
  | functionExpression | lambdaExpression => [.params, .body]
  | classExpression => [.superclass, .body]
  | callExpression => [.callee, .arguments]
  | memberExpression => [.object, .property]
  | rootExpression => [.property]
  | assignmentExpression | binaryExpression => [.left, .right]
  | breakStatement | continueStatement | identifier | literal | thisExpression | baseExpression
  | restElement => []

theorem Kind.mem_all (k : Kind) : k ∈ all := by cases k <;> decide

inductive BinaryOperator
  | add | sub | mul | div | mod | eq | ne | lt | le | gt | ge | cmp | and | or | bitAnd | bitOr
  | bitXor | shl | shr | uShr | in | instanceOf
  deriving DecidableEq, Repr, Inhabited

namespace BinaryOperator

def name : BinaryOperator → String
  | add => "Add"
  | sub => "Sub"
  | mul => "Mul"
  | div => "Div"
  | mod => "Mod"
  | eq => "Eq"
  | ne => "Ne"
  | lt => "Lt"
  | le => "Le"
  | gt => "Gt"
  | ge => "Ge"
  | cmp => "Cmp"
  | and => "And"
  | or => "Or"
  | bitAnd => "BitAnd"
  | bitOr => "BitOr"
  | bitXor => "BitXor"
  | shl => "Shl"
  | shr => "Shr"
  | uShr => "UShr"
  | .in => "In"
  | instanceOf => "InstanceOf"

def isPredicate : BinaryOperator → Bool
  | eq | ne | lt | le | gt | ge | and | or | .in | instanceOf => true
  | _ => false

end BinaryOperator

inductive UnaryOperator
  | neg | not | bitNot | typeOf | clone | delete | resume | increment | decrement
  deriving DecidableEq, Repr, Inhabited

def UnaryOperator.name : UnaryOperator → String
  | neg => "Neg"
  | not => "Not"
  | bitNot => "BitNot"
  | typeOf => "TypeOf"
  | clone => "Clone"
  | delete => "Delete"
  | resume => "Resume"
  | increment => "Increment"
  | decrement => "Decrement"

inductive AssignmentOperator
  | assign
  | newSlot
  | add | sub | mul | div | mod
  deriving DecidableEq, Repr, Inhabited

def AssignmentOperator.name : AssignmentOperator → String
  | assign => "Assign"
  | newSlot => "NewSlot"
  | add => "Add"
  | sub => "Sub"
  | mul => "Mul"
  | div => "Div"
  | mod => "Mod"

inductive VariableKind
  | localVariable | constant
  deriving DecidableEq, Repr, Inhabited

def VariableKind.name : VariableKind → String
  | localVariable => "Local"
  | constant => "Const"

inductive MethodKind
  | constructor | method
  deriving DecidableEq, Repr, Inhabited

def MethodKind.name : MethodKind → String
  | constructor => "Constructor"
  | method => "Method"

inductive Literal
  | integer (value : Nat)
  | float (bits : UInt64)
  | string (text : String)
  | bool (value : Bool)
  | null
  deriving DecidableEq, Repr, Inhabited

inductive LiteralKind
  | integer | float | string | bool | null
  deriving DecidableEq, Repr, Inhabited

def LiteralKind.name : LiteralKind → String
  | integer => "Integer"
  | float => "Float"
  | string => "String"
  | bool => "Bool"
  | null => "Null"

namespace Literal

def kind : Literal → LiteralKind
  | integer _ => .integer
  | float _ => .float
  | string _ => .string
  | bool _ => .bool
  | null => .null

def text? : Literal → Option String
  | string text => some text
  | _ => none

end Literal

end SquirrelAnalyzer
