import SquirrelAnalyzer.Proofs.Shape
import SquirrelAnalyzer.Token.Scan
import SquirrelAnalyzer.Parser.Operator
import SquirrelAnalyzer.Proofs.Tree

namespace SquirrelAnalyzer

def Token.Kind.Readable (k : Token.Kind) : Prop := ∃ text, (Token.scan text).outcome = .ok k

def Shape.takes (k : Keyword) : Shape Bool → Bool
  | ifStatement _ consequent none => k = .elseKw || consequent
  | ifStatement _ _ (some alternate) => alternate
  | tryStatement block _ none => k = .catchKw || block
  | tryStatement _ _ (some handler) => handler
  | whileStatement _ body => body
  | forStatement _ _ _ body => body
  | foreachStatement _ _ _ body => body
  | _ => false

def Kind.holdsSlots : Kind → Bool
  | classBody | tableExpression | enumDeclaration => true
  | _ => false

namespace Tree

def takes (k : Keyword) (t : Tree) : Bool := t.fold fun _ shape => shape.takes k

theorem takes_node (k : Keyword) (s : Span) (shape : Shape Tree) :
    (node s shape).takes k = (shape.map (takes k)).takes k := fold_node _ s shape

def EndsBefore (t : Tree) (k : Token.Kind) : Prop :=
  ∀ k' ∈ [Keyword.elseKw, .catchKw], t.takes k' = true → k ≠ .keyword k'

inductive Role
  | statement | block | variables | declarator | initial | expression | parameter | slot
  | classMember | classBody | method | enumMember | name | property | owner
  deriving DecidableEq, Repr

def Role.isSlot : Role → Bool
  | slot | classMember | enumMember => true
  | _ => false

inductive Fits : Role → Tree → Prop
  | ofBlock {t : Tree} (h : Fits .block t) : Fits .statement t
  | ofVariables {t : Tree} (h : Fits .variables t) : Fits .statement t
  | block {s : Span} {body : List Tree} (h : ∀ t ∈ body, Fits .statement t) :
      Fits .block (.node s (.blockStatement body))
  | localVariables {s : Span} {ds : List Tree} (hne : ds ≠ []) (h : ∀ d ∈ ds, Fits .declarator d) :
      Fits .variables (.node s (.variableDeclaration .localVariable ds))
  | constant {s : Span} {d : Tree} (h : Fits .declarator d) :
      Fits .statement (.node s (.variableDeclaration .constant [d]))
  | declarator {s : Span} {id : Tree} {init : Option Tree} (hid : Fits .name id)
      (hinit : ∀ e ∈ init, Fits .expression e) :
      Fits .declarator (.node s (.variableDeclarator id init))
  | expressionStatement {s : Span} {e : Tree} (h : Fits .expression e) :
      Fits .statement (.node s (.expressionStatement e))
  | returnStatement {s : Span} {argument : Option Tree}
      (h : ∀ e ∈ argument, Fits .expression e) :
      Fits .statement (.node s (.returnStatement argument))
  | ifStatement {s : Span} {test consequent : Tree} {alternate : Option Tree}
      (htest : Fits .expression test) (hconsequent : Fits .statement consequent)
      (halternate : ∀ t ∈ alternate, Fits .statement t)
      (hclosed : alternate.isSome → consequent.takes .elseKw = false) :
      Fits .statement (.node s (.ifStatement test consequent alternate))
  | whileStatement {s : Span} {test body : Tree} (htest : Fits .expression test)
      (hbody : Fits .statement body) : Fits .statement (.node s (.whileStatement test body))
  | doWhileStatement {s : Span} {body test : Tree} (hbody : Fits .statement body)
      (htest : Fits .expression test) : Fits .statement (.node s (.doWhileStatement body test))
  | ofExpression {t : Tree} (h : Fits .expression t) : Fits .initial t
  | initialVariables {t : Tree} (h : Fits .variables t) : Fits .initial t
  | forStatement {s : Span} {init test update : Option Tree} {body : Tree}
      (hinit : ∀ t ∈ init, Fits .initial t) (htest : ∀ e ∈ test, Fits .expression e)
      (hupdate : ∀ e ∈ update, Fits .expression e) (hbody : Fits .statement body) :
      Fits .statement (.node s (.forStatement init test update body))
  | foreachStatement {s : Span} {index : Option Tree} {value object body : Tree}
      (hindex : ∀ t ∈ index, Fits .name t) (hvalue : Fits .name value)
      (hobject : Fits .expression object) (hbody : Fits .statement body) :
      Fits .statement (.node s (.foreachStatement index value object body))
  | tryStatement {s : Span} {block : Tree} (hblock : Fits .statement block) :
      Fits .statement (.node s (.tryStatement block none none))
  | catchStatement {s : Span} {block param handler : Tree} (hblock : Fits .statement block)
      (hclosed : block.takes .catchKw = false) (hparam : Fits .name param)
      (hhandler : Fits .statement handler) :
      Fits .statement (.node s (.tryStatement block (some param) (some handler)))
  | throwStatement {s : Span} {e : Tree} (h : Fits .expression e) :
      Fits .statement (.node s (.throwStatement e))
  | breakStatement {s : Span} : Fits .statement (.node s .breakStatement)
  | continueStatement {s : Span} : Fits .statement (.node s .continueStatement)
  | functionDeclaration {s : Span} {qualifier : Option Tree} {id body : Tree} {params : List Tree}
      (hqualifier : ∀ t ∈ qualifier, Fits .owner t) (hid : Fits .name id)
      (hparams : ∀ t ∈ params, Fits .parameter t) (hbody : Fits .block body) :
      Fits .statement (.node s (.functionDeclaration qualifier id params body))
  | classDeclaration {s : Span} {qualifier superclass : Option Tree} {id body : Tree}
      (hqualifier : ∀ t ∈ qualifier, Fits .owner t) (hid : Fits .name id)
      (hsuperclass : ∀ e ∈ superclass, Fits .expression e) (hbody : Fits .classBody body) :
      Fits .statement (.node s (.classDeclaration qualifier id superclass body))
  | enumDeclaration {s : Span} {id : Tree} {members : List Tree} (hid : Fits .name id)
      (hmembers : ∀ t ∈ members, Fits .enumMember t) :
      Fits .statement (.node s (.enumDeclaration id members))
  | enumMember {s : Span} {id : Tree} {init : Option Tree} (hid : Fits .name id)
      (hinit : ∀ e ∈ init, Fits .expression e) : Fits .enumMember (.node s (.enumMember id init))
  | classBody {s : Span} {body : List Tree} (h : ∀ t ∈ body, Fits .classMember t) :
      Fits .classBody (.node s (.classBody body))
  | constructor {s s' : Span} {isStatic : Bool} {value : Tree} (h : Fits .method value) :
      Fits .classMember (.node s (.methodDefinition .constructor isStatic
        (.node s' (.identifier Keyword.constructorKw.text)) value))
  | classMethod {s : Span} {isStatic : Bool} {key value : Tree} (hkey : Fits .name key)
      (hvalue : Fits .method value) :
      Fits .classMember (.node s (.methodDefinition .method isStatic key value))
  | classProperty {s s' : Span} {isStatic : Bool} {name : String} {value : Tree}
      (hkey : Fits .property (.node s' (.identifier name)))
      (hconstructor : name ≠ Keyword.constructorKw.text)
      (hfunction : name ≠ Keyword.functionKw.text)
      (hstatic : isStatic = false → name ≠ Keyword.staticKw.text)
      (hvalue : Fits .expression value) :
      Fits .classMember (.node s (.propertyDefinition isStatic false
        (.node s' (.identifier name)) (some value)))
  | classComputed {s : Span} {isStatic : Bool} {key value : Tree} (hkey : Fits .expression key)
      (hvalue : Fits .expression value) :
      Fits .classMember (.node s (.propertyDefinition isStatic true key (some value)))
  | slotMethod {s : Span} {key value : Tree} (hkey : Fits .name key)
      (hvalue : Fits .method value) :
      Fits .slot (.node s (.methodDefinition .method false key value))
  | slotProperty {s s' : Span} {name : String} {value : Tree}
      (hkey : Fits .property (.node s' (.identifier name)))
      (hfunction : name ≠ Keyword.functionKw.text) (hvalue : Fits .expression value) :
      Fits .slot (.node s (.propertyDefinition false false
        (.node s' (.identifier name)) (some value)))
  | slotComputed {s : Span} {key value : Tree} (hkey : Fits .expression key)
      (hvalue : Fits .expression value) :
      Fits .slot (.node s (.propertyDefinition false true key (some value)))
  | method {s : Span} {params : List Tree} {body : Tree} (hparams : ∀ t ∈ params, Fits .parameter t)
      (hbody : Fits .block body) : Fits .method (.node s (.functionExpression params body))
  | ofName {t : Tree} (h : Fits .name t) : Fits .parameter t
  | default {s : Span} {left right : Tree} (hleft : Fits .name left)
      (hright : Fits .expression right) : Fits .parameter (.node s (.assignmentPattern left right))
  | rest {s : Span} : Fits .parameter (.node s .restElement)
  | name {s : Span} {name : String} (h : Token.Kind.Readable (.identifier name)) :
      Fits .name (.node s (.identifier name))
  | propertyName {t : Tree} (h : Fits .name t) : Fits .property t
  | keyword {s : Span} {k : Keyword} : Fits .property (.node s (.identifier k.text))
  | ownerName {t : Tree} (h : Fits .name t) : Fits .owner t
  | ownerMember {s : Span} {object property : Tree} (hobject : Fits .owner object)
      (hproperty : Fits .name property) :
      Fits .owner (.node s (.memberExpression object property false))
  | identifier {t : Tree} (h : Fits .name t) : Fits .expression t
  | literal {s : Span} {k : Token.Kind} {value : Literal} (h : k.Readable)
      (hvalue : Literal.ofToken? k = some value) : Fits .expression (.node s (.literal value))
  | table {s : Span} {properties : List Tree} (h : ∀ t ∈ properties, Fits .slot t) :
      Fits .expression (.node s (.tableExpression properties))
  | array {s : Span} {elements : List Tree} (h : ∀ e ∈ elements, Fits .expression e) :
      Fits .expression (.node s (.arrayExpression elements))
  | function {t : Tree} (h : Fits .method t) : Fits .expression t
  | lambda {s : Span} {params : List Tree} {body : Tree} (hparams : ∀ t ∈ params, Fits .parameter t)
      (hbody : Fits .expression body) : Fits .expression (.node s (.lambdaExpression params body))
  | classExpression {s : Span} {superclass : Option Tree} {body : Tree}
      (hsuperclass : ∀ e ∈ superclass, Fits .expression e) (hbody : Fits .classBody body) :
      Fits .expression (.node s (.classExpression superclass body))
  | call {s : Span} {callee : Tree} {arguments : List Tree} (hcallee : Fits .expression callee)
      (harguments : ∀ e ∈ arguments, Fits .expression e) :
      Fits .expression (.node s (.callExpression callee arguments))
  | member {s : Span} {object property : Tree} (hobject : Fits .expression object)
      (hproperty : Fits .property property) :
      Fits .expression (.node s (.memberExpression object property false))
  | index {s : Span} {object property : Tree} (hobject : Fits .expression object)
      (hproperty : Fits .expression property) :
      Fits .expression (.node s (.memberExpression object property true))
  | this {s : Span} : Fits .expression (.node s .thisExpression)
  | base {s : Span} : Fits .expression (.node s .baseExpression)
  | root {s : Span} {property : Tree} (h : Fits .property property) :
      Fits .expression (.node s (.rootExpression property))
  | assignment {s : Span} {op : AssignmentOperator} {left right : Tree}
      (hleft : Fits .expression left) (hright : Fits .expression right) :
      Fits .expression (.node s (.assignmentExpression op left right))
  | binary {s : Span} {op : BinaryOperator} {left right : Tree}
      (hleft : Fits .expression left) (hright : Fits .expression right) :
      Fits .expression (.node s (.binaryExpression op left right))
  | leading {s : Span} {op : UnaryOperator} {argument : Tree} (h : Fits .expression argument) :
      Fits .expression (.node s (.unaryExpression op true argument))
  | trailing {s : Span} {k : Token.Kind} {op : UnaryOperator} {argument : Tree}
      (hop : UnaryOperator.trailing? k = some op) (h : Fits .expression argument) :
      Fits .expression (.node s (.unaryExpression op false argument))
  | conditional {s : Span} {test consequent alternate : Tree} (htest : Fits .expression test)
      (hconsequent : Fits .expression consequent) (halternate : Fits .expression alternate) :
      Fits .expression (.node s (.conditionalExpression test consequent alternate))
  | yieldExpression {s : Span} {argument : Option Tree}
      (h : ∀ e ∈ argument, Fits .expression e) :
      Fits .expression (.node s (.yieldExpression argument))

end Tree

def Kind.partRoles : Kind → List Tree.Role
  | blockStatement => [.statement]
  | ifStatement | whileStatement | doWhileStatement => [.expression, .statement]
  | forStatement => [.initial, .expression, .statement]
  | foreachStatement => [.name, .expression, .statement]
  | tryStatement => [.statement, .name]
  | variableDeclaration => [.declarator]
  | functionDeclaration => [.owner, .name, .parameter, .block]
  | classDeclaration => [.owner, .name, .expression, .classBody]
  | enumDeclaration => [.name, .enumMember]
  | classBody => [.classMember]
  | methodDefinition => [.name, .property, .method]
  | propertyDefinition => [.property, .expression]
  | variableDeclarator | enumMember | assignmentPattern => [.name, .expression]
  | tableExpression => [.slot]
  | functionExpression => [.parameter, .block]
  | lambdaExpression => [.parameter, .expression]
  | classExpression => [.expression, .classBody]
  | memberExpression => [.owner, .name, .expression, .property]
  | rootExpression => [.property]
  | expressionStatement | returnStatement | throwStatement | arrayExpression | callExpression
  | assignmentExpression | binaryExpression | unaryExpression | conditionalExpression
  | yieldExpression => [.expression]
  | _ => []

theorem Kind.holdsSlots_of_partRole {k : Kind} {r : Tree.Role} (hr : r ∈ k.partRoles)
    (hslot : r.isSlot = true) : k.holdsSlots = true := by
  have hall : ∀ k ∈ Kind.all, ∀ r ∈ k.partRoles, r.isSlot = true → k.holdsSlots = true := by decide
  exact hall k k.mem_all r hr hslot

namespace Tree

variable {t : Tree} {r : Role}

theorem Fits.kind_ne (h : t.Fits r) : t.shape.kind ≠ .sourceFile := by
  induction h <;> first | assumption | nofun

theorem Fits.part (h : t.Fits r) : ∀ c ∈ t.shape.children .full,
    ∃ r' ∈ t.shape.kind.partRoles, c.Fits r' := by
  induction h
  case ofBlock ih => exact ih
  case ofVariables ih => exact ih
  case ofExpression ih => exact ih
  case initialVariables ih => exact ih
  case ofName ih => exact ih
  case propertyName ih => exact ih
  case ownerName ih => exact ih
  case identifier ih => exact ih
  case function ih => exact ih
  all_goals
    simp [shape, Shape.children, Shape.kind, Kind.fields, Shape.field, Kind.partRoles,
      -Option.mem_def, or_imp, forall_and]
  -- every child has its role from a premise of the case; only the name of a constructor has none
  all_goals
    and_intros
    all_goals
      intros
      first | exact .inr (.inl .keyword) | solve_by_elim [Or.inl, Or.inr]

theorem Fits.child (h : t.Fits r) (c : Tree) (hc : c ∈ t.shape.children .full) :
    ∃ r', c.Fits r' := by
  obtain ⟨r', -, hfits⟩ := h.part c hc
  exact ⟨r', hfits⟩

end Tree

end SquirrelAnalyzer
