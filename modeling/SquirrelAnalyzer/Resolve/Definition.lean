import SquirrelAnalyzer.Resolve.Name

namespace SquirrelAnalyzer

def Kind.isDeclaring : Kind → Bool
  | variableDeclarator | functionDeclaration | classDeclaration | enumDeclaration
  | methodDefinition | propertyDefinition | enumMember | metaProperty | assignmentPattern
  | assignmentExpression => true
  | _ => false

namespace Resolve

variable (p : Program) (ask : Ask)

def documentedValue (b : Branch) : Resolve Value := do
  let d ← ask .definition b
  let type ← ofOption ((p.unit? d.unit).bind (·.facts.typeOverrides.get? d.target))
  lookupType p ask d type

def augmentedValue : Option Value → Resolve Value
  | some (.node cls true (some call)) => do
    ask .value (← ofOption (p.augmented? cls call))
  | _ => failure

def memberOf (object : Branch) (name : String) (arity : Option Nat) : Resolve Branch := do
  let value ← attempt (ask .value object)
  (ofOption value >>= findMember p ask name arity) <|>
    (documentedValue p ask object >>= findMember p ask name arity) <|>
    (augmentedValue p ask value >>= findMember p ask name arity)

def accessedName? (u : SourceUnit) (property : NodeId) (computed : Bool) : Option String :=
  if computed then u.facts.normalizedKeys.get? property else u.arena.identifierName? property

def declared? (u : SourceUnit) (b : Branch) : Option (Option Branch) :=
  (u.declaration? b.target).map fun declaring =>
    (b.upward.find? (·.target = declaring)).or (u.arena.branchTo declaring)

def isPropertyOf (id : NodeId) : Shape NodeId → Bool
  | .memberExpression _ property computed => property = id && !computed
  | .rootExpression property => property = id
  | _ => false

def nameDefinition (b : Branch) (name : String) : Resolve Branch :=
  match b.parentBranch? with
  | none => lookupName p ask b name (p.arity? b)
  | some parent =>
    match p.shape? parent with
    | none => failure
    | some s =>
      if isPropertyOf b.target s then ask .definition parent
      else lookupName p ask b name (p.arity? b)

def definitionStep (b : Branch) : Resolve Branch := do
  let u ← ofOption (p.unit? b.unit)
  match ← ofOption (u.arena.shape? b.target) with
  | .identifier name =>
    match declared? u b with
    | some found => ofOption found
    | none => nameDefinition p ask b name
  | .memberExpression object property computed =>
    let name ← ofOption (accessedName? u property computed)
    memberOf p ask (b.child object) name (p.arity? b)
  | .rootExpression property =>
    let name ← ofOption (u.arena.identifierName? property)
    ofOption (p.rootName? b.unit name)
  | .thisExpression => ofOption (← thisValue p ask b).branch?
  | .baseExpression => baseClass p ask b
  | .callExpression callee _ => ask .definition (b.child callee)
  | _ => failure

end Resolve

end SquirrelAnalyzer
