import SquirrelAnalyzer.Resolve.Answer

namespace SquirrelAnalyzer

def Literal.label : Literal → TypeLabel
  | integer _ => .integer
  | float _ => .float
  | string _ => .string
  | bool _ => .bool
  | null => .null

namespace SourceUnit

def classNameNode? (u : SourceUnit) (cls : Branch) : Option NodeId :=
  ((u.arena.shape? cls.target).bind Shape.nameNode?).or
    ((cls.parent?.bind u.arena.shape?).bind Shape.nameNode?)

def className (u : SourceUnit) (cls : Branch) : String :=
  match u.facts.aliases.get? cls.target with
  | some name => name
  | none => ((u.classNameNode? cls).bind u.keyName?).getD "class"

def classLabel (u : SourceUnit) (cls : Branch) (isInstance : Bool) : TypeLabel :=
  let name := u.className cls
  let isOwnType := match u.facts.typeOverrides.get? cls.target with
    | some type => type = "self" || type = name
    | none => false
  if isInstance && !isOwnType then .instanceNamed name else .classNamed name

def enumLabel (u : SourceUnit) (member : Branch) : TypeLabel :=
  let nameNode := (member.parent?.bind u.arena.shape?).bind Shape.nameNode?
  match nameNode.bind u.arena.identifierName? with
  | some name => .enumNamed name
  | none => .any

def form? (u : SourceUnit) (id : NodeId) : Option (Kind × Option LiteralKind) :=
  (u.arena.shape? id).map fun s => (s.kind, s.literal?.map Literal.kind)

end SourceUnit

namespace Resolve

variable (p : Program) (ask : Ask)

/-- The type documented for the definition of a branch. For a call it would be the type of what is
called and not of what is returned, and the type of a class is not that of its objects. -/
def documentedType? (b : Branch) : Resolving (Option TypeLabel) := do
  if p.kind? b = some .callExpression then return none
  match ← (ask .definition b).run with
  | none => return none
  | some d =>
    if p.isClass d then return none
    return ((p.unit? d.unit).bind (·.facts.typeOverrides.get? d.target)).map TypeLabel.ofString

def shapeLabel (infer : Branch → Resolving TypeLabel) (u : SourceUnit) (b : Branch)
    (isInstance : Bool) (s : Shape NodeId) : Resolving TypeLabel :=
  match s with
  | .literal value => return value.label
  | .tableExpression _ => return .table
  | .arrayExpression [] => return .array
  | .arrayExpression (first :: rest) => do
    if rest.any (u.form? · ≠ u.form? first) then return .arrayOf .any
    else return .arrayOf (← infer (b.child first))
  | .functionExpression .. | .lambdaExpression .. | .functionDeclaration .. => return .function
  | .classExpression .. | .classDeclaration .. => return u.classLabel b isInstance
  | .enumDeclaration id _ => return .enumNamed ((u.arena.identifierName? id).getD "")
  | .enumMember .. => return u.enumLabel b
  | .binaryExpression operator left right => do
    if operator.isPredicate then return .bool
    let left ← infer (b.child left)
    let right ← infer (b.child right)
    return left.arithmetic right
  | .unaryExpression operator _ argument =>
    match operator with
    | .not => return .bool
    | .typeOf => return .string
    | .neg | .bitNot | .increment | .decrement => infer (b.child argument)
    | _ => return .any
  | _ => return .any

def valueLabel (infer : Branch → Resolving TypeLabel) : Value → Resolving TypeLabel
  | .nominal name => return .ofString name
  | .node b isInstance _ =>
    match p.unit? b.unit with
    | none => return .any
    | some u =>
      match u.arena.shape? b.target with
      | none => return .any
      | some s => shapeLabel infer u b isInstance s

def labelWithin : Nat → Branch → Resolving TypeLabel
  | 0, _ => return .any
  | n + 1, b => do
    match ← documentedType? p ask b with
    | some label => return label
    | none =>
      match ← (ask .value b).run with
      | some v => valueLabel p (labelWithin n) v
      | none => return .any

def label (b : Branch) : Resolving TypeLabel := labelWithin p ask (p.frameCount + 1) b

end Resolve

end SquirrelAnalyzer
