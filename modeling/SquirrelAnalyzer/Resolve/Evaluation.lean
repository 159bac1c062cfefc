import SquirrelAnalyzer.Resolve.Name

namespace SquirrelAnalyzer

namespace Resolve

variable (p : Program) (ask : Ask)

def returnValue (function : Branch) : Resolve Value := do
  let u ← ofOption (p.unit? function.unit)
  let s ← ofOption (u.arena.shape? function.target)
  match u.facts.returnOverrides.get? function.target with
  | some type => lookupType p ask function type <|> return .nominal type
  | none =>
    let body := function.child (← ofOption s.functionBody?)
    if s.kind = .lambdaExpression then ask .value body
    else if (u.arena.ownNode? (· = .yieldExpression) body).isSome then
      return .nominal p.config.generatorType
    else
      let statement ← ofOption (u.arena.ownNode? (· = .returnStatement) body)
      match u.arena.shape? statement.target with
      | some (.returnStatement (some argument)) => ask .value (statement.child argument)
      | _ => failure

def callValue (b : Branch) (callee : NodeId) : Resolve Value := do
  match ← ask .value (b.child callee) with
  | .node callee false _ =>
    let kind ← ofOption (p.kind? callee)
    if kind.isClass then return .instanceOf callee (some b)
    else if kind.isFunction then returnValue p ask callee
    else failure
  | _ => failure

def metaValue (b : Branch) : Resolve Value := do
  let u ← ofOption (p.unit? b.unit)
  match (u.facts.accessors.get? b.target).bind (·.getter) with
  | some getter =>
    let function ← ask .value (← ofOption (u.arena.branchTo getter))
    returnValue p ask (← ofOption function.branch?)
  | none => return .ofBranch b

def valueStep (b : Branch) : Resolve Value := do
  match ← ofOption (p.shape? b) with
  | .variableDeclarator _ init => ask .value (b.child (← ofOption init))
  | .propertyDefinition _ _ _ value => ask .value (b.child (← ofOption value))
  | .methodDefinition _ _ _ value => ask .value (b.child value)
  | .enumMember _ (some init) => ask .value (b.child init)
  | .metaProperty _ => metaValue p ask b
  | .assignmentPattern _ right => ask .value (b.child right)
  | .assignmentExpression _ _ right => ask .value (b.child right)
  | .identifier _ =>
    let d ← ask .definition b
    if d.target = b.target then failure else ask .value d
  | .memberExpression .. | .rootExpression _ => ask .value (← ask .definition b)
  | .thisExpression => thisValue p ask b
  | .baseExpression => return .instanceOf (← baseClass p ask b)
  | .callExpression callee _ => callValue p ask b callee
  | .unaryExpression .clone _ argument => ask .value (b.child argument)
  | .conditionalExpression _ consequent alternate =>
    ask .value (b.child consequent) <|> ask .value (b.child alternate)
  | _ => return .ofBranch b

end Resolve

end SquirrelAnalyzer
