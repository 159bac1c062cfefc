import SquirrelAnalyzer.Resolve.Member
import SquirrelAnalyzer.TypeLabel

namespace SquirrelAnalyzer

namespace Resolve

variable (p : Program) (ask : Ask)

def scopeAt (b : Branch) : List ScopedName :=
  match p.unit? b.unit with
  | none => []
  | some u => if ((p.kind? b).map Kind.isScope).getD false then u.scope b.target else []

/-- The value whose members code sees inside the body of a class, or of a function named through an
owner. The superclass and the owner are outside. -/
def bodyOwner (outer : Branch) (inner : NodeId) : Resolve Value :=
  match p.shape? outer with
  | none => failure
  | some s =>
    match s.classParts?, s with
    | some (_, body), _ => if inner = body then return .instanceOf outer else failure
    | none, .functionDeclaration (some qualifier) _ _ body =>
      if inner = body then ask .value (outer.child qualifier) else failure
    | none, _ => failure

def nameAt (name : String) (arity : Option Nat) (outer : Branch) (inner : NodeId) :
    Resolve Branch :=
  ofOption (p.scoped? (scopeAt p outer) name arity) <|>
    bodyOwner p ask outer inner >>= findMember p ask name arity

def nameAmong (unit : UnitId) (name : String) (arity : Option Nat) :
    List (Branch × NodeId) → Resolve Branch
  | [] => ofOption (p.imported? unit name arity)
  | (outer, inner) :: rest => nameAt p ask name arity outer inner <|> nameAmong unit name arity rest

def lookupName (b : Branch) (name : String) (arity : Option Nat) : Resolve Branch :=
  if (p.unit? b.unit).isSome then nameAmong p ask b.unit name arity b.enclosing else failure

def typeRoot (context : Branch) (name : String) : Resolve Value := do
  match ← attempt (lookupName p ask context name none) with
  | some declaration => ask .value declaration
  | none => return .instanceOf (← ofOption (p.aliased? name))

def memberValue (v : Value) (name : String) : Resolve Value := do
  ask .value (← findMember p ask name none v)

def lookupType (context : Branch) (type : String) : Resolve Value :=
  if (TypeLabel.ofString type).isNominal then
    match (Text.splitOn '.' type.toList).map String.ofList with
    | [] => failure
    | first :: rest => do
      let last ← rest.foldlM (memberValue p ask) (← typeRoot p ask context first)
      return last.instantiated p
  else failure

def thisAmong : List (Branch × NodeId) → Resolve Value
  | [] => failure
  | (outer, _) :: rest =>
    match p.shape? outer with
    | none => failure
    | some s =>
      if s.kind.isClass then return .instanceOf outer
      else match s with
        | .tableExpression _ => return .ofBranch outer
        | .functionDeclaration (some qualifier) .. => do
          return (← ask .value (outer.child qualifier)).instantiated p
        | _ => thisAmong rest

def thisValue (b : Branch) : Resolve Value := thisAmong p ask b.enclosing

def baseClass (b : Branch) : Resolve Branch := do
  superclass p ask (← ofOption (← thisValue p ask b).branch?)

end Resolve

end SquirrelAnalyzer
