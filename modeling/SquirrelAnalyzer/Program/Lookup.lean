import SquirrelAnalyzer.Program.Basic

namespace SquirrelAnalyzer

namespace Arena

def isRest (a : Arena) (id : NodeId) : Bool := a.kind? id = some .restElement

def callable? (a : Arena) (id : NodeId) : Option NodeId :=
  match a.shape? id with
  | none => none
  | some (.variableDeclarator _ init) => init
  | some (.assignmentExpression _ _ right) => some right
  | some (.methodDefinition _ _ _ value) => some value
  | some _ => some id

def accepts (a : Arena) (arguments : Nat) (id : NodeId) : Bool :=
  match ((a.callable? id).bind a.shape?).bind Shape.params? with
  | some params => params.any a.isRest || arguments ≤ params.length
  | none => false

def constructorParams? (a : Arena) (cls : NodeId) : Option (List NodeId) := do
  let (_, body) ← (← a.shape? cls).classParts?
  let value ← (a.children .full body).findSome? fun m =>
    match a.shape? m with
    | some (.methodDefinition .constructor _ _ value) => some value
    | _ => none
  (← a.shape? value).params?

def constructorPosition? (a : Arena) (cls : NodeId) (param : String) : Option Nat := do
  (← a.constructorParams? cls).findIdx? fun p => a.parameterText? p = some param

end Arena

namespace SourceUnit

def memberName? (u : SourceUnit) (member : NodeId) : Option String :=
  ((u.arena.shape? member).bind Shape.nameNode?).bind u.keyName?

def namedBelow (u : SourceUnit) (b : Branch) (members : List NodeId) : List (String × Branch) :=
  members.filterMap fun m => (u.memberName? m).map (·, b.child m)

def membersAt (u : SourceUnit) (b : Branch) : List (String × Branch) :=
  match u.arena.shape? b.target with
  | none => []
  | some s =>
    match s.classParts?, s with
    | some (_, body), _ =>
      u.namedBelow (b.child body) (u.arena.children .full body) ++
        u.namedBelow b ((u.facts.metas.get? b.target).getD [])
    | none, .tableExpression properties => u.namedBelow b properties
    | none, .enumDeclaration _ members => u.namedBelow b members
    | none, _ => []

def aliased? (u : SourceUnit) (name : String) : Option Branch :=
  (u.facts.aliases.toList.find? (·.2 = name)).bind fun e => u.arena.branchTo e.1

end SourceUnit

namespace Program

def accepts (p : Program) (arguments : Nat) (b : Branch) : Bool :=
  match p.unit? b.unit with
  | some u => u.arena.accepts arguments b.target
  | none => false

/-- One of several declarations of a name. For a call with arguments it is the first that accepts
them, if any does, and the first of all otherwise. -/
def variation? (p : Program) (arity : Option Nat) (candidates : List Branch) : Option Branch :=
  let accepted := match arity with
    | some (n + 1) => candidates.find? (p.accepts (n + 1))
    | _ => none
  accepted.or candidates.head?

def scoped? (p : Program) (scope : List ScopedName) (name : String) (arity : Option Nat) :
    Option Branch :=
  p.variation? arity ((scope.filter (·.name = name)).map (·.declaration))

def topLevel? (p : Program) (name : String) (arity : Option Nat) (u : SourceUnit) : Option Branch :=
  p.scoped? (u.scope u.arena.root) name arity

def imported? (p : Program) (unit : UnitId) (name : String) (arity : Option Nat) : Option Branch :=
  ((p.imports.of unit).filterMap p.unit?).findSome? (p.topLevel? name arity)

def rootName? (p : Program) (unit : UnitId) (name : String) : Option Branch :=
  ((p.unit? unit).bind (p.topLevel? name none)).or (p.imported? unit name none)

def memberBranch (owner : Branch) (e : NamespaceEntry) : Branch :=
  if e.declaration.unit = owner.unit then owner.child e.declaration.target else e.declaration

def recordedMembers (p : Program) (owner : Branch) : List (String × Branch) :=
  p.liveUnits.flatMap fun u =>
    (u.entriesOf owner.ref).map fun e => (e.name, memberBranch owner e)

def ownMembers (p : Program) (owner : Branch) : List (String × Branch) :=
  match (p.unit? owner.unit).filter fun u => (u.arena.shape? owner.target).isSome with
  | none => []
  | some u => u.membersAt owner ++ p.recordedMembers owner

def ownMember? (p : Program) (name : String) (arity : Option Nat) (owner : Branch) :
    Option Branch :=
  p.variation? arity (((p.ownMembers owner).filter (·.1 = name)).map (·.2))

def aliased? (p : Program) (name : String) : Option Branch :=
  p.liveUnits.findSome? (·.aliased? name)

def augmented? (p : Program) (cls call : Branch) : Option Branch := do
  let u ← p.unit? cls.unit
  let index ← u.arena.constructorPosition? cls.target (← u.facts.augments.get? cls.target)
  let (_, arguments) ← (← p.shape? call).call?
  return call.child (← arguments[index]?)

def arity? (p : Program) (b : Branch) : Option Nat := do
  let (callee, arguments) ← (← p.shape? (← b.parentBranch?)).call?
  if callee = b.target then some arguments.length else none

end Program

end SquirrelAnalyzer
