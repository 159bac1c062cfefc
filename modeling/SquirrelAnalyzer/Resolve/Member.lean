import SquirrelAnalyzer.Program.Lookup
import SquirrelAnalyzer.Resolve.Walk

/-!
Superclasses and members. Members are looked for one level at a time, the value itself first and
then its superclasses, the nearest first.
-/

namespace SquirrelAnalyzer

structure Member where
  name : String
  branch : Branch
  level : Nat
  deriving DecidableEq, Repr, Inhabited

def Member.nearest : List Member → List Member
  | [] => []
  | m :: ms => m :: (nearest ms).filter (·.name ≠ m.name)

namespace Program

def membersOf (p : Program) (levels : List Branch) : List Member :=
  levels.zipIdx.flatMap fun (owner, level) =>
    (p.ownMembers owner).map fun (name, branch) => ⟨name, branch, level⟩

end Program

namespace Resolve

variable (p : Program) (ask : Ask)

def superclass (cls : Branch) : Resolve Branch := do
  let (superclass, _) ← ofOption ((p.shape? cls).bind Shape.classParts?)
  let value ← ask .value (cls.child (← ofOption superclass))
  let b ← ofOption value.branch?
  if p.isClass b then return b else failure

def superclassesUpTo : Nat → List NodeRef → Branch → Resolving (List Branch)
  | 0, _, _ => return []
  | n + 1, seen, cls => do
    match ← (superclass p ask cls).run with
    | none => return []
    | some s =>
      if seen.contains s.ref then return []
      else return s :: (← superclassesUpTo n (s.ref :: seen) s)

def superclasses (cls : Branch) : Resolving (List Branch) :=
  superclassesUpTo p ask p.size [cls.ref] cls

def levels (v : Value) : Resolving (List Branch) :=
  match v.branch? with
  | none => return []
  | some b => do
    if p.isClass b then return b :: (← superclasses p ask b) else return [b]

def findMember (name : String) (arity : Option Nat) (v : Value) : Resolve Branch := do
  let levels ← levels p ask v
  ofOption (levels.findSome? (p.ownMember? name arity))

def members (v : Value) : Resolving (List Member) := do
  return Member.nearest (p.membersOf (← levels p ask v))

end Resolve

end SquirrelAnalyzer
