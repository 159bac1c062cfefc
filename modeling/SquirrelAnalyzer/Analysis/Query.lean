import SquirrelAnalyzer.Analysis.Edit
import SquirrelAnalyzer.Resolve.Label

namespace SquirrelAnalyzer

namespace Analysis

variable {α : Type}

def label (b : Branch) : Asking TypeLabel := walk fun p => Resolve.label p p.answer b

def superclasses (b : Branch) : Asking (List Branch) :=
  walk fun p => Resolve.superclasses p p.answer b

def members (b : Branch) : Asking (List Member) :=
  walk fun p => do
    match ← (p.answer .value b).run with
    | some v => Resolve.members p p.answer v
    | none => return []

def findMember (b : Branch) (name : String) : Asking (Option Branch) :=
  walk fun p => (p.answer .value b >>= Resolve.findMember p p.answer name none).run

def ofDefinition (b : Branch) (read : SourceUnit → NodeId → α) : Asking (Option α) := do
  match ← definition b with
  | none => return none
  | some d => return ((← get).unit? d.unit).map (read · d.target)

def documentation (b : Branch) : Asking (Option (List Doc.Attribute)) := do
  return (← ofDefinition b SourceUnit.documentation?).join

def isDeprecated (b : Branch) : Asking Bool := do
  return (← ofDefinition b SourceUnit.isDeprecated).getD false

def branchAt (a : Analysis) (id : UnitId) (offset : Nat) : Option Branch :=
  (a.unit? id).bind (·.arena.branchAt offset)

def definitionAt (id : UnitId) (offset : Nat) : Asking (Option Branch) := do
  match (← get).branchAt id offset with
  | some b => definition b
  | none => return none

end Analysis

end SquirrelAnalyzer
