import SquirrelAnalyzer.Analysis.Basic

/-!
Declarations that are named through an owner. They are recorded under the value of the owner, which
may be in any unit, so they are recorded anew whenever a unit comes or goes.
-/

namespace SquirrelAnalyzer

namespace Program

def qualifiedParts? (p : Program) (declaration : Branch) : Option (Branch × NodeId) :=
  match p.shape? declaration with
  | some (.functionDeclaration (some qualifier) id _ _) => some (declaration.child qualifier, id)
  | some (.classDeclaration (some qualifier) id _ _) => some (declaration.child qualifier, id)
  | some (.assignmentExpression _ left _) =>
    let member := declaration.child left
    ((p.shape? member).bind Shape.member?).map fun (object, property, _) =>
      (member.child object, property)
  | _ => none

def ownerAndName? (p : Program) (declaration : Branch) : Option (Branch × String) := do
  let u ← p.unit? declaration.unit
  let (owner, nameNode) ← p.qualifiedParts? declaration
  return (owner, ← u.keyName? nameNode)

def entryUnder (declaration : Branch) (name : String) (owner : Option Value) :
    Option NamespaceEntry :=
  (owner.bind Value.branch?).map fun b => ⟨b.ref, name, declaration⟩

def modifyUnit (p : Program) (id : UnitId) (f : SourceUnit → SourceUnit) : Program :=
  { p with units := p.units.modify id.index (Option.map f) }

/-- Puts the entry of a declaration behind those of a unit. In the outline the declaration may be
moved under an owner of the same unit. -/
def recordEntry (p : Program) (reparent : Bool) (id : UnitId) (declaration : Branch)
    (e : NamespaceEntry) : Program :=
  p.modifyUnit id fun u =>
    { u with
      namespaces := u.namespaces ++ [e]
      outline :=
        if reparent && e.owner.unit = id then u.outline.reparent declaration.target e.owner.node
        else u.outline }

def clearNamespaces (p : Program) (id : UnitId) : Program :=
  p.modifyUnit id fun u => { u with namespaces := [] }

def loadedIds (p : Program) : List UnitId :=
  ((List.range p.units.size).map UnitId.mk).filter fun id => (p.unit? id).isSome

end Program

namespace Analysis

def modifyProgram (f : Program → Program) : StateM Analysis Unit :=
  modify fun a => { a with program := f a.program }

def clearMemo : StateM Analysis Unit :=
  modify fun a => { a with memo := a.program.loadedIds.foldl Memo.clear a.memo }

def entryOf? (declaration : Branch) : Asking (Option NamespaceEntry) := do
  match (← get).program.ownerAndName? declaration with
  | none => return none
  | some (owner, name) => return Program.entryUnder declaration name (← value owner)

def recordDeclaration (reparent : Bool) (id : UnitId) (declaration : Branch) :
    StateM Analysis Unit := do
  let entry ← entryOf? declaration
  clearMemo
  match entry with
  | none => return
  | some e => modifyProgram (·.recordEntry reparent id declaration e)

def resolveNamespaces (reparent : Bool) (id : UnitId) : StateM Analysis Unit := do
  match (← get).unit? id with
  | none => return
  | some u => u.pending.forM (recordDeclaration reparent id)

def refreshNamespaces (changed : Option UnitId) : StateM Analysis Unit := do
  let others := ((← get).program.liveUnits.map (·.id)).filter (some · ≠ changed)
  others.forM fun id => modifyProgram (·.clearNamespaces id)
  others.forM (resolveNamespaces false)

end Analysis

end SquirrelAnalyzer
