import SquirrelAnalyzer.Analysis.Namespace
import SquirrelAnalyzer.Arena.Parse

namespace SquirrelAnalyzer

inductive EditError
  | unknownUnit (id : UnitId)
  | source (error : SourceError)
  deriving DecidableEq, Repr, Inhabited

def EditError.message : EditError → String
  | unknownUnit id => id.display ++ " is not part of this analysis"
  | source e => "failed to parse source: " ++ e.message

/-- A change of an analysis that may be refused. What was written in front of that stays. -/
abbrev Attempt := ExceptT EditError (StateM Analysis)

namespace Program

def nextId (p : Program) : UnitId := ⟨p.units.size⟩

def pushUnit (p : Program) (a : Arena) : Program :=
  { p with units := p.units.push (some (SourceUnit.build p.config p.nextId a)) }

def setUnit (p : Program) (id : UnitId) (u : Option SourceUnit) : Program :=
  { p with units := p.units.setIfInBounds id.index u }

end Program

namespace Analysis

def parseArena (source : String) : Except EditError Arena :=
  (Arena.parse source).mapError .source

def insertUnit (arena : Arena) : StateM Analysis UnitId := do
  let id := (← get).program.nextId
  modifyProgram (·.pushUnit arena)
  return id

/-- Puts a unit into a place, or leaves the place empty. The answers about the unit that was there
leave with it. -/
def putUnit (id : UnitId) (u : Option SourceUnit) : StateM Analysis Unit :=
  modify fun a => { program := a.program.setUnit id u, memo := a.memo.clear id }

def takeUnit (id : UnitId) : StateM Analysis (Option SourceUnit) := do
  let u := (← get).unit? id
  putUnit id none
  return u

def settle (id : UnitId) : StateM Analysis Unit := do
  clearMemo
  refreshNamespaces (some id)
  resolveNamespaces true id

def addUnit (arena : Arena) : StateM Analysis UnitId := do
  let id ← insertUnit arena
  settle id
  return id

def addSource (source : String) : Attempt UnitId := do
  let arena ← liftExcept (parseArena source)
  addUnit arena

def replaceUnit (id : UnitId) (arena : Arena) : Attempt Unit := do
  if ((← get).unit? id).isNone then throw (.unknownUnit id)
  putUnit id (some (SourceUnit.build (← get).program.config id arena))
  settle id

def replaceSource (id : UnitId) (source : String) : Attempt Unit := do
  replaceUnit id (← liftExcept (parseArena source))

def removeUnit (id : UnitId) : Attempt SourceUnit := do
  match ← takeUnit id with
  | none => throw (.unknownUnit id)
  | some u =>
    clearMemo
    refreshNamespaces (some id)
    return u

def setImportResolver (imports : Imports) : StateM Analysis Unit := do
  modifyProgram fun p => { p with imports }
  clearMemo
  refreshNamespaces none

def build (arenas : List Arena) : StateM Analysis Unit := do
  let ids ← arenas.mapM insertUnit
  ids.forM (resolveNamespaces true)

def attempt {α : Type} (change : Attempt α) (a : Analysis) : Except EditError (α × Analysis) :=
  match change.run.run a with
  | (.ok r, a') => .ok (r, a')
  | (.error e, _) => .error e

def ofSources (config : Config) (imports : Imports) (sources : List String) :
    Except EditError Analysis := do
  let arenas ← sources.mapM parseArena
  return ((build arenas).run (ofProgram { config, imports })).2

def add (a : Analysis) (source : String) : Except EditError (UnitId × Analysis) :=
  attempt (addSource source) a

def replace (a : Analysis) (id : UnitId) (source : String) : Except EditError Analysis :=
  (·.2) <$> attempt (replaceSource id source) a

def addArena (a : Analysis) (arena : Arena) : UnitId × Analysis := (addUnit arena).run a

def replaceArena (a : Analysis) (id : UnitId) (arena : Arena) : Except EditError Analysis :=
  (·.2) <$> attempt (replaceUnit id arena) a

def remove (a : Analysis) (id : UnitId) : Except EditError Analysis :=
  (·.2) <$> attempt (removeUnit id) a

def setImports (a : Analysis) (imports : Imports) : Analysis :=
  ((setImportResolver imports).run a).2

end Analysis

end SquirrelAnalyzer
