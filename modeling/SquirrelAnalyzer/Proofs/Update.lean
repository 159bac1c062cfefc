import SquirrelAnalyzer.Analysis.Edit

/-!
What edits come to on programs. Nothing is remembered at that time, so the memo is left out.
-/

namespace SquirrelAnalyzer

namespace Program

def freshValue? (p : Program) (b : Branch) : Option Value :=
  ((p.answer .value b).run.run {}).1

def namespaceEntry? (p : Program) (declaration : Branch) : Option NamespaceEntry := do
  let u ← p.unit? declaration.unit
  let (owner, nameNode) ← p.qualifiedParts? declaration
  let name ← u.keyName? nameNode
  let b ← (← p.freshValue? owner).branch?
  return ⟨b.ref, name, declaration⟩

def recordDeclaration (reparent : Bool) (id : UnitId) (p : Program) (declaration : Branch) :
    Program :=
  match p.namespaceEntry? declaration with
  | none => p
  | some e => p.recordEntry reparent id declaration e

def recordUnit (reparent : Bool) (p : Program) (id : UnitId) : Program :=
  match p.unit? id with
  | none => p
  | some u => u.pending.foldl (recordDeclaration reparent id) p

def refresh (changed : Option UnitId) (p : Program) : Program :=
  let others := (p.liveUnits.map (·.id)).filter (some · ≠ changed)
  others.foldl (recordUnit false) (others.foldl clearNamespaces p)

def settle (p : Program) (id : UnitId) : Program := recordUnit true (p.refresh (some id)) id

def addUnit (p : Program) (a : Arena) : Program := (p.pushUnit a).settle p.nextId

def rebuildUnit (p : Program) (id : UnitId) (a : Arena) : Program :=
  p.setUnit id (some (SourceUnit.build p.config id a))

def replaceUnit (p : Program) (id : UnitId) (a : Arena) : Program :=
  (p.rebuildUnit id a).settle id

def removeUnit (p : Program) (id : UnitId) : Program := (p.setUnit id none).refresh (some id)

def setImports (p : Program) (imports : Imports) : Program := { p with imports }.refresh none

def ofArenas (config : Config) (imports : Imports) (arenas : List Arena) : Program :=
  let p := arenas.foldl pushUnit { config, imports }
  ((List.range arenas.length).map UnitId.mk).foldl (recordUnit true) p

end Program

end SquirrelAnalyzer
