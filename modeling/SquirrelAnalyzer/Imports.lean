import SquirrelAnalyzer.Node.Id

namespace SquirrelAnalyzer

structure Imports where
  edges : List (UnitId × UnitId)
  deriving Repr, Inhabited

namespace Imports

def none : Imports := ⟨[]⟩

def add (m : Imports) (unit imported : UnitId) : Imports :=
  if (unit, imported) ∈ m.edges then m else ⟨m.edges ++ [(unit, imported)]⟩

def ofList (edges : List (UnitId × UnitId)) : Imports :=
  edges.foldl (fun m e => m.add e.1 e.2) none

def of (m : Imports) (unit : UnitId) : List UnitId :=
  (m.edges.filter (·.1 = unit)).map (·.2)

@[simp] theorem of_none (unit : UnitId) : none.of unit = [] := rfl

end Imports

end SquirrelAnalyzer
