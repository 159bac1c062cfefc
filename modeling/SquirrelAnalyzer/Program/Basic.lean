import SquirrelAnalyzer.Imports
import SquirrelAnalyzer.Unit.Documentation

namespace SquirrelAnalyzer

structure Program where
  config : Config := {}
  /-- The units by number. A removed unit leaves its place empty. -/
  units : Array (Option SourceUnit) := #[]
  imports : Imports := Imports.none
  deriving Inhabited

namespace Program

def unit? (p : Program) (id : UnitId) : Option SourceUnit := p.units[id.index]?.join

def liveUnits (p : Program) : List SourceUnit := p.units.toList.filterMap id

def size (p : Program) : Nat := (p.liveUnits.map (·.arena.size)).foldr (· + ·) 0

def shape? (p : Program) (b : Branch) : Option (Shape NodeId) :=
  (p.unit? b.unit).bind (·.arena.shape? b.target)

def kind? (p : Program) (b : Branch) : Option Kind := (p.shape? b).map Shape.kind

def isClass (p : Program) (b : Branch) : Bool := ((p.kind? b).map Kind.isClass).getD false

def anchor (p : Program) (b : Branch) : Branch :=
  match p.unit? b.unit with
  | some u => u.arena.anchor b
  | none => b

end Program

end SquirrelAnalyzer
