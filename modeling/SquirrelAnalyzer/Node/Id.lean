namespace SquirrelAnalyzer

structure NodeId where
  index : Nat
  deriving DecidableEq, Repr, Inhabited

def NodeId.display (n : NodeId) : String := "#" ++ toString n.index

structure UnitId where
  index : Nat
  deriving DecidableEq, Repr, Inhabited

def UnitId.display (u : UnitId) : String := "unit" ++ toString u.index

structure NodeRef where
  unit : UnitId
  node : NodeId
  deriving DecidableEq, Repr, Inhabited

end SquirrelAnalyzer
