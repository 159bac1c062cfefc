import SquirrelAnalyzer.Node.Id

namespace SquirrelAnalyzer

/-- A node of a unit and the nodes above it, the nearest first. The nodes need not be related as
parent and child: a declaration is also reached through the owner it is named by. -/
structure Branch where
  unit : UnitId
  target : NodeId
  ancestors : List NodeId
  deriving DecidableEq, Repr, Inhabited

namespace Branch

def ofPath? (unit : UnitId) (path : List NodeId) : Option Branch :=
  match path.reverse with
  | [] => none
  | target :: ancestors => some ⟨unit, target, ancestors⟩

def path (b : Branch) : List NodeId := b.ancestors.reverse ++ [b.target]

def length (b : Branch) : Nat := b.ancestors.length + 1

def ref (b : Branch) : NodeRef := ⟨b.unit, b.target⟩

def parent? (b : Branch) : Option NodeId := b.ancestors.head?

def parentBranch? (b : Branch) : Option Branch :=
  match b.ancestors with
  | [] => none
  | target :: ancestors => some ⟨b.unit, target, ancestors⟩

def child (b : Branch) (id : NodeId) : Branch := ⟨b.unit, id, b.target :: b.ancestors⟩

def truncated (b : Branch) (length : Nat) : Branch :=
  let rec go (target : NodeId) : List NodeId → Branch
    | [] => ⟨b.unit, target, []⟩
    | a :: as => if as.length + 2 ≤ length then ⟨b.unit, target, a :: as⟩ else go a as
  go b.target b.ancestors

def enclosing (b : Branch) : List (Branch × NodeId) :=
  let rec go (inner : NodeId) : List NodeId → List (Branch × NodeId)
    | [] => []
    | a :: as => (⟨b.unit, a, as⟩, inner) :: go a as
  go b.target b.ancestors

def upward (b : Branch) : List Branch := b :: b.enclosing.map (·.1)

@[simp] theorem unit_child (b : Branch) (id : NodeId) : (b.child id).unit = b.unit := rfl

@[simp] theorem target_child (b : Branch) (id : NodeId) : (b.child id).target = id := rfl

@[simp] theorem parentBranch?_child (b : Branch) (id : NodeId) :
    (b.child id).parentBranch? = some b := rfl

@[simp] theorem path_child (b : Branch) (id : NodeId) : (b.child id).path = b.path ++ [id] := by
  simp [child, path]

theorem ref_eq_iff {b b' : Branch} : b.ref = b'.ref ↔ b.unit = b'.unit ∧ b.target = b'.target := by
  simp [ref]

end Branch

end SquirrelAnalyzer
