import SquirrelAnalyzer.Arena.Basic
import SquirrelAnalyzer.Arena.Branch

namespace SquirrelAnalyzer

namespace Arena

def rootBranch (a : Arena) : Branch := ⟨a.unit, a.root, []⟩

/-- Goes down from a branch as long as a child is chosen. A child has a smaller number than its
parent, so the number of nodes bounds the steps. -/
def descend (a : Arena) (choose : NodeId → Bool) : Nat → Branch → Branch
  | 0, b => b
  | n + 1, b =>
    match (a.children .full b.target).find? choose with
    | some child => descend a choose n (b.child child)
    | none => b

def hits (a : Arena) (offset : Nat) (id : NodeId) : Bool :=
  match a.location? id with
  | some l => l.containsOffset offset
  | none => false

def branchAt (a : Arena) (offset : Nat) : Option Branch :=
  if a.hits offset a.root then some (a.descend (a.hits offset) a.size a.rootBranch) else none

def leadsTo (a : Arena) (target : NodeId) (goal : Location) (id : NodeId) : Bool :=
  id = target ||
    (target.index < id.index &&
      match a.location? id with
      | some l => l.contains goal
      | none => false)

def descendTo (a : Arena) (target : NodeId) (goal : Location) : Nat → Branch → Option Branch
  | 0, b => if b.target = target then some b else none
  | n + 1, b =>
    if b.target = target then some b
    else
      match (a.children .full b.target).find? (a.leadsTo target goal) with
      | some child => descendTo a target goal n (b.child child)
      | none => none

def branchTo (a : Arena) (target : NodeId) : Option Branch :=
  match a.location? target with
  | some goal => a.descendTo target goal a.size a.rootBranch
  | none => none

def isSyntactic (a : Arena) (b : Branch) : Bool :=
  go b.target b.ancestors
where
  go (target : NodeId) : List NodeId → Bool
    | [] => target = a.root
    | parent :: above => (a.children .full parent).contains target && go parent above

def anchor (a : Arena) (b : Branch) : Branch :=
  if a.isSyntactic b then b else (a.branchTo b.target).getD b

def preorderUpTo (a : Arena) : Nat → Branch → List Branch
  | 0, _ => []
  | n + 1, b => b :: (a.children .full b.target).flatMap fun c => preorderUpTo a n (b.child c)

def preorder (a : Arena) (b : Branch) : List Branch := a.preorderUpTo a.size b

/-- The first node of an accepted kind below a branch or at it, parents first. Functions are not
entered. The depth bounds how far down. -/
def ownNodeUpTo (a : Arena) (accept : Kind → Bool) : Nat → Branch → Option Branch
  | 0, _ => none
  | n + 1, b =>
    match a.kind? b.target with
    | none => none
    | some kind =>
      if accept kind then some b
      else if kind.isFunction then none
      else (a.children .full b.target).findSome? fun c => ownNodeUpTo a accept n (b.child c)

def ownNode? (a : Arena) (accept : Kind → Bool) (body : Branch) : Option Branch :=
  a.ownNodeUpTo accept a.size body

def leftmostUpTo (a : Arena) : Nat → Branch → Branch
  | 0, b => b
  | n + 1, b =>
    match (a.shape? b.target).bind Shape.plainAssignment? with
    | some (left, _) => leftmostUpTo a n (b.child left)
    | none => b

def leftmost (a : Arena) (b : Branch) : Branch := a.leftmostUpTo a.size b

end Arena

namespace Branch

def endingAtAny (a : Arena) (accept : Kind → Bool) (b : Branch) : Option Branch :=
  b.upward.find? fun b => ((a.kind? b.target).map accept).getD false

def endingAt (a : Arena) (kind : Kind) (b : Branch) : Option Branch := b.endingAtAny a (· = kind)

end Branch

end SquirrelAnalyzer
