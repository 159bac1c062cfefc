import SquirrelAnalyzer.Program.Basic

namespace SquirrelAnalyzer

inductive Value
  /-- A node that is its own value. An instance stands for an object of the class at the branch, and
  the call is where it was made. -/
  | node (branch : Branch) (isInstance : Bool) (call : Option Branch)
  | nominal (name : String)
  deriving DecidableEq, Repr, Inhabited

namespace Value

def ofBranch (b : Branch) : Value := node b false none

def instanceOf (b : Branch) (call : Option Branch := none) : Value := node b true call

def branch? : Value → Option Branch
  | node b _ _ => some b
  | nominal _ => none

def isInstance : Value → Bool
  | node _ i _ => i
  | nominal _ => false

def instantiated (p : Program) : Value → Value
  | node b i call => if p.isClass b then instanceOf b else node b i call
  | nominal name => nominal name

end Value

end SquirrelAnalyzer
