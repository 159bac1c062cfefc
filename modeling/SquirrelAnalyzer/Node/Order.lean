/-!
Sorting by structural recursion, so that facts that depend on an order can be evaluated in proofs.
-/

namespace SquirrelAnalyzer

variable {α : Type}

def insertBy (le : α → α → Bool) (x : α) : List α → List α
  | [] => [x]
  | y :: ys => if le x y then x :: y :: ys else y :: insertBy le x ys

def sortBy (le : α → α → Bool) (l : List α) : List α := l.foldr (insertBy le) []

end SquirrelAnalyzer
