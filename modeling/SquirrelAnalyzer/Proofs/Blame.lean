import Mathlib.Data.List.TakeWhile
import SquirrelAnalyzer.Proofs.Layout
import SquirrelAnalyzer.Proofs.Partition
import SquirrelAnalyzer.Proofs.Ranges

namespace SquirrelAnalyzer

open Text

namespace Text

end Text

namespace LineMap

theorem lt_of_mem_laterStarts {offset s : Nat} {cs : List Char} (h : s ∈ laterStarts offset cs) :
    offset < s := by
  induction cs generalizing offset with
  | nil => cases h
  | cons c cs ih =>
    have hpos := c.utf8Size_pos
    simp only [laterStarts] at h
    split at h
    · rcases List.mem_cons.mp h with rfl | h
      · omega
      · have hlt := ih h
        omega
    · have hlt := ih h
      omega

theorem le_of_mem_laterStarts {offset s : Nat} {cs : List Char} (h : s ∈ laterStarts offset cs) :
    s ≤ offset + byteLength cs := by
  induction cs generalizing offset with
  | nil => cases h
  | cons c cs ih =>
    simp only [laterStarts] at h
    rw [byteLength, ← Nat.add_assoc]
    split at h
    · rcases List.mem_cons.mp h with rfl | h
      · exact Nat.le_add_right _ _
      · exact ih h
    · exact ih h

end LineMap

namespace Token

def placed (t : Token) : Token.Kind × Bool × Span := (t.kind, t.newlineBefore, t.span)

namespace Chain

variable {offset : Nat} {k : Token} {ks taken : List Token}

end Chain

end Token

namespace Overlap

variable {α X : Type} {f : α → X}

def upTo (behind behind' : List Token) (both : behind = [] ↔ behind' = []) : Overlap where
  offset n := n
  offset_max _ _ := rfl
  text _ := ""
  behind := behind
  behind' := behind'
  both := both

end Overlap

namespace Parser

open Cursor

variable {s : List Token} {g g' : Grammar} {c : Cursor}

end Parser

namespace Arena

variable {source : String} {tokens : List Token} {comments : List RawComment} {e : SourceError}

end Arena

end SquirrelAnalyzer
