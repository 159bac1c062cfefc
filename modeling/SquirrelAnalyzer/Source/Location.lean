/-!
Ranges of a source text. Offsets count bytes from 0, lines and columns count from 1 and a column
counts bytes. All of them are words of 32 bits.
-/

namespace SquirrelAnalyzer

def maxOffset : Nat := UInt32.size - 1

/-- The offset of a place with a number of bytes in front of it. All places behind the largest
offset have that one. -/
def toOffset (bytes : Nat) : Nat := min bytes maxOffset

theorem toOffset_of_le {n : Nat} (h : n ≤ maxOffset) : toOffset n = n := Nat.min_eq_left h

theorem toOffset_le (n : Nat) : toOffset n ≤ n := Nat.min_le_left _ _

theorem toOffset_mono {m n : Nat} (h : m ≤ n) : toOffset m ≤ toOffset n := by
  unfold toOffset
  omega

@[simp] theorem toOffset_zero : toOffset 0 = 0 := rfl

structure Location where
  startOffset : Nat
  endOffset : Nat
  startLine : Nat
  startColumn : Nat
  endLine : Nat
  endColumn : Nat
  deriving DecidableEq, Repr, Inhabited

namespace Location

def containsOffset (l : Location) (offset : Nat) : Bool :=
  l.startOffset ≤ offset && offset ≤ l.endOffset

def contains (outer inner : Location) : Bool :=
  outer.startOffset ≤ inner.startOffset && inner.endOffset ≤ outer.endOffset

def display (l : Location) : String := toString l.startLine ++ ":" ++ toString l.startColumn

theorem contains_iff {outer inner : Location} :
    outer.contains inner = true ↔
      outer.startOffset ≤ inner.startOffset ∧ inner.endOffset ≤ outer.endOffset := by
  simp [contains]

theorem containsOffset_iff {l : Location} {offset : Nat} :
    l.containsOffset offset = true ↔ l.startOffset ≤ offset ∧ offset ≤ l.endOffset := by
  simp [containsOffset]

theorem contains_trans {a b c : Location} (hab : a.contains b = true) (hbc : b.contains c = true) :
    a.contains c = true := by
  rw [contains_iff] at *
  omega

end Location

structure Span where
  start : Nat
  stop : Nat
  deriving DecidableEq, Repr, Inhabited

end SquirrelAnalyzer
