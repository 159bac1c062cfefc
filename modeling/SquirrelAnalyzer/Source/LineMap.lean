import SquirrelAnalyzer.Source.Location
import SquirrelAnalyzer.Text.Blank

/-!
The lines of a source text: from a byte offset to a line and column and back.
-/

namespace SquirrelAnalyzer

open Text

structure LineMap where
  starts : List Nat
  size : Nat
  deriving DecidableEq, Repr, Inhabited

namespace LineMap

def laterStarts (before : Nat) : List Char → List Nat
  | [] => []
  | c :: cs =>
    let next := before + c.utf8Size
    if c = '\n' then next :: laterStarts next cs else laterStarts next cs

def ofText (text : List Char) : LineMap :=
  ⟨0 :: (laterStarts 0 text).map toOffset, toOffset (byteLength text)⟩

/-- Line and column of an offset. The sum in the column is one of words. -/
def position (m : LineMap) (offset : Nat) : Nat × Nat :=
  let before := m.starts.takeWhile (· ≤ offset)
  (toOffset (max 1 before.length), (offset - before.getLastD 0 + 1) % UInt32.size)

def location (m : LineMap) (s : Span) : Location :=
  let (startLine, startColumn) := m.position s.start
  let (endLine, endColumn) := m.position s.stop
  ⟨s.start, s.stop, startLine, startColumn, endLine, endColumn⟩

def offset? (m : LineMap) (line column : Nat) : Option Nat :=
  if line = 0 ∨ column = 0 then none
  else
    match m.starts[line - 1]? with
    | none => none
    | some start =>
      let stop := m.starts[line]?.getD ((m.size + 1) % UInt32.size)
      let offset := start + (column - 1)
      if offset < stop then some offset else none

@[simp] theorem location_startOffset (m : LineMap) (s : Span) :
    (m.location s).startOffset = s.start := rfl

@[simp] theorem location_endOffset (m : LineMap) (s : Span) :
    (m.location s).endOffset = s.stop := rfl

end LineMap

end SquirrelAnalyzer
