import SquirrelAnalyzer.Text.Ranges

namespace SquirrelAnalyzer.Text

def inRanges (ranges : List (Nat × Nat)) (n : Nat) : Bool :=
  ranges.any fun r => r.1 ≤ n && n ≤ r.2

def isLetter (c : Char) : Bool :=
  if c.toNat < 128 then c.isAlpha else inRanges letterRanges c.toNat

def isNumeral (c : Char) : Bool :=
  if c.toNat < 128 then c.isDigit else inRanges numeralRanges c.toNat

def isWordStart (c : Char) : Bool := c == '_' || isLetter c

def isWordPart (c : Char) : Bool := c == '_' || isLetter c || isNumeral c

theorem isWordPart_of_isWordStart {c : Char} (h : isWordStart c = true) : isWordPart c = true := by
  simp only [isWordStart, isWordPart, Bool.or_eq_true] at *
  exact .inl h

def isHexDigit (c : Char) : Bool :=
  c.isDigit || ('a' ≤ c && c ≤ 'f') || ('A' ≤ c && c ≤ 'F')

def hexValue (c : Char) : Nat :=
  if c.isDigit then c.toNat - 48 else if 'a' ≤ c then c.toNat - 87 else c.toNat - 55

def ofDigits (base : Nat) (value : Char → Nat) (digits : List Char) : Nat :=
  digits.foldl (fun n c => n * base + value c) 0

def decimalValue (digits : List Char) : Nat := ofDigits 10 (fun c => c.toNat - 48) digits

def hexadecimalValue (digits : List Char) : Nat := ofDigits 16 hexValue digits

end SquirrelAnalyzer.Text
