import SquirrelAnalyzer.Token.Basic
import SquirrelAnalyzer.Token.Fault
import SquirrelAnalyzer.Text.Letter
import SquirrelAnalyzer.Text.Blank
import SquirrelAnalyzer.Decimal.Binary64

/-!
Reading one token off the front of a text. A scan splits the text into the part it read and the
rest, whether or not it found a token.
-/

namespace SquirrelAnalyzer

open Text

structure Scan (α : Type) where
  outcome : Except LexFault α
  text : List Char
  rest : List Char

namespace Scan

def after (before : List Char) (s : Scan α) : Scan α := { s with text := before ++ s.text }

def map (f : α → β) (s : Scan α) : Scan β := ⟨s.outcome.map f, s.text, s.rest⟩

@[simp] theorem text_after (before : List Char) (s : Scan α) :
    (s.after before).text = before ++ s.text := rfl

@[simp] theorem rest_after (before : List Char) (s : Scan α) : (s.after before).rest = s.rest := rfl

@[simp] theorem outcome_after (before : List Char) (s : Scan α) :
    (s.after before).outcome = s.outcome := rfl

@[simp] theorem text_map (f : α → β) (s : Scan α) : (s.map f).text = s.text := rfl

@[simp] theorem rest_map (f : α → β) (s : Scan α) : (s.map f).rest = s.rest := rfl

end Scan

namespace Token

def integerBound : Nat := 1 <<< 63

def fractionPart : List Char → List Char × List Char
  | '.' :: cs =>
    if (cs.head?.map Char.isDigit).getD false then
      ('.' :: cs.takeWhile Char.isDigit, cs.dropWhile Char.isDigit)
    else ([], '.' :: cs)
  | cs => ([], cs)

def signPart : List Char → List Char × List Char
  | '+' :: cs => (['+'], cs)
  | '-' :: cs => (['-'], cs)
  | cs => ([], cs)

def exponentPart : List Char → List Char × List Char
  | [] => ([], [])
  | c :: cs =>
    let (sign, digits) := signPart cs
    if (c = 'e' ∨ c = 'E') ∧ (digits.head?.map Char.isDigit).getD false then
      (c :: sign ++ digits.takeWhile Char.isDigit, digits.dropWhile Char.isDigit)
    else ([], c :: cs)

def exponentValue : List Char → Int
  | [] => 0
  | _ :: cs =>
    let (sign, digits) := signPart cs
    if sign = ['-'] then -(decimalValue digits : Int) else decimalValue digits

def floatValue (whole fraction exponent : List Char) : UInt64 :=
  let digits := fraction.drop 1
  Decimal.toBinary64 (decimalValue (whole ++ digits)) (exponentValue exponent - digits.length)

def decimalScan (cs : List Char) : Scan Kind :=
  let whole := cs.takeWhile Char.isDigit
  let (fraction, rest) := fractionPart (cs.dropWhile Char.isDigit)
  let (exponent, rest) := exponentPart rest
  let outcome :=
    if fraction = [] ∧ exponent = [] then
      let n := decimalValue whole
      if n < integerBound then .ok (.integer n) else .error .integerOutOfRange
    else .ok (.float (floatValue whole fraction exponent))
  ⟨outcome, whole ++ fraction ++ exponent, rest⟩

def hexadecimalScan (cs : List Char) : Scan Kind :=
  let digits := cs.takeWhile isHexDigit
  let n := hexadecimalValue digits
  let outcome :=
    if digits = [] ∨ integerBound ≤ n then .error .invalidHexadecimal else .ok (.integer n)
  ⟨outcome, digits, cs.dropWhile isHexDigit⟩

def numberScan : List Char → Scan Kind
  | '0' :: 'x' :: cs => (hexadecimalScan cs).after ['0', 'x']
  | '0' :: 'X' :: cs => (hexadecimalScan cs).after ['0', 'X']
  | cs => decimalScan cs

def wordScan (cs : List Char) : Scan Kind :=
  let word := cs.takeWhile isWordPart
  let kind := match Keyword.ofWord? word with
    | some keyword => .keyword keyword
    | none => .identifier (String.ofList word)
  ⟨.ok kind, word, cs.dropWhile isWordPart⟩

def namedEscape? : Char → Option Char
  | 'n' => some '\n'
  | 't' => some '\t'
  | 'r' => some '\r'
  | '0' => some '\x00'
  | 'a' => some '\x07'
  | 'b' => some '\x08'
  | 'f' => some '\x0c'
  | 'v' => some '\x0b'
  | '\\' => some '\\'
  | '"' => some '"'
  | '\'' => some '\''
  | _ => none

def ofCode? (digits : List Char) : Option Char :=
  let n := hexadecimalValue digits
  if digits = [] ∨ (0xd800 ≤ n ∧ n < 0xe000) then none else some (Char.ofNat n)

def escapeScan : List Char → Scan Char
  | [] => ⟨.error .unterminatedString, [], []⟩
  | c :: cs =>
    if c = 'x' then
      let digits := (cs.take 4).takeWhile isHexDigit
      let outcome := match ofCode? digits with
        | some d => .ok d
        | none => .error .invalidHexadecimalEscape
      ⟨outcome, c :: digits, cs.drop digits.length⟩
    else
      let outcome := match namedEscape? c with
        | some d => .ok d
        | none => .error (.unknownEscape c)
      ⟨outcome, [c], cs⟩

theorem take_takeWhile_append_drop (p : Char → Bool) (n : Nat) (cs : List Char) :
    (cs.take n).takeWhile p ++ cs.drop ((cs.take n).takeWhile p).length = cs := by
  induction n generalizing cs with
  | zero => simp
  | succ n ih =>
    cases cs with
    | nil => simp
    | cons c cs =>
      by_cases h : p c
      · simp [h, ih]
      · simp [h]

theorem escapeScan_text_append_rest (cs : List Char) :
    (escapeScan cs).text ++ (escapeScan cs).rest = cs := by
  unfold escapeScan
  split
  · rfl
  · split
    · simp [take_takeWhile_append_drop]
    · rfl

theorem length_escapeScan_rest_le (cs : List Char) : (escapeScan cs).rest.length ≤ cs.length := by
  have h := congrArg List.length (escapeScan_text_append_rest cs)
  simp only [List.length_append] at h
  omega

def stringScan : List Char → Scan (List Char)
  | [] => ⟨.error .unterminatedString, [], []⟩
  | c :: cs =>
    if c = '"' then ⟨.ok [], [c], cs⟩
    else if c = '\n' then ⟨.error .newlineInString, [c], cs⟩
    else if c = '\\' then
      let s := escapeScan cs
      match s.outcome with
      | .ok d => ((stringScan s.rest).map (d :: ·)).after (c :: s.text)
      | .error f => ⟨.error f, c :: s.text, s.rest⟩
    else ((stringScan cs).map (c :: ·)).after [c]
termination_by cs => cs.length
decreasing_by
  · have := length_escapeScan_rest_le cs
    simp only [List.length_cons]
    omega
  · simp

def verbatimScan : List Char → Scan (List Char)
  | [] => ⟨.error .unterminatedString, [], []⟩
  | '"' :: '"' :: cs => ((verbatimScan cs).map ('"' :: ·)).after ['"', '"']
  | '"' :: cs => ⟨.ok [], ['"'], cs⟩
  | c :: cs => ((verbatimScan cs).map (c :: ·)).after [c]

def closeCharacter (value : Char) : List Char → Scan Kind
  | [] => ⟨.error .unterminatedCharacter, [], []⟩
  | c :: cs =>
    if c = '\'' then ⟨.ok (.integer value.toNat), [c], cs⟩
    else ⟨.error .unterminatedCharacter, [c], cs⟩

def characterScan : List Char → Scan Kind
  | [] => ⟨.error .emptyCharacter, [], []⟩
  | c :: cs =>
    if c = '\\' then
      let s := escapeScan cs
      match s.outcome with
      | .ok d => (closeCharacter d s.rest).after (c :: s.text)
      | .error f => ⟨.error f, c :: s.text, s.rest⟩
    else if c = '\'' then ⟨.error .emptyCharacter, [c], cs⟩
    else (closeCharacter c cs).after [c]

def punctOf? (ps : List Punct) (cs : List Char) : Option (Punct × List Char) :=
  ps.findSome? fun p => (dropStart? p.text.toList cs).map (p, ·)

def punctScan (c : Char) (cs : List Char) : Scan Kind :=
  match punctOf? Punct.all (c :: cs) with
  | some (p, rest) => ⟨.ok (.punct p), p.text.toList, rest⟩
  | none => ⟨.error (.unexpectedCharacter c), [c], cs⟩

def scan : List Char → Scan Kind
  | [] => ⟨.ok .endOfFile, [], []⟩
  | c :: cs =>
    if c.isDigit then numberScan (c :: cs)
    else if isWordStart c then wordScan (c :: cs)
    else match c, cs with
      | '"', cs => ((stringScan cs).map (.string <| String.ofList ·)).after ['"']
      | '@', '"' :: cs => ((verbatimScan cs).map (.string <| String.ofList ·)).after ['@', '"']
      | '\'', cs => (characterScan cs).after ['\'']
      | c, cs => punctScan c cs

end Token

end SquirrelAnalyzer
