import SquirrelAnalyzer.Text.Letter
import SquirrelAnalyzer.Text.Blank

/-!
Reading JSON documents, strictly: no comments, no trailing commas, nothing behind the value.
-/

namespace SquirrelAnalyzer

open Text

/-- A document. A text is absent when its escapes name half of a surrogate pair, and a number is
absent unless it is written as a natural number. -/
inductive Document
  | null
  | bool (value : Bool)
  | number (natural : Option Nat)
  | text (value : Option String)
  | array (elements : List Document)
  | object (members : List (Option String × Document))
  deriving Inhabited

namespace Document

def isSpace (c : Char) : Bool := c == ' ' || c == '\n' || c == '\t' || c == '\r'

def skipSpace (cs : List Char) : List Char := cs.dropWhile isSpace

def readCode (cs : List Char) : Option (Nat × List Char) :=
  let digits := cs.take 4
  if digits.length = 4 ∧ digits.all isHexDigit then some (hexadecimalValue digits, cs.drop 4)
  else none

def namedEscape? : Char → Option Char
  | '"' => some '"'
  | '\\' => some '\\'
  | '/' => some '/'
  | 'b' => some '\x08'
  | 'f' => some '\x0c'
  | 'n' => some '\n'
  | 'r' => some '\r'
  | 't' => some '\t'
  | _ => none

inductive Piece
  | char (c : Char)
  | high (code : Nat)
  | low (code : Nat)

def Piece.ofCode (n : Nat) : Piece :=
  if 0xd800 ≤ n ∧ n < 0xdc00 then high n
  else if 0xdc00 ≤ n ∧ n < 0xe000 then low n
  else char (Char.ofNat n)

def readPieces : Nat → List Char → Option (List Piece × List Char)
  | 0, _ => none
  | n + 1, cs =>
    match cs with
    | [] => none
    | '"' :: cs => some ([], cs)
    | '\\' :: 'u' :: cs => do
      let (k, cs) ← readCode cs
      let (ps, cs) ← readPieces n cs
      pure (Piece.ofCode k :: ps, cs)
    | '\\' :: c :: cs => do
      let c ← namedEscape? c
      let (ps, cs) ← readPieces n cs
      pure (.char c :: ps, cs)
    | '\\' :: [] => none
    | c :: cs =>
      if c.toNat < 32 then none
      else do
        let (ps, cs) ← readPieces n cs
        pure (.char c :: ps, cs)

def join : List Piece → Option (List Char)
  | [] => some []
  | .char c :: ps => (join ps).map (c :: ·)
  | .high h :: .low l :: ps =>
    (join ps).map (Char.ofNat (0x10000 + (h - 0xd800) * 0x400 + (l - 0xdc00)) :: ·)
  | _ => none

def readString (cs : List Char) : Option (Option String × List Char) := do
  let (ps, cs) ← readPieces (cs.length + 1) cs
  pure ((join ps).map String.ofList, cs)

def someDigits (cs : List Char) : Option (List Char) :=
  match cs with
  | c :: _ => if c.isDigit then some (cs.dropWhile Char.isDigit) else none
  | [] => none

def fractionRest : List Char → Option (List Char)
  | '.' :: cs => someDigits cs
  | cs => some cs

def exponentRest (cs : List Char) : Option (List Char) :=
  match cs with
  | c :: rest =>
    if c = 'e' ∨ c = 'E' then
      match rest with
      | '+' :: digits => someDigits digits
      | '-' :: digits => someDigits digits
      | digits => someDigits digits
    else some cs
  | [] => some cs

def readUnsigned (cs : List Char) : Option (Option Nat × List Char) := do
  let whole := cs.takeWhile Char.isDigit
  let behind := cs.dropWhile Char.isDigit
  if whole = [] ∨ (whole.head? = some '0' ∧ 1 < whole.length) then none
  else
    let rest ← fractionRest behind
    let rest ← exponentRest rest
    pure (if rest.length = behind.length then some (decimalValue whole) else none, rest)

def readNumber : List Char → Option (Option Nat × List Char)
  | '-' :: cs => (readUnsigned cs).map fun r => (none, r.2)
  | cs => readUnsigned cs

def readLiteral (cs : List Char) : Option (Document × List Char) :=
  match dropStart? "null".toList cs with
  | some cs => some (null, cs)
  | none =>
    match dropStart? "true".toList cs with
    | some cs => some (bool true, cs)
    | none => (dropStart? "false".toList cs).map (bool false, ·)

mutual

/-- The value at the front of a text. Each call descends into a shorter text or passes to the list
of the same text once, so twice the length bounds the depth. -/
def readValue : Nat → List Char → Option (Document × List Char)
  | 0, _ => none
  | n + 1, cs =>
    match skipSpace cs with
    | '"' :: cs => (readString cs).map fun r => (text r.1, r.2)
    | '[' :: cs =>
      match skipSpace cs with
      | ']' :: cs => some (array [], cs)
      | cs => (readElements n cs).map fun r => (array r.1, r.2)
    | '\x7b' :: cs =>
      match skipSpace cs with
      | '\x7d' :: cs => some (object [], cs)
      | cs => (readMembers n cs).map fun r => (object r.1, r.2)
    | c :: cs =>
      if c = '-' ∨ c.isDigit then (readNumber (c :: cs)).map fun r => (.number r.1, r.2)
      else readLiteral (c :: cs)
    | [] => none

def readElements : Nat → List Char → Option (List Document × List Char)
  | 0, _ => none
  | n + 1, cs => do
    let (d, cs) ← readValue n cs
    match skipSpace cs with
    | ',' :: cs =>
      let (ds, cs) ← readElements n cs
      pure (d :: ds, cs)
    | ']' :: cs => pure ([d], cs)
    | _ => none

def readMembers : Nat → List Char → Option (List (Option String × Document) × List Char)
  | 0, _ => none
  | n + 1, cs =>
    match skipSpace cs with
    | '"' :: cs => do
      let (key, cs) ← readString cs
      match skipSpace cs with
      | ':' :: cs =>
        let (d, cs) ← readValue n cs
        match skipSpace cs with
        | ',' :: cs =>
          let (ds, cs) ← readMembers n cs
          pure ((key, d) :: ds, cs)
        | '\x7d' :: cs => pure ([(key, d)], cs)
        | _ => none
      | _ => none
    | _ => none

end

def ofText? (cs : List Char) : Option Document :=
  match readValue (2 * cs.length + 2) cs with
  | some (d, rest) => if skipSpace rest = [] then some d else none
  | none => none

end Document

end SquirrelAnalyzer
