import SquirrelAnalyzer.Doc.Attribute
import SquirrelAnalyzer.Text.Blank

/-!
Reading documentation comments. The delimiters and the stars at line starts are dropped, each line
that starts with an at sign opens a tag, and the lines before the first tag are the description.
-/

namespace SquirrelAnalyzer.Doc

open Text

def namedTags : List String :=
  ["param", "property", "getter", "setter", "augments", "alias", "class", "typedef"]

def linkTags : List String := ["link", "see"]

def typePart (cs : List Char) : Option String × List Char :=
  match cs with
  | '\x7b' :: inner =>
    match inner.dropWhile (· != '\x7d') with
    | _ :: rest =>
      (some (String.ofList (trim (inner.takeWhile (· != '\x7d')))), trimStart rest)
    | [] => (none, cs)
  | _ => (none, cs)

def bracketed? : List Char → Option (List Char)
  | '[' :: cs => if cs.getLast? = some ']' then some cs.dropLast else none
  | _ => none

def nameAndDefault (word : List Char) : Option String × Option String :=
  match bracketed? word with
  | some inner =>
    let name := String.ofList (inner.takeWhile (· != '='))
    match inner.dropWhile (· != '=') with
    | _ :: expected => (some name, some (String.ofList expected))
    | [] => (some name, none)
  | none => (if word = [] then none else some (String.ofList word), none)

def nonempty? (cs : List Char) : Option String :=
  if cs = [] then none else some (String.ofList cs)

def remainder (cs : List Char) : Option String := nonempty? (trim (cs.dropWhile (· == '-')))

def Attribute.ofTag (cs : List Char) : Attribute :=
  let (kindText, rest) := firstWord cs
  let kind := String.ofList kindText
  let (type, rest) := typePart rest
  if linkTags.contains kind then
    let (link, rest) := firstWord rest
    { kind, type, link := nonempty? link, documentation := remainder rest }
  else if namedTags.contains kind then
    let (word, rest) := firstWord rest
    let (name, expected) := nameAndDefault word
    { kind, type, name, expected, documentation := remainder rest }
  else { kind, type, documentation := remainder rest }

def cleanLine (line : List Char) : List Char := trim ((trim line).dropWhile (· == '*'))

def body (cs : List Char) : List Char :=
  dropEnds '/' ['*'] (dropStarts '/' ['*', '*'] (trim cs))

def joinLines (lines : List (List Char)) : List Char := List.intercalate [' '] lines

def opensTag : List Char → Bool
  | '@' :: _ => true
  | _ => false

def tagBlocks : List (List Char) → List (List Char) × List (List (List Char))
  | [] => ([], [])
  | line :: lines =>
    let (front, blocks) := tagBlocks lines
    if opensTag line then ([], (line :: front) :: blocks) else (line :: front, blocks)

def ofLines (lines : List (List Char)) : List Attribute :=
  let (front, blocks) := tagBlocks lines
  let tags := blocks.map fun block => Attribute.ofTag ((joinLines block).drop 1)
  if front = [] then tags
  else Attribute.description (String.ofList (joinLines front)) :: tags

def attributes (cs : List Char) : List Attribute :=
  ofLines (((splitOn '\n' (body cs)).map cleanLine).filter (· != []))

end SquirrelAnalyzer.Doc
