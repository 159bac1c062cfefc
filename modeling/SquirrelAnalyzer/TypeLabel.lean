import SquirrelAnalyzer.Text.Blank

namespace SquirrelAnalyzer

open Text

inductive TypeLabel
  | integer
  | float
  | string
  | bool
  | null
  | table
  | array
  | arrayOf (element : TypeLabel)
  | function
  | classNamed (name : String)
  | instanceNamed (name : String)
  | enumNamed (name : String)
  | any
  | nominal (name : String)
  deriving DecidableEq, Repr, Inhabited

namespace TypeLabel

def builtin? (name : String) : Option TypeLabel :=
  match name with
  | "int" | "integer" => some integer
  | "float" | "number" => some float
  | "string" => some string
  | "bool" | "boolean" => some bool
  | "null" => some null
  | "table" => some table
  | "array" => some array
  | "function" => some function
  | "any" => some any
  | _ => none

def elementText? (cs : List Char) : Option (List Char) :=
  match dropStart? "array<".toList cs with
  | some rest => if rest.getLast? = some '>' then some rest.dropLast else none
  | none => none

theorem length_elementText?_lt {cs inner : List Char} (h : elementText? cs = some inner) :
    inner.length < cs.length := by
  unfold elementText? at h
  split at h
  · next rest hr =>
    split at h
    · cases h
      have := congrArg List.length (dropStart?_eq_some_iff.1 hr)
      simp only [List.length_append, List.length_dropLast] at *
      have : "array<".toList.length = 6 := by decide
      omega
    · simp at h
  · simp at h

def ofText (cs : List Char) : TypeLabel :=
  let name := trim cs
  match builtin? (String.ofList name) with
  | some label => label
  | none =>
    match _h : elementText? name with
    | some element => arrayOf (ofText element)
    | none => nominal (String.ofList name)
termination_by cs.length
decreasing_by
  exact Nat.lt_of_lt_of_le (length_elementText?_lt _h) (length_trim_le cs)

def ofString (written : String) : TypeLabel := ofText written.toList

def display : TypeLabel → String
  | integer => "integer"
  | float => "float"
  | string => "string"
  | bool => "bool"
  | null => "null"
  | table => "table"
  | array => "array"
  | arrayOf element => "array<" ++ element.display ++ ">"
  | function => "function"
  | instanceNamed _ => "instance"
  | any => "any"
  | classNamed name | enumNamed name | nominal name => name

def isBuiltin : TypeLabel → Bool
  | classNamed _ | instanceNamed _ | enumNamed _ | nominal _ => false
  | _ => true

def isNominal : TypeLabel → Bool
  | nominal _ => true
  | _ => false

def arithmetic : TypeLabel → TypeLabel → TypeLabel
  | string, _ | _, string => string
  | integer, integer => integer
  | float, float | float, integer | integer, float => float
  | _, _ => any

end TypeLabel

end SquirrelAnalyzer
