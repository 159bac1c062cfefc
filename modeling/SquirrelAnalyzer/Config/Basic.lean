import SquirrelAnalyzer.Config.Document

namespace SquirrelAnalyzer

structure Config where
  importFunctions : List String := ["require", "require_optional"]
  magicGetter : String := "_get"
  magicSetter : String := "_set"
  generatorType : String := "Generator"
  maxDepth : Nat := 256
  deriving DecidableEq, Repr, Inhabited

namespace Config

def isImportFunction (c : Config) (name : String) : Bool := c.importFunctions.contains name

inductive Setting
  | importFunctions | magicGetter | magicSetter | generatorType | maxDepth
  deriving DecidableEq, Repr

namespace Setting

def all : List Setting := [importFunctions, magicGetter, magicSetter, generatorType, maxDepth]

def key : Setting → String
  | importFunctions => "import_functions"
  | magicGetter => "magic_getter"
  | magicSetter => "magic_setter"
  | generatorType => "generator_type"
  | maxDepth => "max_depth"

def ofKey? (key : String) : Option Setting := all.find? (·.key = key)

end Setting

def textOf? : Document → Option String
  | .text t => t
  | _ => none

def textsOf? : Document → Option (List String)
  | .array ds => ds.mapM textOf?
  | _ => none

def numberBound : Nat := 1 <<< 64

def naturalOf? : Document → Option Nat
  | .number (some n) => if n < numberBound then some n else none
  | _ => none

def set? (c : Config) (s : Setting) (d : Document) : Option Config :=
  match s with
  | .importFunctions => (textsOf? d).map fun v => { c with importFunctions := v }
  | .magicGetter => (textOf? d).map fun v => { c with magicGetter := v }
  | .magicSetter => (textOf? d).map fun v => { c with magicSetter := v }
  | .generatorType => (textOf? d).map fun v => { c with generatorType := v }
  | .maxDepth => (naturalOf? d).map fun v => { c with maxDepth := v }

def ofMembers? (seen : List Setting) (c : Config) : List (Option String × Document) → Option Config
  | [] => some c
  | (none, _) :: _ => none
  | (some key, d) :: ds =>
    match Setting.ofKey? key with
    | none => ofMembers? seen c ds
    | some s =>
      if s ∈ seen then none
      else match set? c s d with
        | some c => ofMembers? (s :: seen) c ds
        | none => none

def ofElements? (c : Config) : List Setting → List Document → Option Config
  | _, [] => some c
  | [], _ :: _ => none
  | s :: ss, d :: ds =>
    match set? c s d with
    | some c => ofElements? c ss ds
    | none => none

def ofDocument? : Document → Option Config
  | .object ds => ofMembers? [] {} ds
  | .array ds => ofElements? {} Setting.all ds
  | _ => none

def ofText? (text : String) : Option Config := (Document.ofText? text.toList).bind ofDocument?

end Config

end SquirrelAnalyzer
