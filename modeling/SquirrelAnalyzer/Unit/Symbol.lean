import SquirrelAnalyzer.Node.Id
import SquirrelAnalyzer.Source.Location

namespace SquirrelAnalyzer

inductive SymbolKind
  | classType | method | constructor | property | enumType | enumMember | function | variableName
  | constant
  deriving DecidableEq, Repr, Inhabited

def SymbolKind.name : SymbolKind → String
  | classType => "class"
  | method => "method"
  | constructor => "constructor"
  | property => "property"
  | enumType => "enum"
  | enumMember => "enumMember"
  | function => "function"
  | variableName => "variable"
  | constant => "constant"

structure Symbol where
  name : String
  kind : SymbolKind
  location : Location
  selection : Location
  node : NodeId
  value : Option NodeId
  deriving DecidableEq, Repr, Inhabited

def Symbol.describes (s : Symbol) (node : NodeId) : Bool := s.node = node || s.value = some node

inductive SymbolTree where
  | node (symbol : Symbol) (children : List SymbolTree)
  deriving Repr, Inhabited

abbrev Outline := List SymbolTree

namespace SymbolTree

def symbol : SymbolTree → Symbol
  | node symbol _ => symbol

def children : SymbolTree → Outline
  | node _ children => children

end SymbolTree

namespace Outline

def preorder : Outline → List Symbol
  | [] => []
  | .node s children :: rest => s :: (preorder children ++ preorder rest)

def describes (outline : Outline) (node : NodeId) : Bool :=
  (preorder outline).any (·.describes node)

def addUnder? (owner : NodeId) (child : SymbolTree) : Outline → Option Outline
  | [] => none
  | .node s children :: rest =>
    if s.describes owner then some (.node s (children ++ [child]) :: rest)
    else match addUnder? owner child children with
      | some children => some (.node s children :: rest)
      | none => (addUnder? owner child rest).map (.node s children :: ·)

def takeRoot? (node : NodeId) : Outline → Option (SymbolTree × Outline)
  | [] => none
  | t :: rest =>
    if t.symbol.node = node then some (t, rest)
    else (takeRoot? node rest).map fun r => (r.1, t :: r.2)

def takeBelow? (node : NodeId) : Outline → Option (SymbolTree × Outline)
  | [] => none
  | .node s children :: rest =>
    match (takeRoot? node children).or (takeBelow? node children) with
    | some (t, children) => some (t, .node s children :: rest)
    | none => (takeBelow? node rest).map fun r => (r.1, .node s children :: r.2)

def take? (node : NodeId) (outline : Outline) : Option (SymbolTree × Outline) :=
  (takeRoot? node outline).or (takeBelow? node outline)

/-- Moves the symbol of a declaration under the symbol that stands for its owner. Without a symbol
for either nothing moves, and an owner inside what moves leaves it a root. -/
def reparent (declaration owner : NodeId) (outline : Outline) : Outline :=
  if outline.describes owner then
    match outline.take? declaration with
    | none => outline
    | some (t, rest) => (rest.addUnder? owner t).getD (rest ++ [t])
  else outline

end Outline

end SquirrelAnalyzer
