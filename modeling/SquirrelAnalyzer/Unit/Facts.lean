import SquirrelAnalyzer.Arena.Search
import SquirrelAnalyzer.Node.Order
import SquirrelAnalyzer.Node.Table
import SquirrelAnalyzer.Unit.Symbol

namespace SquirrelAnalyzer

inductive Category
  | function | classType | enumType | enumMember | parameter | variableName | property | method
  deriving DecidableEq, Repr, Inhabited

def Category.name : Category → String
  | function => "function"
  | classType => "class"
  | enumType => "enum"
  | enumMember => "enumMember"
  | parameter => "parameter"
  | variableName => "variable"
  | property => "property"
  | method => "method"

structure Declaration where
  declaring : NodeId
  category : Category
  deriving DecidableEq, Repr, Inhabited

structure ScopedName where
  name : String
  declaration : Branch
  deriving DecidableEq, Repr, Inhabited

structure NamespaceEntry where
  owner : NodeRef
  name : String
  declaration : Branch
  deriving DecidableEq, Repr, Inhabited

structure Accessors where
  getter : Option NodeId := none
  setter : Option NodeId := none
  deriving DecidableEq, Repr, Inhabited

structure ImportHint where
  function : String
  path : String
  call : NodeId
  location : Location
  deriving DecidableEq, Repr, Inhabited

structure Facts where
  declarations : NodeTable Declaration := ∅
  scopes : NodeTable (List ScopedName) := ∅
  normalizedKeys : NodeTable String := ∅
  categories : NodeTable Category := ∅
  docs : NodeTable (List Doc.Attribute) := ∅
  deprecated : NodeTable String := ∅
  typeOverrides : NodeTable String := ∅
  /-- Documented return types, by function. -/
  returnOverrides : NodeTable String := ∅
  aliases : NodeTable String := ∅
  augments : NodeTable String := ∅
  metas : NodeTable (List NodeId) := ∅
  accessors : NodeTable Accessors := ∅
  deriving Inhabited

structure SourceUnit where
  id : UnitId
  arena : Arena
  facts : Facts
  outline : Outline
  hints : List ImportHint
  literals : List NodeId
  pending : List Branch
  namespaces : List NamespaceEntry
  deriving Inhabited

namespace SourceUnit

def keyName? (u : SourceUnit) (key : NodeId) : Option String :=
  (u.arena.identifierName? key).or (u.facts.normalizedKeys.get? key)

def scope (u : SourceUnit) (node : NodeId) : List ScopedName := (u.facts.scopes.get? node).getD []

def entriesOf (u : SourceUnit) (owner : NodeRef) : List NamespaceEntry :=
  u.namespaces.filter (·.owner = owner)

def category? (u : SourceUnit) (node : NodeId) : Option Category := u.facts.categories.get? node

def documentation? (u : SourceUnit) (node : NodeId) : Option (List Doc.Attribute) :=
  u.facts.docs.get? node

def isDeprecated (u : SourceUnit) (node : NodeId) : Bool := u.facts.deprecated.contains node

def declaration? (u : SourceUnit) (name : NodeId) : Option NodeId :=
  (u.facts.declarations.get? name).map (·.declaring)

def semanticTokens (u : SourceUnit) : List (Location × Category) :=
  let found := u.facts.categories.toList.filterMap fun (node, category) =>
    if u.arena.isSynthetic node then none
    else (u.arena.location? node).map (·, category)
  sortBy (fun x y => x.1.startOffset ≤ y.1.startOffset) found

end SourceUnit

end SquirrelAnalyzer
