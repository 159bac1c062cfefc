import SquirrelAnalyzer.Node.Id
import SquirrelAnalyzer.Node.Shape
import SquirrelAnalyzer.Source.LineMap
import SquirrelAnalyzer.Doc.Attribute

namespace SquirrelAnalyzer

structure Node where
  id : NodeId
  location : Location
  shape : Shape NodeId
  deriving DecidableEq, Repr, Inhabited

namespace Node

def kind (n : Node) : Kind := n.shape.kind

def children (table : FieldTable) (n : Node) : List NodeId := n.shape.children table

end Node

structure Arena where
  unit : UnitId
  nodes : Array Node
  root : NodeId
  comments : List Doc.Comment
  lines : LineMap
  parsedSize : Nat
  deriving Inhabited

namespace Arena

/-- Puts a node behind the others. Numbers of nodes have no largest one here: words of 32 bits would
run out only with hundreds of gigabytes of nodes. -/
def pushNode (nodes : Array Node) (location : Location) (shape : Shape NodeId) :
    NodeId × Array Node :=
  let id : NodeId := ⟨nodes.size⟩
  (id, nodes.push ⟨id, location, shape⟩)

def get? (a : Arena) (id : NodeId) : Option Node := a.nodes[id.index]?

def size (a : Arena) : Nat := a.nodes.size

def shape? (a : Arena) (id : NodeId) : Option (Shape NodeId) := (a.get? id).map (·.shape)

def kind? (a : Arena) (id : NodeId) : Option Kind := (a.get? id).map (·.kind)

def location? (a : Arena) (id : NodeId) : Option Location := (a.get? id).map (·.location)

def identifierName? (a : Arena) (id : NodeId) : Option String :=
  (a.shape? id).bind Shape.identifierName?

def children (a : Arena) (table : FieldTable) (id : NodeId) : List NodeId :=
  match a.get? id with
  | some n => n.children table
  | none => []

def add (a : Arena) (location : Location) (shape : Shape NodeId) : NodeId × Arena :=
  let (id, nodes) := pushNode a.nodes location shape
  (id, { a with nodes })

def isSynthetic (a : Arena) (id : NodeId) : Bool := a.parsedSize ≤ id.index

def offset? (a : Arena) (line column : Nat) : Option Nat := a.lines.offset? line column

end Arena

end SquirrelAnalyzer
