import SquirrelAnalyzer.Source.Location

namespace SquirrelAnalyzer.Doc

structure Attribute where
  kind : String
  type : Option String := none
  name : Option String := none
  link : Option String := none
  documentation : Option String := none
  expected : Option String := none
  deriving DecidableEq, Repr, Inhabited

def Attribute.description (text : String) : Attribute :=
  { kind := "description", documentation := some text }

structure Comment where
  location : Location
  attributes : List Attribute
  deriving DecidableEq, Repr, Inhabited

end SquirrelAnalyzer.Doc
