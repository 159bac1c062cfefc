import SquirrelAnalyzer.Token.Stream
import SquirrelAnalyzer.Arena.Basic
import SquirrelAnalyzer.Parser.Statement
import SquirrelAnalyzer.Doc.Reader

/-!
From a source text to its arena, or the first error. Nodes are stored while they are read: a node is
put behind those finished before it, so it comes behind its children and the root comes last.
-/

namespace SquirrelAnalyzer

abbrev Builder := StateT Cursor (StateT (Array Node) (ReaderT LineMap (Except ParseFault)))

namespace Builder

instance : Sink Builder NodeId where
  add span shape := do
    let lines : LineMap ← read
    modifyGetThe (Array Node) fun nodes => Arena.pushNode nodes (lines.location span) shape
  start id := return (← getThe (Array Node))[id.index]!.location.startOffset

def sourceFile (lines : LineMap) (tokens : List Token) :
    Except ParseFault (NodeId × Array Node) := do
  let (body, nodes) ← match tokens with
    | [] => pure ([], #[])
    | t :: ts =>
      let production : Builder (List NodeId) := Parser.statements (.ofDepth (ts.length + 2))
      let ((body, _), nodes) ← production ⟨t, ts, 0⟩ #[] lines
      pure (body, nodes)
  return Arena.pushNode nodes (lines.location ⟨0, lines.size⟩) (.sourceFile body)

end Builder

inductive SourceError
  | lex (fault : LexFault) (location : Location)
  | parse (fault : ParseFault) (location : Location)
  deriving DecidableEq, Repr, Inhabited

namespace SourceError

def location : SourceError → Location
  | lex _ l | parse _ l => l

def message : SourceError → String
  | lex f l => l.display ++ ": " ++ f.message
  | parse f l => l.display ++ ": " ++ f.message

end SourceError

namespace Arena

def readComments (lines : LineMap) (comments : List RawComment) : List Doc.Comment :=
  comments.map fun c => ⟨lines.location c.span, Doc.attributes c.text⟩

def parseText (text : List Char) : Except SourceError Arena :=
  let lines := LineMap.ofText text
  match Token.tokenize text with
  | .error e => .error (.lex e.fault (lines.location e.span))
  | .ok (tokens, comments) =>
    match Builder.sourceFile lines tokens with
    | .error f => .error (.parse f (lines.location f.found.span))
    | .ok (root, nodes) =>
      .ok ⟨⟨0⟩, nodes, root, readComments lines comments, lines, nodes.size⟩

def parse (source : String) : Except SourceError Arena := parseText source.toList

end Arena

end SquirrelAnalyzer
