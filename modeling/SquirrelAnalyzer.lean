import SquirrelAnalyzer.Token.Stream
import SquirrelAnalyzer.Parser.Statement
import SquirrelAnalyzer.Arena.Parse
import SquirrelAnalyzer.Arena.Search
import SquirrelAnalyzer.Unit.Documentation
import SquirrelAnalyzer.Program.Lookup
import SquirrelAnalyzer.Resolve.Answer
import SquirrelAnalyzer.Resolve.Label
import SquirrelAnalyzer.Analysis.Query
import SquirrelAnalyzer.Proofs.Plan
import SquirrelAnalyzer.Proofs.Steps.Evaluation
import SquirrelAnalyzer.Proofs.Steps.Label
import SquirrelAnalyzer.Proofs.Progress
import SquirrelAnalyzer.Proofs.Settled
import SquirrelAnalyzer.Proofs.Transparency
import SquirrelAnalyzer.Proofs.Parser.Source
import SquirrelAnalyzer.Proofs.PostOrder
import SquirrelAnalyzer.Proofs.Ranges
import SquirrelAnalyzer.Proofs.RoundTrip
import SquirrelAnalyzer.Proofs.Record
import SquirrelAnalyzer.Proofs.Reachable
import SquirrelAnalyzer.Proofs.Coherent
import SquirrelAnalyzer.Proofs.Forgotten
import SquirrelAnalyzer.Proofs.NameValue
import SquirrelAnalyzer.Proofs.OwnSource
import SquirrelAnalyzer.Proofs.Termination
import SquirrelAnalyzer.Proofs.OneByOne
import SquirrelAnalyzer.Proofs.Routes
import SquirrelAnalyzer.Proofs.Replay
import SquirrelAnalyzer.Proofs.Isolated
import SquirrelAnalyzer.Proofs.Partition
import SquirrelAnalyzer.Proofs.Slots
import SquirrelAnalyzer.Proofs.History
import SquirrelAnalyzer.Proofs.Followed
import SquirrelAnalyzer.Proofs.Completion
import SquirrelAnalyzer.Proofs.Session
import SquirrelAnalyzer.Proofs.Spelled
import SquirrelAnalyzer.Proofs.Spaced
import SquirrelAnalyzer.Proofs.Respelled.Keys
import SquirrelAnalyzer.Proofs.Ascent
import SquirrelAnalyzer.Proofs.Normal
import SquirrelAnalyzer.Proofs.Fixpoint
import SquirrelAnalyzer.Proofs.Variation
import SquirrelAnalyzer.Proofs.Shadowing
import SquirrelAnalyzer.Proofs.BoundNames
import SquirrelAnalyzer.Proofs.Header
import SquirrelAnalyzer.Proofs.RootName
import SquirrelAnalyzer.Proofs.DepthLimit
import SquirrelAnalyzer.Proofs.KeyDefinition
import SquirrelAnalyzer.Proofs.DocumentedType
import SquirrelAnalyzer.Proofs.ClassLabel
import SquirrelAnalyzer.Proofs.Positions
import SquirrelAnalyzer.Proofs.Leaves
import SquirrelAnalyzer.Proofs.Precedence
import SquirrelAnalyzer.Proofs.GetterCall
import SquirrelAnalyzer.Proofs.Pulled
import SquirrelAnalyzer.Proofs.Layout
import SquirrelAnalyzer.Proofs.Blame
import SquirrelAnalyzer.Proofs.Members
import SquirrelAnalyzer.Proofs.LineColumn
import SquirrelAnalyzer.Proofs.Moved
import SquirrelAnalyzer.Proofs.Mirrored
import SquirrelAnalyzer.Proofs.Mentioned
import SquirrelAnalyzer.Proofs.Listed
import SquirrelAnalyzer.Proofs.Merged
import SquirrelAnalyzer.Proofs.Doc.Words
import SquirrelAnalyzer.Proofs.Doc.Written
import SquirrelAnalyzer.Proofs.Told
import SquirrelAnalyzer.Proofs.Attached
import SquirrelAnalyzer.Proofs.Keyed
import SquirrelAnalyzer.Proofs.Scoped
import SquirrelAnalyzer.Proofs.Tables
import SquirrelAnalyzer.Proofs.Categories
import SquirrelAnalyzer.Proofs.Coloured
import SquirrelAnalyzer.Proofs.DocumentOrder
import SquirrelAnalyzer.Proofs.Gathered
import SquirrelAnalyzer.Proofs.OwnNode
import SquirrelAnalyzer.Proofs.Returned
import SquirrelAnalyzer.Proofs.Annotation
