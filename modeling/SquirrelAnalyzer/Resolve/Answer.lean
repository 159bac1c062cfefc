import SquirrelAnalyzer.Resolve.Definition
import SquirrelAnalyzer.Resolve.Evaluation

/-!
Definitions and values. The two queries ask each other; each question about a node whose answer lies
elsewhere is a frame of the walk. As no frame is entered twice at a time, a walk is never deeper
than there are frames.
-/

namespace SquirrelAnalyzer

namespace Program

variable (p : Program)

def subject : Query → Branch → Branch
  | .value, b => b
  | .definition, b =>
    match p.unit? b.unit with
    | some u => u.arena.leftmost b
    | none => b

def direct? (kind : Kind) : (q : Query) → Branch → Option q.Answer
  | .definition, b => if kind.isDeclaring then some b else none
  | .value, b => some (.ofBranch b)

/-- One step towards an answer that lies elsewhere. It starts from the syntactic path to the node, so
what it finds does not depend on how the node was reached. -/
def step (ask : Ask) : (q : Query) → Branch → Resolve q.Answer
  | .definition, b => Resolve.definitionStep p ask (p.anchor b)
  | .value, b => Resolve.valueStep p ask (p.anchor b)

def answerWithin : Nat → Ask
  | 0, _, _ => Resolve.abort
  | n + 1, q, b =>
    let b := p.subject q b
    match p.kind? b with
    | none => failure
    | some kind =>
      if q.isIndirect kind then
        Resolve.remembered p.config.maxDepth q b.ref (p.step (answerWithin n) q b)
      else Resolve.ofOption (direct? kind q b)

def frameCount : Nat := 2 * p.size

def answer : Ask := p.answerWithin (p.frameCount + 1)

end Program

end SquirrelAnalyzer
