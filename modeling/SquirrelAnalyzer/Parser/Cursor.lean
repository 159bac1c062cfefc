import SquirrelAnalyzer.Token.Basic
import SquirrelAnalyzer.Node.Shape

/-!
Reading nodes from tokens: the place in the tokens, what was expected there, and the steps that all
productions are made of.
-/

namespace SquirrelAnalyzer

inductive Expected
  | punct (p : Punct)
  | keyword (k : Keyword)
  | identifier
  | expression
  deriving DecidableEq, Repr, Inhabited

def Expected.text : Expected → String
  | punct p => "`" ++ p.text ++ "`"
  | keyword k => "`" ++ k.text ++ "`"
  | identifier => "identifier"
  | expression => "expression"

structure ParseFault where
  expected : Expected
  found : Token
  deriving DecidableEq, Repr, Inhabited

def ParseFault.message (f : ParseFault) : String :=
  let found := match f.found.kind with
    | .endOfFile => "end of file"
    | _ => "`" ++ f.found.text ++ "`"
  "expected " ++ f.expected.text ++ ", found " ++ found

/-- The next token, those behind it and the end of the last one taken. The last token is the end of
the text and is never taken. -/
structure Cursor where
  next : Token
  later : List Token
  lastEnd : Nat
  deriving Repr, Inhabited

namespace Cursor

def advance (c : Cursor) : Cursor :=
  match c.later with
  | [] => c
  | t :: ts => ⟨t, ts, c.next.span.stop⟩

def skipWhile (accept : Token.Kind → Bool) (next : Token) (lastEnd : Nat) : List Token → Cursor
  | [] => ⟨next, [], lastEnd⟩
  | t :: ts =>
    if accept next.kind then skipWhile accept t next.span.stop ts else ⟨next, t :: ts, lastEnd⟩

end Cursor

/-- Where productions put the nodes they finish, and what stands for a node until the one around it
is finished. -/
class Sink (m : Type → Type) (χ : outParam Type) where
  add : Span → Shape χ → m χ
  start : χ → m Nat

namespace Parser

variable {m : Type → Type} {α β χ : Type} [Monad m] [MonadStateOf Cursor m]
  [MonadExceptOf ParseFault m] [Sink m χ]

def peek : m Token := return (← get).next

def peekSecond : m (Option Token) := return (← get).later.head?

def advance : m Token := do
  let c ← get
  set c.advance
  return c.next

def fail (expected : Expected) : m α := do
  throw ⟨expected, ← peek⟩

def at? (k : Token.Kind) : m Bool := return (← peek).kind = k

def eat (k : Token.Kind) : m Bool := do
  let found ← at? k
  if found then
    let _ ← advance
  return found

def atPunct (p : Punct) : m Bool := at? (.punct p)

def eatPunct (p : Punct) : m Bool := eat (.punct p)

def eatKeyword (k : Keyword) : m Bool := eat (.keyword k)

def expectPunct (p : Punct) : m Token := do
  if ← atPunct p then advance else fail (.punct p)

def expectKeyword (k : Keyword) : m Token := do
  if ← at? (.keyword k) then advance else fail (.keyword k)

def skip (ps : List Punct) : m Unit :=
  modify fun c => Cursor.skipWhile (fun k => ps.any (.punct · = k)) c.next c.lastEnd c.later

def atTerminator : m Bool := do
  let t ← peek
  return t.newlineBefore || [.endOfFile, .punct .semicolon, .punct .braceClose,
    .punct .parenClose].contains t.kind

def node (start : Nat) (shape : Shape χ) : m χ := do
  Sink.add ⟨start, max (← get).lastEnd start⟩ shape

def iterateUpTo (step : α → m (Option α)) : Nat → α → m α
  | 0, a => return a
  | n + 1, a => do
    match ← step a with
    | some b => iterateUpTo step n b
    | none => return a

/-- Repeats a step until it gives nothing. Each step that gives something has to take a token, so
the number of tokens bounds the repetitions. -/
def iterate (step : α → m (Option α)) (a : α) : m α := do
  iterateUpTo step ((← get).later.length + 1) a

def manyUpTo (item : m (Option α)) : Nat → m (List α)
  | 0 => return []
  | n + 1 => do
    match ← item with
    | some a => return a :: (← manyUpTo item n)
    | none => return []

def many (item : m (Option α)) : m (List α) := do
  manyUpTo item ((← get).later.length + 1)

def separatedUpTo (stop : m Bool) (item : m α) : Nat → m (List α)
  | 0 => return []
  | n + 1 => do
    if ← stop then return []
    let a ← item
    if ← eatPunct .comma then return a :: (← separatedUpTo stop item n)
    else return [a]

def separated (stop : m Bool) (item : m α) : m (List α) := do
  separatedUpTo stop item ((← get).later.length + 1)

def listUntil (close : Punct) (item : m α) : m (List α) := do
  let items ← separated (atPunct close) item
  let _ ← expectPunct close
  return items

def braced (separators : List Punct) (item : m α) : m (List α) :=
  many do
    skip separators
    if ← eatPunct .braceClose then return none
    else return some (← item)

def identifier : m χ := do
  match (← peek).kind with
  | .identifier name =>
    let t ← advance
    node t.span.start (.identifier name)
  | _ => fail .identifier

def propertyName : m χ := do
  match (← peek).kind with
  | .keyword k =>
    let t ← advance
    node t.span.start (.identifier k.text)
  | _ => identifier

def qualifyStep (separator : Punct) : Option χ × χ → m (Option (Option χ × χ)) :=
  fun (qualifier, id) => do
    if ← eatPunct separator then
      let owner ← match qualifier with
        | some object => node (← Sink.start object) (.memberExpression object id false)
        | none => pure id
      return some (some owner, ← identifier)
    else return none

def qualifiedName (separator : Punct) : m (Option χ × χ) := do
  let first ← identifier
  iterate (qualifyStep separator) (none, first)

end Parser

end SquirrelAnalyzer
