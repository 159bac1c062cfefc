import SquirrelAnalyzer.Token.Gap
import SquirrelAnalyzer.Token.ScanLemmas

/-!
The tokens of a whole text. Pulling reads one token or error after the other and goes on behind
an error; `tokenize` is the pulled tokens as long as no error comes up.
-/

namespace SquirrelAnalyzer

open Text

structure Pull where
  trivia : List Trivia
  outcome : Except LexFault Token.Kind
  text : List Char
  rest : List Char

namespace Pull

def ofText (cs : List Char) : Pull :=
  let gap := Gap.ofText cs
  if gap.isOpen then ⟨gap.trivia, .error .unterminatedComment, gap.rest, []⟩
  else
    let s := Token.scan gap.rest
    ⟨gap.trivia, s.outcome, s.text, s.rest⟩

def gapText (p : Pull) : List Char := p.trivia.flatMap Trivia.text

theorem ofText_append (cs : List Char) :
    (ofText cs).gapText ++ ((ofText cs).text ++ (ofText cs).rest) = cs := by
  have h := Gap.ofText_append cs
  simp only [ofText]
  split
  · simpa [gapText, Gap.text] using h
  · simpa [gapText, Gap.text, Token.scan_append] using h

def isLast (p : Pull) : Bool :=
  match p.outcome with
  | .ok .endOfFile => true
  | _ => false

theorem isLast_iff {p : Pull} : p.isLast = true ↔ p.outcome = .ok .endOfFile := by
  unfold isLast
  split
  · next h => simp [h]
  · next h => simpa using h

theorem length_rest_lt {cs : List Char} (h : (ofText cs).outcome ≠ .ok .endOfFile) :
    (ofText cs).rest.length < cs.length := by
  have hle := Gap.length_rest_le cs
  revert h
  simp only [ofText]
  split
  · next ho =>
    have := List.length_pos_iff.2 (Gap.rest_ne_nil_of_isOpen ho)
    intro _
    simp only [List.length_nil]
    omega
  · intro h
    by_cases hr : (Gap.ofText cs).rest = []
    · exact absurd (by rw [hr]; rfl) h
    · have := Token.length_scan_rest_lt hr
      show (Token.scan (Gap.ofText cs).rest).rest.length < cs.length
      omega

end Pull

namespace Token

structure Item where
  comments : List RawComment
  result : Except LexError Token

def Item.isEnd (i : Item) : Bool :=
  match i.result with
  | .ok t => t.kind = .endOfFile
  | .error _ => false

end Token

structure Lexer where
  rest : List Char
  cursor : Nat
  newline : Bool

namespace Lexer

def ofText (text : List Char) : Lexer := ⟨text, 0, false⟩

def bump (l : Lexer) : Lexer :=
  match l.rest with
  | [] => l
  | c :: cs => ⟨cs, l.cursor + c.utf8Size, l.newline || c = '\n'⟩

def pass (l : Lexer) : List Char → Lexer
  | [] => l
  | _ :: cs => l.bump.pass cs

def skip (l : Lexer) : List Trivia → Lexer × List RawComment
  | [] => (l, [])
  | t :: ts =>
    let behind := l.pass t.text
    let r := behind.skip ts
    if t.isDocumentation then
      (r.1, ⟨t.text, ⟨toOffset l.cursor, toOffset behind.cursor⟩⟩ :: r.2)
    else r

def next (l : Lexer) : Token.Item × Lexer :=
  let p := Pull.ofText l.rest
  let (start, comments) := skip { l with newline := false } p.trivia
  let stop := start.pass p.text
  let span : Span := ⟨toOffset start.cursor, toOffset stop.cursor⟩
  let result := match p.outcome with
    | .error fault => .error ⟨fault, span⟩
    | .ok kind =>
      let text := takeBytes (span.stop - span.start) p.text
      .ok ⟨kind, String.ofList text, span, start.newline⟩
  (⟨comments, result⟩, stop)

theorem rest_pass {l : Lexer} {cs rest : List Char} (h : l.rest = cs ++ rest) :
    (l.pass cs).rest = rest := by
  induction cs generalizing l with
  | nil => exact h
  | cons c cs ih =>
    refine ih (l := l.bump) ?_
    rw [bump, h]
    rfl

theorem rest_skip {l : Lexer} {ts : List Trivia} {rest : List Char}
    (h : l.rest = ts.flatMap Trivia.text ++ rest) : (l.skip ts).1.rest = rest := by
  induction ts generalizing l with
  | nil => exact h
  | cons t ts ih =>
    have hrest := ih (l := l.pass t.text) (rest_pass (by simpa using h))
    rw [skip]
    split
    · exact hrest
    · exact hrest

theorem rest_next (l : Lexer) : l.next.2.rest = (Pull.ofText l.rest).rest :=
  rest_pass (rest_skip (Pull.ofText_append l.rest).symm)

theorem isEnd_next (l : Lexer) : l.next.1.isEnd = (Pull.ofText l.rest).isLast := by
  rw [Bool.eq_iff_iff, Pull.isLast_iff, next, Token.Item.isEnd]
  cases (Pull.ofText l.rest).outcome with
  | error f => exact iff_of_false nofun nofun
  | ok kind => simp

def items (l : Lexer) : List Token.Item :=
  if _h : l.next.1.isEnd then [l.next.1] else l.next.1 :: l.next.2.items
termination_by l.rest.length
decreasing_by
  rw [rest_next]
  refine Pull.length_rest_lt fun h => _h ?_
  rw [isEnd_next, Pull.isLast_iff, h]

end Lexer

namespace Token

def items (cs : List Char) : List Item := (Lexer.ofText cs).items

def gather : List Item → Except LexError (List Token × List RawComment)
  | [] => .ok ([], [])
  | item :: items =>
    match item.result with
    | .error e => .error e
    | .ok token =>
      match gather items with
      | .error e => .error e
      | .ok (tokens, comments) => .ok (token :: tokens, item.comments ++ comments)

def tokenize (cs : List Char) : Except LexError (List Token × List RawComment) := gather (items cs)

end Token

end SquirrelAnalyzer
