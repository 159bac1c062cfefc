import SquirrelAnalyzer.Token.Basic
import SquirrelAnalyzer.Text.Blank

namespace SquirrelAnalyzer

open Text

inductive Trivia
  | blank (c : Char)
  | lineComment (text : List Char)
  | blockComment (text : List Char)
  deriving DecidableEq, Repr

namespace Trivia

def text : Trivia → List Char
  | blank c => [c]
  | lineComment text => text
  | blockComment text => text

def isDocumentation : Trivia → Bool
  | blockComment text =>
    (dropStart? "/**".toList text).isSome && (dropStart? "/**/".toList text).isNone
  | _ => false

def closeBlock : List Char → Option (List Char × List Char)
  | '*' :: '/' :: cs => some (['*', '/'], cs)
  | c :: cs => (closeBlock cs).map fun r => (c :: r.1, r.2)
  | [] => none

theorem append_of_closeBlock {cs text rest : List Char} (h : closeBlock cs = some (text, rest)) :
    text ++ rest = cs := by
  fun_induction closeBlock cs generalizing text rest with
  | case1 cs =>
    cases h
    rfl
  | case2 c cs _ ih =>
    obtain ⟨⟨t, r⟩, hr, he⟩ := Option.map_eq_some_iff.1 h
    cases he
    simp [ih hr]
  | case3 => simp at h

end Trivia

/-- The blanks and comments at the front of a text and what follows them. The gap is open when
what follows is a block comment without an end. -/
structure Gap where
  trivia : List Trivia
  rest : List Char
  isOpen : Bool

namespace Gap

def cons (t : Trivia) (g : Gap) : Gap := { g with trivia := t :: g.trivia }

def text (g : Gap) : List Char := g.trivia.flatMap Trivia.text

def startsLineComment : List Char → Bool
  | '#' :: _ => true
  | '/' :: '/' :: _ => true
  | _ => false

def blockBody? : List Char → Option (List Char)
  | '/' :: '*' :: cs => some cs
  | _ => none

theorem eq_of_blockBody? {cs body : List Char} (h : blockBody? cs = some body) :
    cs = '/' :: '*' :: body := by
  unfold blockBody? at h
  split at h
  · next he => simp_all
  · simp at h

def ofText : List Char → Gap
  | [] => ⟨[], [], false⟩
  | c :: cs =>
    if isBlank c then (ofText cs).cons (.blank c)
    else if startsLineComment (c :: cs) then
      (ofText (cs.dropWhile (· != '\n'))).cons (.lineComment (c :: cs.takeWhile (· != '\n')))
    else match _hb : blockBody? (c :: cs) with
      | none => ⟨[], c :: cs, false⟩
      | some body =>
        match _hc : Trivia.closeBlock body with
        | none => ⟨[], c :: cs, true⟩
        | some (comment, rest) => (ofText rest).cons (.blockComment ('/' :: '*' :: comment))
termination_by cs => cs.length
decreasing_by
  · simp
  · have := length_dropWhile_le (· != '\n') cs
    simp only [List.length_cons]
    omega
  · have h₁ := congrArg List.length (Trivia.append_of_closeBlock _hc)
    have h₂ := congrArg List.length (eq_of_blockBody? _hb)
    simp only [List.length_append, List.length_cons] at *
    omega

@[simp] theorem text_cons (t : Trivia) (g : Gap) : (g.cons t).text = t.text ++ g.text := by
  simp [text, cons]

@[simp] theorem rest_cons (t : Trivia) (g : Gap) : (g.cons t).rest = g.rest := rfl

@[simp] theorem isOpen_cons (t : Trivia) (g : Gap) : (g.cons t).isOpen = g.isOpen := rfl

theorem ofText_append (cs : List Char) : (ofText cs).text ++ (ofText cs).rest = cs := by
  fun_induction ofText cs with
  | case1 => rfl
  | case2 c cs _ ih => simp [Trivia.text, ih]
  | case3 c cs _ _ ih => simp [Trivia.text, ih]
  | case4 => rfl
  | case5 => rfl
  | case6 c cs _ _ body hb comment rest hc ih =>
    have := Trivia.append_of_closeBlock hc
    simp [Trivia.text, ih, this, eq_of_blockBody? hb]

theorem length_rest_le (cs : List Char) : (ofText cs).rest.length ≤ cs.length := by
  have h := congrArg List.length (ofText_append cs)
  simp only [List.length_append] at h
  omega

theorem rest_ne_nil_of_isOpen {cs : List Char} (h : (ofText cs).isOpen = true) :
    (ofText cs).rest ≠ [] := by
  fun_induction ofText cs with
  | case1 => simp at h
  | case2 c cs _ ih => exact ih h
  | case3 c cs _ _ ih => exact ih h
  | case4 => simp at h
  | case5 => simp
  | case6 c cs _ _ body hb comment rest hc ih => exact ih h

end Gap

end SquirrelAnalyzer
