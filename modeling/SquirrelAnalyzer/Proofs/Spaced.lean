import SquirrelAnalyzer.Proofs.Partition
import SquirrelAnalyzer.Proofs.Spelled

/-!
Texts that are written token by token are read as these tokens.
-/

namespace SquirrelAnalyzer

open Text

namespace Trivia

theorem closeBlock_append {body : List Char} (h : ¬['*', '/'] <:+: body ++ ['*'])
    (rest : List Char) :
    closeBlock (body ++ '*' :: '/' :: rest) = some (body ++ ['*', '/'], rest) := by
  induction body with
  | nil => rfl
  | cons c body ih =>
    have hbody := ih fun hinfix => h (List.infix_cons hinfix)
    rw [List.cons_append, closeBlock, hbody]
    · rfl
    · rintro tail rfl htail
      -- a closing sign here would stand in the body
      cases body with
      | nil => exact absurd (List.cons.inj htail).1 (by decide)
      | cons d body =>
        obtain ⟨rfl, -⟩ := List.cons.inj htail
        exact h (List.prefix_append ['*', '/'] (body ++ ['*'])).isInfix

end Trivia

namespace Gap

variable {rest : List Char}

theorem ofText_eq_rest {c : Char} {cs : List Char} (hblank : isBlank c = false) (hhash : c ≠ '#')
    (hslash : c = '/' → ∀ d ∈ cs.head?, d ≠ '/' ∧ d ≠ '*') :
    ofText (c :: cs) = ⟨[], c :: cs, false⟩ := by
  have hline : startsLineComment (c :: cs) = false := by
    unfold startsLineComment
    split
    · next he => exact absurd (List.cons.inj he).1 hhash
    · next he =>
      obtain ⟨rfl, rfl⟩ := List.cons.inj he
      exact absurd rfl (hslash rfl _ rfl).1
    · rfl
  have hblock : blockBody? (c :: cs) = none := by
    unfold blockBody?
    split
    · next he =>
      obtain ⟨rfl, rfl⟩ := List.cons.inj he
      exact absurd rfl (hslash rfl _ rfl).2
    · rfl
  rw [ofText, if_neg (by simp [hblank]), if_neg (by simp [hline])]
  split
  · rfl
  · next hbody =>
    rw [hblock] at hbody
    cases hbody

theorem ofText_lineComment {text : List Char} (h : (Trivia.lineComment text).WellFormed rest) :
    ofText (text ++ rest) = (ofText rest).cons (.lineComment text) := by
  obtain ⟨hstart, hline, hrest⟩ := h
  have hfails : Fails (· != '\n') rest := fun c hc => by simp [hrest c hc]
  have hread (c : Char) (body : List Char) (hc : isBlank c = false)
      (hopen : startsLineComment (c :: (body ++ rest)) = true) (hbody : '\n' ∉ body) :
      ofText (c :: (body ++ rest)) = (ofText rest).cons (.lineComment (c :: body)) := by
    have haccepts : ∀ d ∈ body, (d != '\n') = true := fun d hd => by
      rw [bne_iff_ne]
      rintro rfl
      exact hbody hd
    obtain ⟨htake, hdrop⟩ := hfails.split haccepts
    rw [ofText, if_neg (by simp [hc]), if_pos hopen, htake, hdrop]
  rcases hstart with ⟨body, rfl⟩ | ⟨body, rfl⟩
  · exact hread _ _ (by decide) rfl fun hmem => hline (List.mem_cons_of_mem _ hmem)
  · exact hread '/' ('/' :: body) (by decide) rfl
      fun hmem => hline (List.mem_cons_of_mem _ hmem)

theorem ofText_blockComment {text : List Char} (h : (Trivia.blockComment text).WellFormed rest) :
    ofText (text ++ rest) = (ofText rest).cons (.blockComment text) := by
  obtain ⟨body, rfl, hbody⟩ := h
  have hclose := Trivia.closeBlock_append hbody rest
  have htext : ['/', '*'] ++ body ++ ['*', '/'] ++ rest =
      '/' :: '*' :: (body ++ '*' :: '/' :: rest) := by simp
  rw [htext, ofText, if_neg (by decide), if_neg (by simp [startsLineComment])]
  split
  · next hnone => cases hnone
  · next inner hinner =>
    cases hinner
    split
    · next hnone =>
      rw [hclose] at hnone
      cases hnone
    · next comment rest' hsome =>
      rw [hclose] at hsome
      cases hsome
      rfl

theorem ofText_run {ts : List Trivia} (h : Trivia.Run rest ts)
    (hrest : ofText rest = ⟨[], rest, false⟩) :
    ofText (ts.flatMap Trivia.text ++ rest) = ⟨ts, rest, false⟩ := by
  induction ts with
  | nil => exact hrest
  | cons t ts ih =>
    obtain ⟨hwell, hrun⟩ := h
    rw [List.flatMap_cons, List.append_assoc]
    cases t with
    | blank c =>
      have hc : isBlank c = true := hwell
      show ofText (c :: (ts.flatMap Trivia.text ++ rest)) = _
      rw [ofText, if_pos hc, ih hrun]
      rfl
    | lineComment text =>
      show ofText (text ++ _) = _
      rw [ofText_lineComment hwell, ih hrun]
      rfl
    | blockComment text =>
      show ofText (text ++ _) = _
      rw [ofText_blockComment hwell, ih hrun]
      rfl

end Gap

namespace Token

variable {kind : Kind} {text x : List Char}

theorem Spelled.begins (h : Spelled kind text) : ∃ c t, text = c :: t ∧ isBlank c = false ∧
    c ≠ '#' ∧ (c = '/' → ∀ d ∈ t.head?, d = '=') := by
  have hplain {c : Char} (hc : isWordStart c = true ∨ c.isDigit = true) :
      isBlank c = false ∧ c ≠ '#' ∧ c ≠ '/' := by
    refine ⟨?_, ?_, ?_⟩
    · rw [← Bool.not_eq_true]
      intro hblank
      obtain ⟨hdigit, hword⟩ := starts_of_isBlank hblank
      rw [hdigit, hword] at hc
      simp at hc
    · rintro rfl
      exact absurd hc (by decide)
    · rintro rfl
      exact absurd hc (by decide)
  have hfirst {c : Char} {t : List Char} (hc : isBlank c = false ∧ c ≠ '#' ∧ c ≠ '/') :
      ∃ c' t', c :: t = c' :: t' ∧ isBlank c' = false ∧ c' ≠ '#' ∧
        (c' = '/' → ∀ d ∈ t'.head?, d = '=') :=
    ⟨c, t, rfl, hc.1, hc.2.1, fun he => absurd he hc.2.2⟩
  cases h with
  | keyword k =>
    have hall : ∀ k ∈ Keyword.all, (k.text.toList.head?.any isWordStart) = true := by
      decide +kernel
    have hstart := hall k (Keyword.mem_all k)
    cases htext : k.text.toList with
    | nil =>
      rw [htext] at hstart
      cases hstart
    | cons c t =>
      rw [htext] at hstart
      exact hfirst (hplain (.inl hstart))
  | punct p =>
    cases htext : p.text.toList with
    | nil => exact absurd htext p.text_ne_nil
    | cons c t =>
      refine ⟨c, t, rfl, Punct.not_isBlank htext, Punct.ne_hash htext, ?_⟩
      rintro rfl d hd
      obtain ⟨t, rfl⟩ := List.head?_eq_some_iff.mp hd
      exact Punct.text_slash htext
  | identifier hc hcs hword => exact hfirst (hplain (.inl hc))
  | decimal hne hdigits hbound =>
    cases text with
    | nil => exact absurd rfl hne
    | cons d digits => exact hfirst (hplain (.inr (hdigits d List.mem_cons_self)))
  | hexadecimal hx hne hdigits hbound => exact hfirst (hplain (.inr (by decide)))
  | character h => exact hfirst (by decide)
  | verbatim s => exact hfirst (by decide)
  | quoted h => exact hfirst (by decide)

theorem Spelled.ofText (h : Spelled kind text) (hx : BlankFirst x) :
    Gap.ofText (text ++ x) = ⟨[], text ++ x, false⟩ := by
  obtain ⟨c, t, rfl, hblank, hhash, hslash⟩ := h.begins
  refine Gap.ofText_eq_rest hblank hhash fun hc d hd => ?_
  cases t with
  | nil =>
    have hne {e : Char} (he : isBlank e = false) : d ≠ e := fun hde =>
      hx.head?_ne he (hde ▸ hd)
    exact ⟨hne (by decide), hne (by decide)⟩
  | cons e t =>
    obtain rfl := Option.some.inj hd
    rw [hslash hc e rfl]
    decide

theorem Spelled.pull (h : Spelled kind text) (hx : BlankFirst x) {gap : List Trivia}
    (hgap : Trivia.Run (text ++ x) gap) :
    Pull.ofText (gap.flatMap Trivia.text ++ (text ++ x)) = ⟨gap, .ok kind, text, x⟩ := by
  unfold Pull.ofText
  rw [Gap.ofText_run hgap (h.ofText hx)]
  simp [scan_spelled h hx]

theorem Spelled.ne_endOfFile (h : Spelled kind text) : kind ≠ .endOfFile := by
  cases h <;> exact nofun

end Token

structure Piece where
  gap : List Trivia
  kind : Token.Kind
  text : List Char

namespace Piece

def gapText (p : Piece) : List Char := p.gap.flatMap Trivia.text

def write (tail : List Trivia) : List Piece → List Char
  | [] => tail.flatMap Trivia.text
  | p :: ps => p.gapText ++ (p.text ++ write tail ps)

def token (offset : Nat) (p : Piece) : Token :=
  let start := offset + byteLength p.gapText
  ⟨p.kind, String.ofList p.text, ⟨start, start + byteLength p.text⟩, p.gapText.contains '\n'⟩

def segments (tail : List Trivia) (offset : Nat) : List Piece → List Segment
  | [] => [⟨offset, tail, token offset ⟨tail, .endOfFile, []⟩⟩]
  | p :: ps =>
    ⟨offset, p.gap, p.token offset⟩ :: segments tail (p.token offset).span.stop ps

end Piece

namespace Token

end Token

end SquirrelAnalyzer
