import Mathlib.Logic.Function.Iterate
import SquirrelAnalyzer.Proofs.Partition

namespace SquirrelAnalyzer

open Text

def LexFault.Spoils : LexFault → List Char → Prop
  | unterminatedComment, cs => ['/', '*'] <+: cs
  | invalidHexadecimal, cs => ['0', 'x'] <+: cs ∨ ['0', 'X'] <+: cs
  | integerOutOfRange, cs => cs ≠ [] ∧ ∀ c ∈ cs, c.isDigit = true
  | unterminatedString, cs => ['"'] <+: cs ∨ ['@', '"'] <+: cs ∨ cs = ['\'', '\\']
  | newlineInString, cs => ['"'] <+: cs ∧ ['\n'] <:+ cs
  | invalidHexadecimalEscape, cs => ['"'] <+: cs ∨ ['\'', '\\', 'x'] <+: cs
  | unknownEscape c, cs => ['"'] <+: cs ∧ ['\\', c] <:+ cs ∨ cs = ['\'', '\\', c]
  | emptyCharacter, cs => cs = ['\''] ∨ cs = ['\'', '\'']
  | unterminatedCharacter, cs => ['\''] <+: cs
  | unexpectedCharacter c, cs => cs = [c]

namespace Token

theorem escapeScan_fault {cs : List Char} {f : LexFault} (h : (escapeScan cs).outcome = .error f) :
    f = .unterminatedString ∧ (escapeScan cs).text = [] ∨
      f = .invalidHexadecimalEscape ∧ ['x'] <+: (escapeScan cs).text ∨
      ∃ c, f = .unknownEscape c ∧ (escapeScan cs).text = [c] := by
  unfold escapeScan at h ⊢
  split at h
  · cases h
    exact .inl ⟨rfl, rfl⟩
  · next c cs =>
    split at h
    · next hx =>
      subst hx
      dsimp only at h
      split at h
      · cases h
      · cases h
        exact .inr (.inl ⟨rfl, List.prefix_append ['x'] _⟩)
    · next hx =>
      dsimp only at h
      split at h
      · cases h
      · cases h
        exact .inr (.inr ⟨c, rfl, by rw [if_neg hx]⟩)

def SpoilsString (f : LexFault) (cs : List Char) : Prop :=
  f = .unterminatedString ∨ f = .newlineInString ∧ ['\n'] <:+ cs ∨ f = .invalidHexadecimalEscape ∨
    ∃ c, f = .unknownEscape c ∧ ['\\', c] <:+ cs

theorem SpoilsString.after {f : LexFault} {cs : List Char} (h : SpoilsString f cs)
    (before : List Char) : SpoilsString f (before ++ cs) := by
  rcases h with rfl | ⟨rfl, hstop⟩ | rfl | ⟨c, rfl, hstop⟩
  · exact .inl rfl
  · exact .inr (.inl ⟨rfl, List.suffix_append_of_suffix hstop⟩)
  · exact .inr (.inr (.inl rfl))
  · exact .inr (.inr (.inr ⟨c, rfl, List.suffix_append_of_suffix hstop⟩))

theorem SpoilsString.spoils {f : LexFault} {cs : List Char} (h : SpoilsString f cs) :
    f.Spoils ('"' :: cs) := by
  have hquote : ['"'] <+: '"' :: cs := List.prefix_append ['"'] cs
  rcases h with rfl | ⟨rfl, hstop⟩ | rfl | ⟨c, rfl, hstop⟩
  · exact .inl hquote
  · exact ⟨hquote, hstop.trans (List.suffix_cons _ _)⟩
  · exact .inl hquote
  · exact .inl ⟨hquote, hstop.trans (List.suffix_cons _ _)⟩

theorem error_of_map {α β : Type} {g : α → β} {s : Scan α} {f : LexFault}
    (h : (s.map g).outcome = .error f) : s.outcome = .error f := by
  obtain ⟨outcome, text, rest⟩ := s
  cases outcome with
  | error g => exact congrArg Except.error (Except.error.inj h)
  | ok a => cases h

theorem stringScan_fault {cs : List Char} {f : LexFault} (h : (stringScan cs).outcome = .error f) :
    SpoilsString f (stringScan cs).text := by
  fun_induction stringScan cs with
  | case1 =>
    cases h
    exact .inl rfl
  | case2 => cases h
  | case3 =>
    cases h
    exact .inr (.inl ⟨rfl, List.suffix_refl _⟩)
  | case4 cs s d hd _ _ ih => exact (ih (error_of_map h)).after _
  | case5 cs s g hg =>
    cases h
    rcases escapeScan_fault hg with ⟨rfl, -⟩ | ⟨rfl, -⟩ | ⟨c, rfl, htext⟩
    · exact .inl rfl
    · exact .inr (.inr (.inl rfl))
    · refine .inr (.inr (.inr ⟨c, rfl, ?_⟩))
      show ['\\', c] <:+ '\\' :: (escapeScan cs).text
      rw [htext]
  | case6 c cs _ _ _ ih => exact (ih (error_of_map h)).after [c]

theorem verbatimScan_fault {cs : List Char} {f : LexFault}
    (h : (verbatimScan cs).outcome = .error f) : f = .unterminatedString := by
  fun_induction verbatimScan cs with
  | case1 => exact (Except.error.inj h).symm
  | case2 cs ih => exact ih (error_of_map h)
  | case3 => cases h
  | case4 c cs _ _ ih => exact ih (error_of_map h)

theorem closeCharacter_fault {d : Char} {cs : List Char} {f : LexFault}
    (h : (closeCharacter d cs).outcome = .error f) : f = .unterminatedCharacter := by
  unfold closeCharacter at h
  split at h
  · exact (Except.error.inj h).symm
  · split at h
    · cases h
    · exact (Except.error.inj h).symm

theorem characterScan_fault {cs : List Char} {f : LexFault}
    (h : (characterScan cs).outcome = .error f) : f.Spoils ('\'' :: (characterScan cs).text) := by
  unfold characterScan at h ⊢
  split at h
  · cases h
    exact .inl rfl
  · next c cs =>
    by_cases hescape : c = '\\'
    · subst hescape
      rw [if_pos rfl] at h ⊢
      dsimp only at h ⊢
      cases he : (escapeScan cs).outcome with
      | ok d =>
        rw [he] at h
        dsimp only at h
        rw [closeCharacter_fault h]
        exact List.prefix_append ['\''] _
      | error g =>
        rw [he] at h
        cases h
        rcases escapeScan_fault he with ⟨rfl, htext⟩ | ⟨rfl, htext⟩ | ⟨c, rfl, htext⟩
        · exact .inr (.inr (congrArg (fun cs => '\'' :: '\\' :: cs) htext))
        · exact .inr ((List.prefix_append_right_inj ['\'', '\\']).mpr htext)
        · exact .inr (congrArg (fun cs => '\'' :: '\\' :: cs) htext)
    · rw [if_neg hescape] at h ⊢
      by_cases hquote : c = '\''
      · subst hquote
        rw [if_pos rfl] at h ⊢
        cases h
        exact .inr rfl
      · rw [if_neg hquote] at h ⊢
        rw [closeCharacter_fault h]
        exact List.prefix_append ['\''] _

theorem decimalScan_fault {c : Char} {cs : List Char} {f : LexFault} (hc : c.isDigit = true)
    (h : (decimalScan (c :: cs)).outcome = .error f) : f.Spoils (decimalScan (c :: cs)).text := by
  unfold decimalScan at h ⊢
  dsimp only at h ⊢
  split at h
  · next hwhole =>
    split at h
    · cases h
    · cases h
      rw [hwhole.1, hwhole.2, List.append_nil, List.append_nil, List.takeWhile_cons_of_pos hc]
      exact ⟨List.cons_ne_nil _ _, List.forall_mem_cons.mpr ⟨hc, fun d hd => List.mem_takeWhile_imp hd⟩⟩
  · cases h

theorem hexadecimalScan_fault {cs : List Char} {f : LexFault}
    (h : (hexadecimalScan cs).outcome = .error f) : f = .invalidHexadecimal := by
  unfold hexadecimalScan at h
  dsimp only at h
  split at h
  · exact (Except.error.inj h).symm
  · cases h

theorem numberScan_fault {c : Char} {cs : List Char} {f : LexFault} (hc : c.isDigit = true)
    (h : (numberScan (c :: cs)).outcome = .error f) : f.Spoils (numberScan (c :: cs)).text := by
  unfold numberScan at h ⊢
  split at h
  · next he =>
    rw [hexadecimalScan_fault h]
    exact .inl (List.prefix_append ['0', 'x'] _)
  · next he =>
    rw [hexadecimalScan_fault h]
    exact .inr (List.prefix_append ['0', 'X'] _)
  · exact decimalScan_fault hc h

theorem punctScan_fault {c : Char} {cs : List Char} {f : LexFault}
    (h : (punctScan c cs).outcome = .error f) : f.Spoils (punctScan c cs).text := by
  unfold punctScan at h ⊢
  split at h
  · cases h
  · cases h
    rfl

theorem scan_fault {cs : List Char} {f : LexFault} (h : (scan cs).outcome = .error f) :
    f.Spoils (scan cs).text := by
  unfold scan at h ⊢
  split at h
  · cases h
  · next c cs =>
    by_cases hdigit : c.isDigit = true
    · rw [if_pos hdigit] at h ⊢
      exact numberScan_fault hdigit h
    · rw [if_neg hdigit] at h ⊢
      by_cases hword : isWordStart c = true
      · rw [if_pos hword] at h
        cases h
      · rw [if_neg hword] at h ⊢
        split at h
        · exact (stringScan_fault (error_of_map h)).spoils
        · rw [verbatimScan_fault (error_of_map h)]
          exact .inr (.inl (List.prefix_append ['@', '"'] _))
        · exact characterScan_fault h
        · exact punctScan_fault h

end Token

theorem Gap.opening_of_isOpen {cs : List Char} (h : (Gap.ofText cs).isOpen = true) :
    ['/', '*'] <+: (Gap.ofText cs).rest := by
  fun_induction Gap.ofText cs with
  | case1 => cases h
  | case2 c cs _ ih => exact ih h
  | case3 c cs _ _ ih => exact ih h
  | case4 => cases h
  | case5 c cs _ _ body hb _ =>
    show ['/', '*'] <+: c :: cs
    rw [eq_of_blockBody? hb]
    exact List.prefix_append ['/', '*'] body
  | case6 c cs _ _ body hb comment rest hc ih => exact ih h

theorem Pull.fault_ofText {cs : List Char} {f : LexFault}
    (h : (Pull.ofText cs).outcome = .error f) : f.Spoils (Pull.ofText cs).text := by
  unfold Pull.ofText at h ⊢
  dsimp only at h ⊢
  split at h
  · next hopen =>
    cases h
    rw [if_pos hopen]
    exact Gap.opening_of_isOpen hopen
  · next hopen =>
    rw [if_neg hopen]
    exact Token.scan_fault h

namespace Lexer

def following (l : Lexer) : Lexer := l.next.2

def after (text : List Char) (pulls : Nat) : Lexer := following^[pulls] (ofText text)

def Stands (text : List Char) (l : Lexer) : Prop :=
  ∃ before, text = before ++ l.rest ∧ byteLength before = l.cursor

variable {text : List Char} {l : Lexer}

theorem following_eq (l : Lexer) : l.following.rest = (Pull.ofText l.rest).rest ∧
    l.following.cursor = Token.stopOffset l.cursor (Pull.ofText l.rest) := by
  rw [following, next_eq]
  exact ⟨rfl, rfl⟩

theorem Stands.following (h : l.Stands text) : l.following.Stands text := by
  obtain ⟨before, htext, hcursor⟩ := h
  obtain ⟨hrest, hcursor'⟩ := l.following_eq
  refine ⟨before ++ ((Pull.ofText l.rest).gapText ++ (Pull.ofText l.rest).text), ?_, ?_⟩
  · rw [htext, hrest, List.append_assoc, List.append_assoc]
    exact congrArg (before ++ ·) (Pull.ofText_append l.rest).symm
  · rw [hcursor', byteLength_append, byteLength_append, hcursor, ← Nat.add_assoc]
    rfl

theorem Stands.cursor_le (h : l.Stands text) : l.cursor ≤ byteLength text := by
  obtain ⟨before, htext, hcursor⟩ := h
  rw [htext, byteLength_append]
  omega

def Fails (text : List Char) (l : Lexer) (e : LexError) : Prop :=
  ∃ before gap construct, text = before ++ gap.flatMap Trivia.text ++ construct ++ l.following.rest ∧
    byteLength before = l.cursor ∧ Trivia.Run (construct ++ l.following.rest) gap ∧
    e.fault.Spoils construct ∧
    e.span = ⟨toOffset (byteLength (before ++ gap.flatMap Trivia.text)),
      toOffset l.following.cursor⟩ ∧
    (byteLength text ≤ maxOffset →
      e.span = ⟨byteLength (before ++ gap.flatMap Trivia.text), l.following.cursor⟩)

theorem result_next_eq_error {e : LexError} (h : l.next.1.result = .error e) :
    (Pull.ofText l.rest).outcome = .error e.fault ∧
      e.span = ⟨toOffset (l.cursor + byteLength (Pull.ofText l.rest).gapText),
        toOffset l.following.cursor⟩ := by
  rw [l.following_eq.2]
  rw [next_eq, Token.Item.ofPull, Token.Item.clamp] at h
  cases hf : (Pull.ofText l.rest).outcome with
  | error f =>
    rw [hf] at h
    cases h
    exact ⟨rfl, rfl⟩
  | ok kind =>
    rw [hf] at h
    cases h

theorem Stands.fails {e : LexError} (h : l.Stands text) (he : l.next.1.result = .error e) :
    l.Fails text e := by
  have hbehind := h.following.cursor_le
  obtain ⟨before, htext, hcursor⟩ := h
  obtain ⟨hfault, hspan⟩ := result_next_eq_error he
  obtain ⟨hrest, hstop⟩ := l.following_eq
  have hstart : byteLength (before ++ (Pull.ofText l.rest).gapText) =
      l.cursor + byteLength (Pull.ofText l.rest).gapText := by rw [byteLength_append, hcursor]
  refine ⟨before, (Pull.ofText l.rest).trivia, (Pull.ofText l.rest).text, ?_, hcursor, ?_,
    Pull.fault_ofText hfault, ?_, fun hsize => ?_⟩
  · rw [htext, hrest, List.append_assoc, List.append_assoc]
    exact congrArg (before ++ ·) (Pull.ofText_append l.rest).symm
  · rw [hrest]
    exact Trivia.run_pull l.rest
  · rw [hspan, ← hstart]
    rfl
  · rw [hspan, ← hstart, toOffset_of_le (Nat.le_trans hbehind hsize), toOffset_of_le]
    · rfl
    · rw [Token.stopOffset] at hstop
      omega

end Lexer

namespace Token

end Token

end SquirrelAnalyzer
