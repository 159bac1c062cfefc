import Mathlib.Data.List.TakeWhile
import Mathlib.Tactic.Common
import SquirrelAnalyzer.Token.ScanLemmas

namespace SquirrelAnalyzer

open Text

namespace Text

variable {p : Char → Bool} {x : List Char}

def Fails (p : Char → Bool) (x : List Char) : Prop := ∀ c ∈ x.head?, p c = false

def Parted (x : List Char) : Prop := ∀ c ∈ x.head?, c = ' '

theorem Parted.fails (h : Parted x) (hp : p ' ' = false) : Fails p x := fun c hc => h c hc ▸ hp

theorem rejects_of_all {cs : List Char} (h : cs.all (fun c => !p c) = true) :
    ∀ c ∈ cs, p c = false := by
  simpa using h

theorem Fails.split (h : Fails p x) {cs : List Char} (hcs : ∀ c ∈ cs, p c = true) :
    (cs ++ x).takeWhile p = cs ∧ (cs ++ x).dropWhile p = x := by
  rw [List.takeWhile_append_of_pos hcs, List.dropWhile_append_of_pos hcs]
  cases x with
  | nil => simp
  | cons c x => simp [h c rfl]

theorem Fails.takeWhile_again (h : Fails p x) (cs : List Char) :
    (cs.takeWhile p ++ x).takeWhile p = cs.takeWhile p := (h.split fun _ => List.mem_takeWhile_imp).1

theorem Fails.dropWhile_again (h : Fails p x) (cs : List Char) :
    (cs.takeWhile p ++ x).dropWhile p = x := (h.split fun _ => List.mem_takeWhile_imp).2

end Text

namespace Token

variable {x : List Char}

def Again {α : Type} (scan : List Char → Scan α) (cs : List Char) : Prop :=
  ∀ a, (scan cs).outcome = .ok a → ∀ x, Parted x → scan ((scan cs).text ++ x) = ⟨.ok a, (scan cs).text, x⟩

theorem fractionPart_cases (cs : List Char) : (fractionPart cs).1 = [] ∨
    ∃ d ds, (fractionPart cs).1 = '.' :: d :: ds ∧ ∀ c ∈ d :: ds, c.isDigit = true := by
  unfold fractionPart
  split
  · next cs =>
    split
    · next hd =>
      cases cs with
      | nil => cases hd
      | cons d cs =>
        refine .inr ⟨d, cs.takeWhile Char.isDigit, ?_, ?_⟩
        · simp [show d.isDigit = true from hd]
        · exact List.forall_mem_cons.mpr ⟨hd, fun _ => List.mem_takeWhile_imp⟩
    · exact .inl rfl
  · exact .inl rfl

theorem fractionPart_again (cs : List Char) (hx : Fails (fun c => c.isDigit || c == '.') x) :
    fractionPart ((fractionPart cs).1 ++ x) = ((fractionPart cs).1, x) := by
  have hfails : Fails Char.isDigit x := fun c hc => (Bool.or_eq_false_iff.mp (hx c hc)).1
  rcases fractionPart_cases cs with hnil | ⟨d, ds, hcons, hdigits⟩
  · rw [hnil, List.nil_append]
    unfold fractionPart
    split
    · exact absurd (hx '.' rfl) (by decide)
    · rfl
  · have hhead : d.isDigit = true := hdigits d List.mem_cons_self
    obtain ⟨htake, hdrop⟩ := hfails.split hdigits
    rw [hcons]
    simp only [fractionPart, List.cons_append, List.head?_cons, Option.map_some, Option.getD_some,
      hhead, if_true] at htake hdrop ⊢
    rw [htake, hdrop]

theorem signPart_cases (cs : List Char) :
    (signPart cs).1 = [] ∨ (signPart cs).1 = ['+'] ∨ (signPart cs).1 = ['-'] := by
  unfold signPart
  split <;> simp

theorem exponentPart_cases (cs : List Char) : (exponentPart cs).1 = [] ∨
    ∃ c sign d ds, (exponentPart cs).1 = c :: (sign ++ d :: ds) ∧ (c = 'e' ∨ c = 'E') ∧
      (sign = [] ∨ sign = ['+'] ∨ sign = ['-']) ∧ ∀ c ∈ d :: ds, c.isDigit = true := by
  cases cs with
  | nil => exact .inl rfl
  | cons c cs =>
    simp only [exponentPart]
    split
    · next h =>
      obtain ⟨hc, hhead⟩ := h
      cases hdigits : (signPart cs).2 with
      | nil =>
        rw [hdigits] at hhead
        cases hhead
      | cons d ds =>
        rw [hdigits] at hhead
        refine .inr ⟨c, _, d, ds.takeWhile Char.isDigit, ?_, hc, signPart_cases cs, ?_⟩
        · simp [show d.isDigit = true from hhead]
        · exact List.forall_mem_cons.mpr ⟨hhead, fun _ => List.mem_takeWhile_imp⟩
    · exact .inl rfl

theorem exponentPart_again (cs : List Char) (hx : Parted x) :
    exponentPart ((exponentPart cs).1 ++ x) = ((exponentPart cs).1, x) := by
  rcases exponentPart_cases cs with hnil | ⟨c, sign, d, ds, hcons, hc, hsign, hdigits⟩
  · rw [hnil, List.nil_append]
    cases x with
    | nil => rfl
    | cons c x =>
      obtain rfl := hx c rfl
      simp [exponentPart]
  · have hhead : d.isDigit = true := hdigits d List.mem_cons_self
    have hfails : Fails Char.isDigit x := hx.fails (by decide)
    obtain ⟨htake, hdrop⟩ := hfails.split hdigits
    have hsplit : signPart (sign ++ (d :: ds ++ x)) = (sign, d :: ds ++ x) := by
      rcases hsign with rfl | rfl | rfl
      · unfold signPart
        split
        · next heq =>
          cases heq
          cases hhead
        · next heq =>
          cases heq
          cases hhead
        · rfl
      · rfl
      · rfl
    rw [hcons, List.cons_append, List.append_assoc, exponentPart, hsplit]
    dsimp only
    rw [htake, hdrop]
    simp [hc, hhead]

variable {p : Char → Bool}

theorem fails_exponentPart (cs : List Char) (hx : Parted x)
    (hp : ∀ c ∈ [' ', 'e', 'E'], p c = false) :
    Fails p ((exponentPart cs).1 ++ x) := by
  rcases exponentPart_cases cs with hnil | ⟨c, sign, d, ds, hcons, hc, -, -⟩
  · rw [hnil, List.nil_append]
    exact hx.fails (hp ' ' (by simp))
  · rw [hcons]
    rcases hc with rfl | rfl <;> simp [Fails, hp]

theorem fails_fractionPart (cs : List Char) (hx : Fails p x) (hp : p '.' = false) :
    Fails p ((fractionPart cs).1 ++ x) := by
  rcases fractionPart_cases cs with hnil | ⟨d, ds, hcons, -⟩
  · rwa [hnil, List.nil_append]
  · rw [hcons]
    simp [Fails, hp]

theorem exists_text_decimalScan (cs : List Char) (hx : Parted x)
    (hp : ∀ c ∈ [' ', '.', 'e', 'E'], p c = false) :
    ∃ z, (decimalScan cs).text ++ x = cs.takeWhile Char.isDigit ++ z ∧ Fails p z := by
  refine ⟨_, List.append_assoc _ _ _ |>.trans (List.append_assoc _ _ _), ?_⟩
  refine fails_fractionPart _ (fails_exponentPart _ hx fun c hc => hp c ?_) (hp '.' (by simp))
  simp only [List.mem_cons] at hc ⊢
  tauto

theorem decimalScan_again (cs : List Char) : Again decimalScan cs := by
  intro a h x hx
  have hexponent : Fails (fun c => c.isDigit || c == '.')
      ((exponentPart (fractionPart (cs.dropWhile Char.isDigit)).2).1 ++ x) :=
    fails_exponentPart _ hx (rejects_of_all (by decide))
  have hfraction := fails_fractionPart (cs.dropWhile Char.isDigit)
    (fun c hc => (Bool.or_eq_false_iff.mp (hexponent c hc)).1) (by decide)
  have htext : (decimalScan cs).text = cs.takeWhile Char.isDigit ++
      (fractionPart (cs.dropWhile Char.isDigit)).1 ++
        (exponentPart (fractionPart (cs.dropWhile Char.isDigit)).2).1 := rfl
  rw [← h, htext, List.append_assoc, List.append_assoc]
  unfold decimalScan
  simp only [hfraction.takeWhile_again, hfraction.dropWhile_again, fractionPart_again _ hexponent,
    exponentPart_again _ hx]

theorem hexadecimalScan_again (cs : List Char) : Again hexadecimalScan cs := by
  intro a h x hx
  have hfails : Fails isHexDigit x := hx.fails (by decide)
  have htext : (hexadecimalScan cs).text = cs.takeWhile isHexDigit := rfl
  rw [← h, htext]
  unfold hexadecimalScan
  simp only [hfails.takeWhile_again, hfails.dropWhile_again]

theorem numberScan_cases (cs : List Char) : (∃ rest, cs = '0' :: 'x' :: rest) ∨
    (∃ rest, cs = '0' :: 'X' :: rest) ∨ numberScan cs = decimalScan cs := by
  unfold numberScan
  split
  · exact .inl ⟨_, rfl⟩
  · exact .inr (.inl ⟨_, rfl⟩)
  · exact .inr (.inr rfl)

theorem numberScan_again {c : Char} (hc : c.isDigit = true) (cs : List Char) :
    Again numberScan (c :: cs) := by
  intro a h x hx
  rcases numberScan_cases (c :: cs) with ⟨rest, heq⟩ | ⟨rest, heq⟩ | hdecimal
  · rw [heq] at h ⊢
    show (hexadecimalScan ((hexadecimalScan rest).text ++ x)).after ['0', 'x'] = _
    rw [hexadecimalScan_again rest a h x hx]
    rfl
  · rw [heq] at h ⊢
    show (hexadecimalScan ((hexadecimalScan rest).text ++ x)).after ['0', 'X'] = _
    rw [hexadecimalScan_again rest a h x hx]
    rfl
  · rw [hdecimal] at h ⊢
    have hagain := decimalScan_again (c :: cs) a h x hx
    -- the second character is a digit or one of those that can stand behind digits
    obtain ⟨z, htext, hz⟩ := exists_text_decimalScan (p := fun c => c == 'x' || c == 'X') (c :: cs) hx
      (rejects_of_all (by decide))
    rw [List.takeWhile_cons_of_pos hc, List.cons_append] at htext
    have hsecond : Fails (fun c => c == 'x' || c == 'X') (cs.takeWhile Char.isDigit ++ z) := by
      cases hdigits : cs.takeWhile Char.isDigit with
      | nil => exact hz
      | cons d ds =>
        have hd : d.isDigit = true := List.mem_takeWhile_imp (hdigits ▸ List.mem_cons_self)
        rintro _ ⟨⟩
        refine Bool.or_eq_false_iff.mpr ⟨?_, ?_⟩ <;>
        · rw [beq_eq_false_iff_ne]
          rintro rfl
          exact absurd hd (by decide)
    rcases numberScan_cases ((decimalScan (c :: cs)).text ++ x) with ⟨rest, heq⟩ | ⟨rest, heq⟩ | heq
    · rw [htext] at heq
      rw [(List.cons.inj heq).2] at hsecond
      exact absurd (hsecond 'x' rfl) (by decide)
    · rw [htext] at heq
      rw [(List.cons.inj heq).2] at hsecond
      exact absurd (hsecond 'X' rfl) (by decide)
    · rw [heq, hagain]

theorem wordScan_again (cs : List Char) : Again wordScan cs := by
  intro a h x hx
  have hfails : Fails isWordPart x := hx.fails (by decide)
  have htext : (wordScan cs).text = cs.takeWhile isWordPart := rfl
  rw [← h, htext]
  unfold wordScan
  simp only [hfails.takeWhile_again, hfails.dropWhile_again]

theorem take_takeWhile_again (n : Nat) (cs : List Char) {y : List Char}
    (hy : y.head? = (cs.drop ((cs.take n).takeWhile p).length).head?) :
    (((cs.take n).takeWhile p ++ y).take n).takeWhile p = (cs.take n).takeWhile p := by
  induction n generalizing cs with
  | zero => simp
  | succ n ih =>
    cases cs with
    | nil =>
      obtain rfl : y = [] := by simpa using hy
      rfl
    | cons c cs =>
      by_cases hc : p c = true
      · simp only [List.take_succ_cons, List.takeWhile_cons_of_pos hc, List.cons_append,
          List.length_cons, List.drop_succ_cons] at hy ⊢
        rw [ih cs hy]
      · simp only [List.take_succ_cons, List.takeWhile_cons_of_neg hc, List.nil_append,
          List.length_nil, List.drop_zero, List.head?_cons] at hy ⊢
        cases y with
        | nil => rfl
        | cons d y =>
          obtain rfl := Option.some.inj hy
          simp [hc]

theorem escapeScan_again (cs : List Char) {y : List Char} {d : Char}
    (h : (escapeScan cs).outcome = .ok d) (hy : y.head? = (escapeScan cs).rest.head?) :
    escapeScan ((escapeScan cs).text ++ y) = ⟨.ok d, (escapeScan cs).text, y⟩ := by
  cases cs with
  | nil => cases h
  | cons c cs =>
    by_cases hc : c = 'x'
    · subst hc
      simp only [escapeScan, if_true] at h hy
      simp only [escapeScan, if_true, List.cons_append, take_takeWhile_again 4 cs hy, List.drop_left, h]
    · simp only [escapeScan, hc, if_false] at h
      simp only [escapeScan, hc, if_false, List.singleton_append, h]

theorem stringScan_text_ne_nil {cs a : List Char} (h : (stringScan cs).outcome = .ok a) :
    (stringScan cs).text ≠ [] := by
  cases cs with
  | nil => simp [stringScan] at h
  | cons c cs =>
    unfold stringScan
    split
    · simp
    · split
      · simp
      · split
        · dsimp only
          split <;> simp
        · simp

theorem exists_of_map {α β : Type} {f : α → β} {s : Scan α} {b : β}
    (h : (s.map f).outcome = .ok b) : ∃ a, s.outcome = .ok a ∧ f a = b := by
  simp only [Scan.map] at h
  cases hs : s.outcome with
  | error e =>
    rw [hs] at h
    cases h
  | ok a =>
    rw [hs] at h
    exact ⟨a, rfl, Except.ok.inj h⟩

theorem stringScan_again {cs a : List Char} (h : (stringScan cs).outcome = .ok a) (y : List Char) :
    stringScan ((stringScan cs).text ++ y) = ⟨.ok a, (stringScan cs).text, y⟩ := by
  fun_induction stringScan cs generalizing a with
  | case1 => cases h
  | case2 cs =>
    cases h
    simp [stringScan]
  | case3 => cases h
  | case4 cs s d hd =>
    rename_i ih
    obtain ⟨b, hb, rfl⟩ := exists_of_map h
    have hagain := ih hb
    have hhead : ((stringScan s.rest).text ++ y).head? = s.rest.head? := by
      rw [← congrArg List.head? (stringScan_append s.rest)]
      cases htext : (stringScan s.rest).text with
      | nil => exact absurd htext (stringScan_text_ne_nil hb)
      | cons e es => rfl
    have hescape := escapeScan_again cs hd hhead
    simp only [s] at hagain hescape ⊢
    simp only [Scan.text_after, Scan.text_map, List.cons_append, List.append_assoc]
    rw [stringScan]
    simp [hescape, hagain, Scan.map, Scan.after, Except.map]
  | case5 => cases h
  | case6 c cs hquote hnewline hescape ih =>
    obtain ⟨b, hb, rfl⟩ := exists_of_map h
    have hagain := ih hb
    simp only [Scan.text_after, Scan.text_map, List.cons_append]
    rw [stringScan]
    simp [hquote, hnewline, hescape, hagain, Scan.map, Scan.after, Except.map]

theorem verbatimScan_again {cs a : List Char} (h : (verbatimScan cs).outcome = .ok a)
    (hx : Parted x) :
    verbatimScan ((verbatimScan cs).text ++ x) = ⟨.ok a, (verbatimScan cs).text, x⟩ := by
  fun_induction verbatimScan cs generalizing a with
  | case1 => cases h
  | case2 cs ih =>
    obtain ⟨b, hb, rfl⟩ := exists_of_map h
    have hagain := ih hb
    simp [verbatimScan, hagain, Scan.map, Scan.after, Except.map]
  | case3 cs hquote =>
    cases h
    cases x with
    | nil => simp [verbatimScan]
    | cons c x =>
      obtain rfl := hx c rfl
      simp [verbatimScan]
  | case4 c cs h₁ h₂ ih =>
    obtain ⟨b, hb, rfl⟩ := exists_of_map h
    have hagain := ih hb
    simp only [Scan.text_after, Scan.text_map, List.singleton_append]
    rw [List.cons_append, verbatimScan.eq_4 _ _ (fun _ hc => absurd hc h₂) h₂, hagain]
    rfl

theorem closeCharacter_eq {d : Char} {cs : List Char} {k : Kind}
    (h : (closeCharacter d cs).outcome = .ok k) :
    ∃ rest, cs = '\'' :: rest ∧ ∀ y, closeCharacter d ('\'' :: y) = ⟨.ok k, ['\''], y⟩ := by
  cases cs with
  | nil => cases h
  | cons c cs =>
    simp only [closeCharacter] at h ⊢
    split at h
    · next hc =>
      cases h
      exact ⟨cs, by rw [hc], fun y => by simp⟩
    · cases h

theorem characterScan_again {cs : List Char} {k : Kind} (h : (characterScan cs).outcome = .ok k)
    (y : List Char) :
    characterScan ((characterScan cs).text ++ y) = ⟨.ok k, (characterScan cs).text, y⟩ := by
  cases cs with
  | nil => cases h
  | cons c cs =>
    simp only [characterScan] at h ⊢
    split at h
    · next hc =>
      subst hc
      split at h
      · next d hd =>
        obtain ⟨rest, hrest, hclose⟩ := closeCharacter_eq h
        have hescape := escapeScan_again (y := '\'' :: y) cs hd (by rw [hrest]; rfl)
        simp [hrest, hclose, hescape, Scan.after]
      · cases h
    · split at h
      · cases h
      · next hslash hquote =>
        obtain ⟨rest, rfl, hclose⟩ := closeCharacter_eq h
        simp [hslash, hquote, hclose, Scan.after]

theorem punctOf?_text (p : Punct) (hx : Parted x) :
    punctOf? Punct.all (p.text.toList ++ x) = some (p, x) := by
  cases x with
  | nil => cases p <;> decide
  | cons c x =>
    obtain rfl := hx c rfl
    cases p <;> rfl

theorem quote_notMem_text (p : Punct) : '"' ∉ p.text.toList := by cases p <;> decide

theorem punctScan_again {c : Char} {cs : List Char} {k : Kind}
    (h : (punctScan c cs).outcome = .ok k) (hx : Parted x) :
    ∃ t, (punctScan c cs).text = c :: t ∧ (t ++ x).head? ≠ some '"' ∧
      punctScan c (t ++ x) = ⟨.ok k, c :: t, x⟩ := by
  unfold punctScan at h ⊢
  split at h
  · next p rest hp =>
    cases h
    have happend := append_of_punctOf? hp
    have hagain := punctOf?_text p hx
    have hquote := quote_notMem_text p
    cases htext : p.text.toList with
    | nil => exact absurd htext p.text_ne_nil
    | cons d t =>
      rw [htext] at happend hagain hquote
      obtain ⟨rfl, -⟩ := List.cons.inj happend
      rw [List.cons_append] at hagain
      refine ⟨t, rfl, ?_, by simp [hagain, htext]⟩
      cases t with
      | nil =>
        intro hhead
        exact absurd (hx '"' hhead) (by decide)
      | cons e t =>
        rintro ⟨⟩
        simp at hquote
  · cases h

section

variable {c : Char} {k : Kind}

theorem scan_punct (hdigit : ¬ c.isDigit = true) (hword : ¬ isWordStart c = true) (hquote : c ≠ '"')
    (hapostrophe : c ≠ '\'') {cs : List Char} (hverbatim : c = '@' → cs.head? ≠ some '"') :
    scan (c :: cs) = punctScan c cs := by
  unfold scan
  dsimp only
  rw [if_neg hdigit, if_neg hword]
  split
  · exact absurd rfl hquote
  · exact absurd rfl (hverbatim rfl)
  · exact absurd rfl hapostrophe
  · rfl

theorem scan_sign_again (hdigit : ¬ c.isDigit = true) (hword : ¬ isWordStart c = true)
    {cs : List Char} (h : (scan (c :: cs)).outcome = .ok k) (hx : Parted x) :
    scan ((scan (c :: cs)).text ++ x) = ⟨.ok k, (scan (c :: cs)).text, x⟩ := by
  by_cases hquote : c = '"'
  · subst hquote
    have hscan (cs : List Char) :
        scan ('"' :: cs) = ((stringScan cs).map (.string <| String.ofList ·)).after ['"'] := by
      simp [scan, hdigit, hword]
    rw [hscan] at h ⊢
    obtain ⟨a, ha, rfl⟩ := exists_of_map h
    simp [hscan, stringScan_again ha x, Scan.map, Scan.after, Except.map]
  by_cases hapostrophe : c = '\''
  · subst hapostrophe
    have hscan (cs : List Char) : scan ('\'' :: cs) = (characterScan cs).after ['\''] := by
      simp [scan, hdigit, hword]
    rw [hscan] at h ⊢
    have hagain := characterScan_again h x
    simp [hscan, hagain, Scan.after]
  by_cases hverbatim : c = '@' ∧ cs.head? = some '"'
  · obtain ⟨rfl, hhead⟩ := hverbatim
    obtain ⟨rest, rfl⟩ := List.head?_eq_some_iff.mp hhead
    have hscan (cs : List Char) : scan ('@' :: '"' :: cs) =
        ((verbatimScan cs).map (.string <| String.ofList ·)).after ['@', '"'] := by
      simp [scan, hdigit, hword]
    rw [hscan] at h ⊢
    obtain ⟨a, ha, rfl⟩ := exists_of_map h
    simp [hscan, verbatimScan_again ha hx, Scan.map, Scan.after, Except.map]
  · have hscan (cs : List Char) (hcs : c = '@' → cs.head? ≠ some '"') :=
      scan_punct hdigit hword hquote hapostrophe hcs
    rw [hscan cs fun hc hcs => hverbatim ⟨hc, hcs⟩] at h ⊢
    obtain ⟨t, htext, hhead, hagain⟩ := punctScan_again h hx
    rw [htext, List.cons_append, hscan _ fun _ => hhead, hagain]

theorem exists_scan_text (c : Char) (cs : List Char) : ∃ t, (scan (c :: cs)).text = c :: t := by
  have happend := scan_append (c :: cs)
  cases htext : (scan (c :: cs)).text with
  | nil => exact absurd htext (scan_text_ne_nil c cs)
  | cons d t =>
    rw [htext] at happend
    exact ⟨t, by rw [(List.cons.inj happend).1]⟩

theorem scan_again {cs : List Char} (h : (scan cs).outcome = .ok k) (hk : k ≠ .endOfFile)
    (hx : Parted x) : scan ((scan cs).text ++ x) = ⟨.ok k, (scan cs).text, x⟩ := by
  cases cs with
  | nil =>
    cases h
    exact absurd rfl hk
  | cons c cs =>
    -- the first character decides how the token is read, and the text keeps it
    obtain ⟨t, ht⟩ := exists_scan_text c cs
    by_cases hdigit : c.isDigit = true
    · have hscan (cs : List Char) : scan (c :: cs) = numberScan (c :: cs) := by simp [scan, hdigit]
      have hagain := numberScan_again hdigit cs k (hscan cs ▸ h) x hx
      rwa [← hscan, ht, List.cons_append, ← hscan, ← List.cons_append, ← ht] at hagain
    · by_cases hword : isWordStart c = true
      · have hscan (cs : List Char) : scan (c :: cs) = wordScan (c :: cs) := by
          simp [scan, hdigit, hword]
        have hagain := wordScan_again (c :: cs) k (hscan cs ▸ h) x hx
        rwa [← hscan, ht, List.cons_append, ← hscan, ← List.cons_append, ← ht] at hagain
      · exact scan_sign_again hdigit hword h hx

end

end Token

end SquirrelAnalyzer
