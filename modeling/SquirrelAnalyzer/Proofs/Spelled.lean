import Mathlib.Algebra.Group.Nat.Defs
import SquirrelAnalyzer.Proofs.Retokenize

namespace SquirrelAnalyzer

open Text

namespace Text

variable {p : Char → Bool} {x : List Char}

def BlankFirst (x : List Char) : Prop := ∀ c ∈ x.head?, isBlank c = true

instance (x : List Char) : Decidable (BlankFirst x) :=
  decidable_of_iff (x.head?.all isBlank = true) (Option.all_eq_true _ _)

theorem BlankFirst.fails (h : BlankFirst x) (hp : blanks.all (fun c => !p c) = true) : Fails p x :=
  fun c hc => rejects_of_all hp c (mem_blanks (h c hc))

theorem BlankFirst.head?_ne (h : BlankFirst x) {c : Char} (hc : isBlank c = false) :
    x.head? ≠ some c := by
  intro hx
  rw [h c hx] at hc
  cases hc

theorem Fails.take (h : Fails p x) (n : Nat) : Fails p (x.take n) := by
  intro c hc
  cases n with
  | zero => cases hc
  | succ n =>
    cases x with
    | nil => cases hc
    | cons d x => exact h c hc

theorem dropStart?_append {start text : List Char} (h : ∀ c ∈ x.head?, c ∉ start) :
    dropStart? start (text ++ x) = (dropStart? start text).map (· ++ x) := by
  induction start generalizing text with
  | nil => rfl
  | cons d start ih =>
    have htail : dropStart? start (text.tail ++ x) = (dropStart? start text.tail).map (· ++ x) :=
      ih fun c hc hmem => h c hc (List.mem_cons_of_mem d hmem)
    cases text with
    | nil =>
      cases x with
      | nil => rfl
      | cons c x => simp [dropStart?, Ne.symm (List.ne_of_not_mem_cons (h c rfl))]
    | cons c text =>
      by_cases hd : d = c
      · simp only [List.cons_append, dropStart?, hd, if_true]
        exact htail
      · simp [dropStart?, hd]

end Text

namespace Token

def escapes : List (Char × Char) :=
  [('n', '\n'), ('t', '\t'), ('r', '\r'), ('0', '\x00'), ('a', '\x07'), ('b', '\x08'), ('f', '\x0c'),
    ('v', '\x0b'), ('\\', '\\'), ('"', '"'), ('\'', '\'')]

inductive Escaped (lengths : Nat → Prop) (c : Char) : List Char → Prop
  | named {e : Char} (h : (e, c) ∈ escapes) : Escaped lengths c [e]
  | code {digits : List Char} (hdigits : ∀ d ∈ digits, isHexDigit d = true)
      (hlength : lengths digits.length) (hvalue : hexadecimalValue digits = c.toNat) :
      Escaped lengths c ('x' :: digits)

inductive Quoted : List Char → List Char → Prop
  | nil : Quoted [] []
  | raw {c : Char} {s t : List Char} (hc : c ≠ '"' ∧ c ≠ '\\' ∧ c ≠ '\n') (h : Quoted s t) :
      Quoted (c :: s) (c :: t)
  | escape {c : Char} {e s t : List Char} (he : Escaped (· = 4) c e) (h : Quoted s t) :
      Quoted (c :: s) ('\\' :: (e ++ t))

inductive Enclosed (c : Char) : List Char → Prop
  | raw (hc : c ≠ '\'' ∧ c ≠ '\\') : Enclosed c [c]
  | escape {e : List Char} (he : Escaped (fun n => 1 ≤ n ∧ n ≤ 4) c e) : Enclosed c ('\\' :: e)

def doubled (s : List Char) : List Char := s.flatMap fun c => if c = '"' then ['"', '"'] else [c]

inductive Spelled : Kind → List Char → Prop
  | keyword (k : Keyword) : Spelled (.keyword k) k.text.toList
  | punct (p : Punct) : Spelled (.punct p) p.text.toList
  | identifier {c : Char} {cs : List Char} (hc : isWordStart c = true)
      (hcs : ∀ d ∈ cs, isWordPart d = true) (hword : ∀ k : Keyword, k.text.toList ≠ c :: cs) :
      Spelled (.identifier (String.ofList (c :: cs))) (c :: cs)
  | decimal {digits : List Char} (hne : digits ≠ []) (hdigits : ∀ d ∈ digits, d.isDigit = true)
      (hbound : decimalValue digits < 2 ^ 63) : Spelled (.integer (decimalValue digits)) digits
  | hexadecimal {x : Char} {digits : List Char} (hx : x = 'x' ∨ x = 'X') (hne : digits ≠ [])
      (hdigits : ∀ d ∈ digits, isHexDigit d = true) (hbound : hexadecimalValue digits < 2 ^ 63) :
      Spelled (.integer (hexadecimalValue digits)) ('0' :: x :: digits)
  | character {c : Char} {t : List Char} (h : Enclosed c t) :
      Spelled (.integer c.toNat) ('\'' :: (t ++ ['\'']))
  | verbatim (s : List Char) :
      Spelled (.string (String.ofList s)) ('@' :: '"' :: (doubled s ++ ['"']))
  | quoted {s t : List Char} (h : Quoted s t) :
      Spelled (.string (String.ofList s)) ('"' :: (t ++ ['"']))

variable {x y : List Char}

theorem namedEscape?_of_mem {e c : Char} (h : (e, c) ∈ escapes) :
    e ≠ 'x' ∧ namedEscape? e = some c := by
  have hall : ∀ x ∈ escapes, x.1 ≠ 'x' ∧ namedEscape? x.1 = some x.2 := by decide
  exact hall (e, c) h

theorem ofCode?_of_value {digits : List Char} {c : Char} (hne : digits ≠ [])
    (h : hexadecimalValue digits = c.toNat) : ofCode? digits = some c := by
  have hvalid : ¬(digits = [] ∨ (0xd800 ≤ c.toNat ∧ c.toNat < 0xe000)) := by
    rintro (he | hrange)
    · exact hne he
    · rcases c.valid with hlow | ⟨hhigh, -⟩
      · have hlow : c.toNat < 0xd800 := hlow
        omega
      · have hhigh : 0xdfff < c.toNat := hhigh
        omega
  unfold ofCode?
  simp only [h]
  rw [if_neg hvalid, Char.ofNat_toNat]

theorem escapeScan_escaped {lengths : Nat → Prop} {c : Char} {e : List Char}
    (h : Escaped lengths c e)
    (hlengths : ∀ n, lengths n → 1 ≤ n ∧ n ≤ 4 ∧ (n = 4 ∨ Fails isHexDigit y)) :
    escapeScan (e ++ y) = ⟨.ok c, e, y⟩ := by
  cases h with
  | named h =>
    obtain ⟨hx, hnamed⟩ := namedEscape?_of_mem h
    simp [escapeScan, hx, hnamed]
  | @code digits hdigits hlength hvalue =>
    obtain ⟨hpos, hle, hend⟩ := hlengths _ hlength
    have hne : digits ≠ [] := by
      rintro rfl
      exact absurd hpos (by decide)
    have htake : ((digits ++ y).take 4).takeWhile isHexDigit = digits := by
      rw [List.take_append, List.take_of_length_le hle]
      rcases hend with hfour | hfails
      · rw [hfour, Nat.sub_self, List.take_zero, List.append_nil]
        exact List.takeWhile_eq_self_iff.mpr hdigits
      · exact ((hfails.take _).split hdigits).1
    simp [escapeScan, htake, ofCode?_of_value hne hvalue]

theorem stringScan_quoted {s t : List Char} (h : Quoted s t) (y : List Char) :
    stringScan (t ++ '"' :: y) = ⟨.ok s, t ++ ['"'], y⟩ := by
  induction h with
  | nil => simp [stringScan]
  | raw hc _ ih =>
    obtain ⟨hquote, hslash, hnewline⟩ := hc
    rw [List.cons_append, stringScan]
    simp [hquote, hslash, hnewline, ih, Scan.map, Scan.after, Except.map]
  | @escape c e s t he _ ih =>
    have hescape : escapeScan (e ++ (t ++ '"' :: y)) = ⟨.ok c, e, t ++ '"' :: y⟩ :=
      escapeScan_escaped he fun n hn => ⟨by omega, by omega, .inl hn⟩
    rw [List.cons_append, List.append_assoc, stringScan]
    simp [hescape, ih, Scan.map, Scan.after, Except.map]

theorem verbatimScan_doubled (s : List Char) (hy : y.head? ≠ some '"') :
    verbatimScan (doubled s ++ '"' :: y) = ⟨.ok s, doubled s ++ ['"'], y⟩ := by
  induction s with
  | nil =>
    cases y with
    | nil => rfl
    | cons c y =>
      have hc : c ≠ '"' := fun he => hy (he ▸ rfl)
      show verbatimScan ('"' :: c :: y) = _
      rw [verbatimScan]
      · rfl
      · rintro _ ⟨⟩
        exact hc rfl
  | cons c s ih =>
    by_cases hc : c = '"'
    · subst hc
      show verbatimScan ('"' :: '"' :: (doubled s ++ '"' :: y)) = _
      rw [verbatimScan, ih]
      rfl
    · have hdoubled : doubled (c :: s) = c :: doubled s := by simp [doubled, hc]
      rw [hdoubled, List.cons_append, verbatimScan.eq_4 _ _ (fun _ he => absurd he hc) hc, ih]
      rfl

theorem characterScan_enclosed {c : Char} {t : List Char} (h : Enclosed c t) (y : List Char) :
    characterScan (t ++ '\'' :: y) = ⟨.ok (.integer c.toNat), t ++ ['\''], y⟩ := by
  cases h with
  | raw hc =>
    obtain ⟨hquote, hslash⟩ := hc
    simp [characterScan, hquote, hslash, closeCharacter, Scan.after]
  | @escape e he =>
    have hescape : escapeScan (e ++ '\'' :: y) = ⟨.ok c, e, '\'' :: y⟩ :=
      escapeScan_escaped he fun n hn => ⟨hn.1, hn.2, .inr (by simp [Fails, isHexDigit])⟩
    simp [characterScan, hescape, closeCharacter, Scan.after]

theorem isDigit_of_isWordStart {c : Char} (h : isWordStart c = true) : c.isDigit = false := by
  rw [← Bool.not_eq_true]
  intro hdigit
  simp only [Char.isDigit, Bool.and_eq_true, decide_eq_true_eq, UInt32.le_iff_toNat_le] at hdigit
  have hrange : 48 ≤ c.toNat ∧ c.toNat ≤ 57 := hdigit
  have hmem : c.toNat ∈ List.range' 48 10 := by
    rw [List.mem_range'_1]
    omega
  have hall : ∀ n ∈ List.range' 48 10, isWordStart (Char.ofNat n) = false := by decide
  have hstart := hall _ hmem
  rw [Char.ofNat_toNat, h] at hstart
  cases hstart

theorem scan_word {c : Char} {cs : List Char} (hc : isWordStart c = true)
    (hcs : ∀ d ∈ cs, isWordPart d = true) (hx : BlankFirst x) :
    scan (c :: (cs ++ x)) = ⟨.ok ((Keyword.ofWord? (c :: cs)).elim
      (.identifier (String.ofList (c :: cs))) .keyword), c :: cs, x⟩ := by
  have hfails : Fails isWordPart x := hx.fails (by decide +kernel)
  have hparts : ∀ d ∈ c :: cs, isWordPart d = true :=
    List.forall_mem_cons.mpr ⟨isWordPart_of_isWordStart hc, hcs⟩
  obtain ⟨htake, hdrop⟩ := hfails.split hparts
  rw [List.cons_append] at htake hdrop
  have hscan : scan (c :: (cs ++ x)) = wordScan (c :: (cs ++ x)) := by
    simp [scan, isDigit_of_isWordStart hc, hc]
  rw [hscan]
  simp only [wordScan, htake, hdrop]
  cases Keyword.ofWord? (c :: cs) <;> rfl

theorem scan_keyword (k : Keyword) (hx : BlankFirst x) :
    scan (k.text.toList ++ x) = ⟨.ok (.keyword k), k.text.toList, x⟩ := by
  have hall : ∀ k ∈ Keyword.all, (k.text.toList.head?.any isWordStart &&
      k.text.toList.all isWordPart) = true := by decide
  obtain ⟨hstart, hparts⟩ := Bool.and_eq_true_iff.mp (hall k (Keyword.mem_all k))
  have hword := Keyword.ofWord?_text k
  cases htext : k.text.toList with
  | nil =>
    rw [htext] at hstart
    cases hstart
  | cons c cs =>
    rw [htext] at hstart hparts hword
    have hcs : ∀ d ∈ cs, isWordPart d = true := fun d hd =>
      List.all_eq_true.mp hparts d (List.mem_cons_of_mem c hd)
    rw [List.cons_append, scan_word hstart hcs hx, hword]
    rfl

theorem ofWord?_eq_none {cs : List Char} (h : ∀ k : Keyword, k.text.toList ≠ cs) :
    Keyword.ofWord? cs = none :=
  List.find?_eq_none.mpr fun k _ hk => h k (of_decide_eq_true hk)

theorem ne_second {digits : List Char} (hne : digits ≠ [])
    (hdigits : ∀ d ∈ digits, d.isDigit = true) (hx : BlankFirst x) {d : Char}
    (hd : d.isDigit = false) (hblank : isBlank d = false) (first : Char) (rest : List Char) :
    digits ++ x ≠ first :: d :: rest := by
  intro he
  match digits, hne with
  | [e], _ =>
    obtain ⟨-, rfl⟩ := List.cons.inj he
    rw [hx d rfl] at hblank
    cases hblank
  | e :: e' :: digits, _ =>
    obtain ⟨-, he⟩ := List.cons.inj he
    obtain ⟨rfl, -⟩ := List.cons.inj he
    rw [hdigits e' (by simp)] at hd
    cases hd

theorem numberScan_digits {digits : List Char} (hne : digits ≠ [])
    (hdigits : ∀ d ∈ digits, d.isDigit = true) (hx : BlankFirst x) :
    numberScan (digits ++ x) = decimalScan (digits ++ x) := by
  rcases numberScan_cases (digits ++ x) with ⟨rest, he⟩ | ⟨rest, he⟩ | hscan
  · exact absurd he (ne_second hne hdigits hx (by decide) (by decide) _ _)
  · exact absurd he (ne_second hne hdigits hx (by decide) (by decide) _ _)
  · exact hscan

theorem fractionPart_blankFirst (hx : BlankFirst x) : fractionPart x = ([], x) := by
  unfold fractionPart
  split
  · exact absurd rfl (hx.head?_ne (c := '.') (by decide))
  · rfl

theorem exponentPart_blankFirst (hx : BlankFirst x) : exponentPart x = ([], x) := by
  cases x with
  | nil => rfl
  | cons c x =>
    have hc : ¬(c = 'e' ∨ c = 'E') := by
      rintro (rfl | rfl)
      · exact hx.head?_ne (c := 'e') (by decide) rfl
      · exact hx.head?_ne (c := 'E') (by decide) rfl
    simp [exponentPart, hc]

theorem decimalScan_digits {digits : List Char} (hdigits : ∀ d ∈ digits, d.isDigit = true)
    (hbound : decimalValue digits < 2 ^ 63) (hx : BlankFirst x) :
    decimalScan (digits ++ x) = ⟨.ok (.integer (decimalValue digits)), digits, x⟩ := by
  have hfails : Fails Char.isDigit x := hx.fails (by decide)
  obtain ⟨htake, hdrop⟩ := hfails.split hdigits
  have hlt : decimalValue digits < integerBound := hbound
  unfold decimalScan
  simp [htake, hdrop, fractionPart_blankFirst hx, exponentPart_blankFirst hx, hlt]

theorem hexadecimalScan_digits {digits : List Char} (hne : digits ≠ [])
    (hdigits : ∀ d ∈ digits, isHexDigit d = true) (hbound : hexadecimalValue digits < 2 ^ 63)
    (hx : BlankFirst x) :
    hexadecimalScan (digits ++ x) = ⟨.ok (.integer (hexadecimalValue digits)), digits, x⟩ := by
  have hfails : Fails isHexDigit x := hx.fails (by decide)
  obtain ⟨htake, hdrop⟩ := hfails.split hdigits
  have hlt : hexadecimalValue digits < integerBound := hbound
  unfold hexadecimalScan
  simp [htake, hdrop, hlt, hne]

theorem punctOf?_append {ps : List Punct} {t : List Char}
    (h : ∀ q ∈ ps, ∀ c ∈ x.head?, c ∉ q.text.toList) :
    punctOf? ps (t ++ x) = (punctOf? ps t).map fun r => (r.1, r.2 ++ x) := by
  induction ps with
  | nil => rfl
  | cons q ps ih =>
    have hrest := ih fun q hq => h q (List.mem_cons_of_mem _ hq)
    have hfirst : dropStart? q.text.toList (t ++ x) = (dropStart? q.text.toList t).map (· ++ x) :=
      dropStart?_append (h q List.mem_cons_self)
    unfold punctOf? at hrest ⊢
    rw [List.findSome?_cons, List.findSome?_cons, hfirst, hrest]
    cases dropStart? q.text.toList t <;> rfl

theorem punctOf?_blankFirst (p : Punct) (hx : BlankFirst x) :
    punctOf? Punct.all (p.text.toList ++ x) = some (p, x) := by
  have hblanks : ∀ q ∈ Punct.all, (q.text.toList.all fun c => !isBlank c) = true := by
    decide
  have halone : ∀ p ∈ Punct.all, punctOf? Punct.all p.text.toList = some (p, []) := by
    decide
  rw [punctOf?_append, halone p (Punct.mem_all p)]
  · rfl
  · intro q hq c hc hmem
    have hblank := List.all_eq_true.mp (hblanks q hq) c hmem
    rw [hx c hc] at hblank
    cases hblank

theorem scan_punctuator (p : Punct) (hx : BlankFirst x) :
    scan (p.text.toList ++ x) = ⟨.ok (.punct p), p.text.toList, x⟩ := by
  have hall : ∀ p ∈ Punct.all, (p.text.toList.head?.all fun c =>
      !c.isDigit && !isWordStart c && c != '"' && c != '\'') = true := by decide
  have hfirst := hall p (Punct.mem_all p)
  have hquote := quote_notMem_text p
  have hpunct := punctOf?_blankFirst p hx
  cases htext : p.text.toList with
  | nil => exact absurd htext p.text_ne_nil
  | cons c t =>
    rw [htext] at hfirst hquote hpunct
    simp only [List.head?_cons, Option.all_some, Bool.and_eq_true, Bool.not_eq_true', bne_iff_ne,
      ne_eq] at hfirst
    obtain ⟨⟨⟨hdigit, hword⟩, hc⟩, hapostrophe⟩ := hfirst
    have hnext : (t ++ x).head? ≠ some '"' := by
      cases t with
      | nil => exact hx.head?_ne (by decide)
      | cons d t =>
        rintro ⟨⟩
        simp at hquote
    rw [List.cons_append] at hpunct ⊢
    rw [scan_punct (by simp [hdigit]) (by simp [hword]) hc hapostrophe fun _ => hnext, punctScan,
      hpunct]
    simp only [htext]

theorem scan_spelled {kind : Kind} {text : List Char} (h : Spelled kind text) (hx : BlankFirst x) :
    scan (text ++ x) = ⟨.ok kind, text, x⟩ := by
  cases h with
  | keyword k => exact scan_keyword k hx
  | punct p => exact scan_punctuator p hx
  | identifier hc hcs hword =>
    rw [List.cons_append, scan_word hc hcs hx, ofWord?_eq_none hword]
    rfl
  | decimal hne hdigits hbound =>
    have hscan : scan (text ++ x) = numberScan (text ++ x) := by
      cases text with
      | nil => exact absurd rfl hne
      | cons d digits => simp [scan, hdigits d List.mem_cons_self]
    rw [hscan, numberScan_digits hne hdigits hx, decimalScan_digits hdigits hbound hx]
  | hexadecimal hx' hne hdigits hbound =>
    rename_i sign digits
    have hdigit : '0'.isDigit = true := by decide
    have hscan := hexadecimalScan_digits hne hdigits hbound hx
    rcases hx' with rfl | rfl
    · simp [scan, hdigit, numberScan, hscan, Scan.after]
    · simp [scan, hdigit, numberScan, hscan, Scan.after]
  | character h =>
    have hscan := characterScan_enclosed h x
    have hsigns : '\''.isDigit = false ∧ isWordStart '\'' = false := by decide
    simp [scan, hsigns, hscan, Scan.after]
  | verbatim s =>
    have hscan := verbatimScan_doubled s (hx.head?_ne (c := '"') (by decide))
    have hsigns : '@'.isDigit = false ∧ isWordStart '@' = false := by decide
    simp [scan, hsigns, hscan, Scan.map, Scan.after, Except.map]
  | quoted h =>
    have hscan := stringScan_quoted h x
    have hsigns : '"'.isDigit = false ∧ isWordStart '"' = false := by decide
    simp [scan, hsigns, hscan, Scan.map, Scan.after, Except.map]

end Token

end SquirrelAnalyzer
