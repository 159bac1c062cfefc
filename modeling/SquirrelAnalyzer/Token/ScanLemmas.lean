import SquirrelAnalyzer.Token.Scan

namespace SquirrelAnalyzer

open Text

namespace Token

theorem fractionPart_append (cs : List Char) : (fractionPart cs).1 ++ (fractionPart cs).2 = cs := by
  unfold fractionPart
  split
  · split
    · simp
    · rfl
  · rfl

theorem signPart_append (cs : List Char) : (signPart cs).1 ++ (signPart cs).2 = cs := by
  unfold signPart
  split <;> rfl

theorem exponentPart_append (cs : List Char) : (exponentPart cs).1 ++ (exponentPart cs).2 = cs := by
  cases cs with
  | nil => rfl
  | cons c cs =>
    have h := signPart_append cs
    simp only [exponentPart]
    split
    · simp [h]
    · rfl

theorem decimalScan_append (cs : List Char) :
    (decimalScan cs).text ++ (decimalScan cs).rest = cs := by
  have h₁ := fractionPart_append (cs.dropWhile Char.isDigit)
  have h₂ := exponentPart_append (fractionPart (cs.dropWhile Char.isDigit)).2
  simp only [decimalScan, List.append_assoc]
  rw [h₂, h₁, List.takeWhile_append_dropWhile]

theorem numberScan_append (cs : List Char) : (numberScan cs).text ++ (numberScan cs).rest = cs := by
  unfold numberScan
  split
  · simp [hexadecimalScan]
  · simp [hexadecimalScan]
  · exact decimalScan_append _

theorem wordScan_append (cs : List Char) : (wordScan cs).text ++ (wordScan cs).rest = cs := by
  simp [wordScan]

theorem stringScan_append (cs : List Char) : (stringScan cs).text ++ (stringScan cs).rest = cs := by
  fun_induction stringScan cs with
  | case1 => rfl
  | case2 => rfl
  | case3 => rfl
  | case4 cs s d hd ih =>
    have := escapeScan_text_append_rest cs
    simp_all [s]
  | case5 cs s f hf =>
    have := escapeScan_text_append_rest cs
    simp_all [s]
  | case6 c cs _ _ _ ih => simp [ih]

theorem verbatimScan_append (cs : List Char) :
    (verbatimScan cs).text ++ (verbatimScan cs).rest = cs := by
  fun_induction verbatimScan cs with
  | case1 => rfl
  | case2 cs ih => simp [ih]
  | case3 => rfl
  | case4 c cs _ _ ih => simp [ih]

theorem closeCharacter_append (d : Char) (cs : List Char) :
    (closeCharacter d cs).text ++ (closeCharacter d cs).rest = cs := by
  unfold closeCharacter
  split
  · rfl
  · split <;> rfl

theorem characterScan_append (cs : List Char) :
    (characterScan cs).text ++ (characterScan cs).rest = cs := by
  unfold characterScan
  split
  · rfl
  · next c cs =>
    have h₁ := escapeScan_text_append_rest cs
    split
    · dsimp only
      split
      · simp [closeCharacter_append, h₁]
      · simp [h₁]
    · split
      · rfl
      · simp [closeCharacter_append]

theorem append_of_punctOf? {ps : List Punct} {cs rest : List Char} {p : Punct}
    (h : punctOf? ps cs = some (p, rest)) : p.text.toList ++ rest = cs := by
  obtain ⟨q, -, hq⟩ := List.exists_of_findSome?_eq_some h
  obtain ⟨r, hr, he⟩ := Option.map_eq_some_iff.1 hq
  cases he
  exact (dropStart?_eq_some_iff.1 hr).symm

theorem punctScan_append (c : Char) (cs : List Char) :
    (punctScan c cs).text ++ (punctScan c cs).rest = c :: cs := by
  unfold punctScan
  split
  · next h => exact append_of_punctOf? h
  · rfl

theorem scan_append (cs : List Char) : (scan cs).text ++ (scan cs).rest = cs := by
  unfold scan
  split
  · rfl
  · split
    · exact numberScan_append _
    · split
      · exact wordScan_append _
      · split
        · simp [stringScan_append]
        · simp [verbatimScan_append]
        · simp [characterScan_append]
        · exact punctScan_append _ _

theorem scan_text_ne_nil (c : Char) (cs : List Char) : (scan (c :: cs)).text ≠ [] := by
  unfold scan
  dsimp only
  split
  · next h =>
    unfold numberScan
    split
    · simp
    · simp
    · simp [decimalScan, h]
  · split
    · next h =>
      simp [wordScan, isWordPart_of_isWordStart h]
    · split
      · simp
      · simp
      · simp
      · unfold punctScan
        split
        · exact Punct.text_ne_nil _
        · simp

theorem length_scan_rest_lt {cs : List Char} (h : cs ≠ []) :
    (scan cs).rest.length < cs.length := by
  cases cs with
  | nil => exact absurd rfl h
  | cons c cs =>
    have h₁ := congrArg List.length (scan_append (c :: cs))
    have h₂ := List.length_pos_iff.2 (scan_text_ne_nil c cs)
    simp only [List.length_append] at h₁
    omega

theorem closeCharacter_ne_endOfFile (d : Char) (cs : List Char) :
    (closeCharacter d cs).outcome ≠ .ok .endOfFile := by
  unfold closeCharacter
  split
  · simp
  · split <;> simp

theorem characterScan_ne_endOfFile (cs : List Char) :
    (characterScan cs).outcome ≠ .ok .endOfFile := by
  unfold characterScan
  split
  · simp
  · split
    · dsimp only
      split
      · simp [closeCharacter_ne_endOfFile]
      · simp
    · split
      · simp
      · simp [closeCharacter_ne_endOfFile]

theorem scan_nil_of_endOfFile {cs : List Char} (h : (scan cs).outcome = .ok .endOfFile) :
    cs = [] := by
  cases cs with
  | nil => rfl
  | cons c cs =>
    exfalso
    revert h
    unfold scan
    dsimp only
    split
    · unfold numberScan
      split <;> simp only [Scan.outcome_after, hexadecimalScan, decimalScan] <;> intro h
      · split at h <;> simp at h
      · split at h <;> simp at h
      · split at h
        · split at h <;> simp at h
        · simp at h
    · split
      · simp only [wordScan]
        split <;> simp
      · split
        · simp only [Scan.outcome_after, Scan.map]
          cases (stringScan _).outcome <;> simp [Except.map]
        · simp only [Scan.outcome_after, Scan.map]
          cases (verbatimScan _).outcome <;> simp [Except.map]
        · simp [characterScan_ne_endOfFile]
        · unfold punctScan
          split <;> simp

end Token

end SquirrelAnalyzer
