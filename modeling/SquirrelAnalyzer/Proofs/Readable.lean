import SquirrelAnalyzer.Proofs.Grammar
import SquirrelAnalyzer.Token.ScanLemmas

namespace SquirrelAnalyzer

open Text

namespace Token

theorem numberScan_ne_identifier (cs : List Char) (name : String) :
    (numberScan cs).outcome ≠ .ok (.identifier name) := by
  unfold numberScan
  split <;> simp only [Scan.outcome_after, hexadecimalScan, decimalScan]
  · split <;> simp
  · split <;> simp
  · split
    · split <;> simp
    · simp

theorem characterScan_ne_identifier (cs : List Char) (name : String) :
    (characterScan cs).outcome ≠ .ok (.identifier name) := by
  have hclose (d : Char) (cs : List Char) :
      (closeCharacter d cs).outcome ≠ .ok (.identifier name) := by
    unfold closeCharacter
    split
    · simp
    · split <;> simp
  unfold characterScan
  split
  · simp
  · split
    · dsimp only
      split <;> simp [hclose]
    · split <;> simp [hclose]

theorem scan_identifier {cs : List Char} {name : String}
    (h : (scan cs).outcome = .ok (.identifier name)) :
    ∃ c rest, cs = c :: rest ∧ c.isDigit = false ∧ isWordStart c = true ∧
      name = String.ofList (cs.takeWhile isWordPart) ∧
      Keyword.ofWord? (cs.takeWhile isWordPart) = none := by
  cases cs with
  | nil => cases h
  | cons c cs =>
    unfold scan at h
    dsimp only at h
    split at h
    · exact absurd h (numberScan_ne_identifier _ name)
    · next hdigit =>
      split at h
      · next hstart =>
        simp only [wordScan] at h
        split at h
        · cases h
        · next hword =>
          cases h
          exact ⟨c, cs, rfl, by simpa using hdigit, hstart, rfl, hword⟩
      · split at h
        · simp only [Scan.outcome_after, Scan.map] at h
          revert h
          cases (stringScan _).outcome <;> simp [Except.map]
        · simp only [Scan.outcome_after, Scan.map] at h
          revert h
          cases (verbatimScan _).outcome <;> simp [Except.map]
        · exact absurd h (characterScan_ne_identifier _ name)
        · unfold punctScan at h
          split at h <;> cases h

theorem Kind.Readable.ne_text {name : String} (h : Readable (.identifier name)) (k : Keyword) :
    name ≠ k.text := by
  rintro rfl
  obtain ⟨cs, hcs⟩ := h
  obtain ⟨c, rest, -, -, -, hname, hword⟩ := scan_identifier hcs
  rw [← String.toList_ofList (l := cs.takeWhile isWordPart), ← hname, Keyword.ofWord?_text] at hword
  cases hword

end Token

theorem Keyword.text_injective {k k' : Keyword} (h : k.text = k'.text) : k = k' := by
  have hword := ofWord?_text k
  rw [h, ofWord?_text] at hword
  exact (Option.some.inj hword).symm

end SquirrelAnalyzer
