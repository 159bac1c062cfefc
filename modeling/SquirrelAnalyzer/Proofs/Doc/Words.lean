import Mathlib.Data.List.TakeWhile
import SquirrelAnalyzer.Doc.Reader

namespace SquirrelAnalyzer

namespace Text

theorem head?_append_of_ne_nil {cs : List Char} (h : cs ≠ []) (ds : List Char) :
    (cs ++ ds).head? = cs.head? := by
  cases cs with
  | nil => exact absurd rfl h
  | cons c cs => rfl

theorem getLast?_append_of_ne_nil (cs : List Char) {ds : List Char} (h : ds ≠ []) :
    (cs ++ ds).getLast? = ds.getLast? := by
  rw [List.getLast?_append, Option.or_of_isSome (by simp [h])]

theorem isBlank_space : ∀ c ∈ [' '], isBlank c = true := List.forall_mem_singleton.2 rfl

theorem trimStart_append {front : List Char} (h : ∀ c ∈ front, isBlank c = true)
    (cs : List Char) : trimStart (front ++ cs) = trimStart cs :=
  List.dropWhile_append_of_pos h

theorem trimStart_eq_self {cs : List Char} (h : ∀ c ∈ cs.head?, isBlank c = false) :
    trimStart cs = cs := by
  cases cs with
  | nil => rfl
  | cons c cs => simp [trimStart, h c rfl]

theorem dropEndWhile_eq_self {p : Char → Bool} {cs : List Char}
    (h : ∀ c ∈ cs.getLast?, p c = false) : dropEndWhile p cs = cs := by
  rw [dropEndWhile]
  cases hr : cs.reverse with
  | nil => simpa using hr.symm
  | cons c rest =>
    have hlast : cs.getLast? = some c := by rw [List.getLast?_eq_head?_reverse, hr]; rfl
    rw [List.dropWhile_cons_of_neg (by simp [h c hlast]), ← hr, List.reverse_reverse]

theorem length_dropEndWhile_le (p : Char → Bool) (cs : List Char) :
    (dropEndWhile p cs).length ≤ cs.length := by
  have h := length_dropWhile_le p cs.reverse
  simpa [dropEndWhile] using h

theorem trim_eq_self_iff {cs : List Char} :
    trim cs = cs ↔
      (∀ c ∈ cs.head?, isBlank c = false) ∧ ∀ c ∈ cs.getLast?, isBlank c = false := by
  constructor
  · intro h
    -- each of the two steps of trimming can only shorten the text
    have hlength := congrArg List.length h
    have hstart : trimStart cs = cs := by
      apply (List.dropWhile_suffix isBlank).eq_of_length
      have h₁ := length_dropEndWhile_le isBlank (trimStart cs)
      have h₂ := length_trimStart_le cs
      rw [trim] at hlength
      change (trimStart cs).length = cs.length
      omega
    have hend : cs.reverse.dropWhile isBlank = cs.reverse := by
      rw [trim, hstart, dropEndWhile] at h
      simpa using congrArg List.reverse h
    refine ⟨fun c hc => ?_, fun c hc => ?_⟩
    · have hhead := List.head?_dropWhile_not isBlank cs
      rw [show cs.dropWhile isBlank = cs from hstart, hc] at hhead
      simpa using hhead
    · have hhead := List.head?_dropWhile_not isBlank cs.reverse
      rw [hend, ← List.getLast?_eq_head?_reverse, hc] at hhead
      simpa using hhead
  · rintro ⟨hhead, hlast⟩
    rw [trim, trimStart_eq_self hhead, dropEndWhile_eq_self hlast]

structure IsWord (cs : List Char) : Prop where
  ne : cs ≠ []
  solid : ∀ c ∈ cs, isBlank c = false

structure IsLine (cs : List Char) : Prop where
  ne : cs ≠ []
  trimmed : trim cs = cs
  single : '\n' ∉ cs

instance (cs : List Char) : Decidable (IsWord cs) :=
  decidable_of_iff (cs ≠ [] ∧ cs.all (!isBlank ·) = true)
    ⟨fun h => ⟨h.1, by simpa using h.2⟩, fun h => ⟨h.1, by simpa using h.2⟩⟩

instance (cs : List Char) : Decidable (IsLine cs) :=
  decidable_of_iff (cs ≠ [] ∧ trim cs = cs ∧ '\n' ∉ cs)
    ⟨fun h => ⟨h.1, h.2.1, h.2.2⟩, fun h => ⟨h.1, h.2, h.3⟩⟩

variable {cs ds rest : List Char} {lines : List (List Char)}

theorem newline_notMem (h : ∀ c ∈ cs, isBlank c = false) : '\n' ∉ cs :=
  fun hmem => absurd (h _ hmem) (by decide)

theorem IsLine.head (h : IsLine cs) : ∀ c ∈ cs.head?, isBlank c = false :=
  (trim_eq_self_iff.1 h.trimmed).1

theorem IsLine.last (h : IsLine cs) : ∀ c ∈ cs.getLast?, isBlank c = false :=
  (trim_eq_self_iff.1 h.trimmed).2

theorem IsWord.isLine (h : IsWord cs) : IsLine cs where
  ne := h.ne
  trimmed := trim_eq_self_iff.2
    ⟨fun c hc => h.solid c (List.mem_of_head? hc), fun c hc => h.solid c (List.mem_of_getLast? hc)⟩
  single := newline_notMem h.solid

theorem IsWord.append (h : IsWord cs) (hsolid : ∀ d ∈ ds, isBlank d = false) :
    IsWord (cs ++ ds) where
  ne := by simp [h.ne]
  solid c hc := (List.mem_append.1 hc).elim (h.solid c) (hsolid c)

theorem IsWord.cons {c : Char} (hc : isBlank c = false) (hsolid : ∀ d ∈ ds, isBlank d = false) :
    IsWord (c :: ds) where
  ne := by simp
  solid := List.forall_mem_cons.2 ⟨hc, hsolid⟩

theorem IsLine.append (h : IsLine cs) (h' : IsLine ds) {middle : List Char}
    (hmiddle : '\n' ∉ middle) : IsLine (cs ++ middle ++ ds) where
  ne := by simp [h.ne]
  trimmed := by
    refine trim_eq_self_iff.2 ⟨fun c hc => h.head c ?_, fun c hc => h'.last c ?_⟩
    · rwa [List.append_assoc, head?_append_of_ne_nil h.ne] at hc
    · rwa [getLast?_append_of_ne_nil _ h'.ne] at hc
  single := by
    have h₁ := h.single
    have h₂ := h'.single
    simp [h₁, h₂, hmiddle]

theorem firstWord_of_isWord (h : IsWord cs) (hrest : ∀ c ∈ rest.head?, isBlank c = true) :
    firstWord (cs ++ rest) = (cs, trimStart rest) := by
  have hstart : trimStart (cs ++ rest) = cs ++ rest := by
    apply trimStart_eq_self
    intro c hc
    rw [head?_append_of_ne_nil h.ne] at hc
    exact h.solid c (List.mem_of_head? hc)
  have hsolid : ∀ c ∈ cs, (!isBlank c) = true := by simpa using h.solid
  have htake : rest.takeWhile (!isBlank ·) = [] := by
    cases rest with
    | nil => rfl
    | cons c rest => simp [hrest c rfl]
  have hdrop : rest.dropWhile (!isBlank ·) = rest := by
    cases rest with
    | nil => rfl
    | cons c rest => simp [hrest c rfl]
  rw [firstWord, hstart]
  simp only [List.takeWhile_append_of_pos hsolid, List.dropWhile_append_of_pos hsolid, htake,
    hdrop, List.append_nil]

theorem splitOn_of_notMem {separator : Char} (h : separator ∉ cs) :
    splitOn separator cs = [cs] := by
  induction cs with
  | nil => rfl
  | cons c cs ih =>
    obtain ⟨hc, hcs⟩ := not_or.1 (mt List.mem_cons.2 h)
    rw [splitOn, if_neg (Ne.symm hc), ih hcs]

theorem splitOn_append {separator : Char} (h : separator ∉ cs) (rest : List Char) :
    splitOn separator (cs ++ separator :: rest) = cs :: splitOn separator rest := by
  induction cs with
  | nil => simp [splitOn]
  | cons c cs ih =>
    obtain ⟨hc, hcs⟩ := not_or.1 (mt List.mem_cons.2 h)
    rw [List.cons_append, splitOn, if_neg (Ne.symm hc), ih hcs]

theorem dropStart?_of_head {c : Char} {start : List Char} (h : ∀ d ∈ cs.head?, d ≠ c) :
    dropStart? (c :: start) cs = none := by
  cases cs with
  | nil => rfl
  | cons d cs => rw [dropStart?, if_neg (Ne.symm (h d rfl))]

theorem dropStarts_of_none {c : Char} {start : List Char} (h : dropStart? (c :: start) cs = none) :
    dropStarts c start cs = cs := by
  rw [dropStarts]
  split
  · simp_all
  · rfl

theorem dropStarts_append {c : Char} {start rest : List Char} (h : ∀ d ∈ rest.head?, d ≠ c) :
    dropStarts c start (c :: start ++ rest) = rest := by
  rw [dropStarts]
  split
  · next found hfound =>
    rw [dropStart?_eq_some_iff.2 rfl, Option.some.injEq] at hfound
    rw [← hfound, dropStarts_of_none (dropStart?_of_head h)]
  · next hnone => rw [dropStart?_eq_some_iff.2 rfl] at hnone; cases hnone

end Text

namespace Doc

open Text

variable {cs : List Char} {parts lines : List (List Char)}

theorem joinLines_cons (line : List Char) (lines : List (List Char)) :
    joinLines (line :: lines) = line ++ lines.flatMap (' ' :: ·) := by
  induction lines generalizing line with
  | nil => simp [joinLines]
  | cons next lines ih =>
    have hnext := ih next
    simp only [joinLines] at hnext ⊢
    rw [List.intercalate_cons_cons, hnext]
    simp

theorem head?_joinLines (h : cs ≠ []) : (joinLines (cs :: lines)).head? = cs.head? := by
  rw [joinLines_cons, head?_append_of_ne_nil h]

theorem trimStart_flatMap (h : ∀ line ∈ lines, IsLine line) :
    trimStart (lines.flatMap (' ' :: ·)) = joinLines lines := by
  cases lines with
  | nil => rfl
  | cons line lines =>
    have hline := h line (by simp)
    rw [List.flatMap_cons, joinLines_cons, List.cons_append]
    change trimStart ([' '] ++ (line ++ _)) = _
    rw [trimStart_append isBlank_space]
    apply trimStart_eq_self
    rw [head?_append_of_ne_nil hline.ne]
    exact hline.head

theorem firstWord_joinLines (hword : IsWord cs) (h : ∀ line ∈ lines, IsLine line) :
    firstWord (joinLines (cs :: lines)) = (cs, joinLines lines) := by
  rw [joinLines_cons, firstWord_of_isWord hword, trimStart_flatMap h]
  cases lines with
  | nil => simp
  | cons line lines => simp [show isBlank ' ' = true from rfl]

theorem isLine_joinLines (hne : lines ≠ []) (h : ∀ line ∈ lines, IsLine line) :
    IsLine (joinLines lines) := by
  induction lines with
  | nil => exact absurd rfl hne
  | cons line lines ih =>
    obtain ⟨hline, hlines⟩ := List.forall_mem_cons.1 h
    cases lines with
    | nil => simpa [joinLines] using hline
    | cons next lines =>
      have hrest := ih (by simp) hlines
      have hmiddle : '\n' ∉ [' '] := by decide
      have happend := hline.append hrest hmiddle
      simpa [joinLines, List.intercalate_cons_cons] using happend

end Doc

end SquirrelAnalyzer
