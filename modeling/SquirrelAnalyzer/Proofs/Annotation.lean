import SquirrelAnalyzer.Proofs.Doc.Words
import SquirrelAnalyzer.TypeLabel

/-!
Annotations that are read, printed and read again. The label that is read from an annotation prints
as a spelling of itself: an array has its brackets around the type of its elements, and a free name
is trimmed and looks neither like a built-in type nor like an array.
-/

namespace SquirrelAnalyzer

namespace Text

theorem head_trimStart (cs : List Char) : ∀ c ∈ (trimStart cs).head?, isBlank c = false := by
  intro c hc
  have hhead := List.head?_dropWhile_not isBlank cs
  rw [show cs.dropWhile isBlank = trimStart cs from rfl, hc] at hhead
  simpa using hhead

theorem trim_trim (cs : List Char) : trim (trim cs) = trim cs := by
  have hlast : ∀ c ∈ (trim cs).getLast?, isBlank c = false := by
    intro c hc
    rw [trim, dropEndWhile, List.getLast?_reverse] at hc
    exact head_trimStart _ c hc
  refine trim_eq_self_iff.2 ⟨fun c hc => ?_, hlast⟩
  -- blanks are only taken from the end, so a text that is left begins as before
  obtain ⟨blanks, hblanks⟩ : (trimStart cs).reverse.dropWhile isBlank <:+ (trimStart cs).reverse :=
    List.dropWhile_suffix isBlank
  have hfront : trimStart cs = trim cs ++ blanks.reverse := by
    have hreverse := congrArg List.reverse hblanks
    rw [List.reverse_append, List.reverse_reverse] at hreverse
    exact hreverse.symm
  have hne : trim cs ≠ [] := by
    intro hnil
    rw [hnil] at hc
    cases hc
  refine head_trimStart cs c ?_
  rw [hfront, head?_append_of_ne_nil hne]
  exact hc

end Text

namespace TypeLabel

open Text

def nesting : TypeLabel → Nat
  | arrayOf element => element.nesting + 1
  | _ => 0

variable {cs inner : List Char} {name : String} {label : TypeLabel}

theorem elementText?_eq_some_iff :
    elementText? cs = some inner ↔ cs = "array<".toList ++ (inner ++ ['>']) := by
  unfold elementText?
  constructor
  · intro h
    split at h
    · next rest hrest =>
      split at h
      · next hlast =>
        cases h
        obtain ⟨inner, rfl⟩ := List.getLast?_eq_some_iff.1 hlast
        rw [dropStart?_eq_some_iff.1 hrest, List.dropLast_concat]
      · cases h
    · cases h
  · intro h
    rw [dropStart?_eq_some_iff.2 h]
    simp

theorem builtin?_display (h : builtin? name = some label) :
    trim label.display.toList = label.display.toList ∧ builtin? label.display = some label := by
  unfold builtin? at h
  split at h <;> cases h <;> exact ⟨by decide, rfl⟩

theorem nesting_builtin? (h : builtin? name = some label) : label.nesting = 0 := by
  unfold builtin? at h
  split at h <;> cases h <;> rfl

theorem builtin?_eq_none (h : '<' ∈ name.toList) : builtin? name = none := by
  unfold builtin?
  split
  all_goals first
    | rfl
    | exact absurd h (by decide)

theorem ofText_builtin (h : builtin? (String.ofList (trim cs)) = some label) :
    ofText cs = label := by
  rw [ofText]
  simp only [h]

theorem ofText_array (h : elementText? (trim cs) = some inner) :
    ofText cs = arrayOf (ofText inner) := by
  have hbracket : '<' ∈ (String.ofList (trim cs)).toList := by
    rw [elementText?_eq_some_iff.1 h]
    simp
  rw [ofText]
  simp only [builtin?_eq_none hbracket]
  split
  · next element helement =>
    rw [Option.some.inj (helement.symm.trans h)]
  · next hnone =>
    rw [h] at hnone
    cases hnone

theorem ofText_name (hbuiltin : builtin? (String.ofList (trim cs)) = none)
    (hname : elementText? (trim cs) = none) : ofText cs = nominal (String.ofList (trim cs)) := by
  rw [ofText]
  simp only [hbuiltin]
  split
  · next element helement =>
    rw [hname] at helement
    cases helement
  · rfl

inductive Annotated : TypeLabel → Prop
  | builtin {name : String} {label : TypeLabel} (h : builtin? name = some label) : Annotated label
  | array {element : TypeLabel} (h : Annotated element) : Annotated (arrayOf element)
  | name {cs : List Char} (htrimmed : trim cs = cs)
      (hbuiltin : builtin? (String.ofList cs) = none) (hname : elementText? cs = none) :
      Annotated (nominal (String.ofList cs))

theorem annotated_ofText (cs : List Char) : Annotated (ofText cs) := by
  fun_induction ofText cs with
  | case1 cs name label hbuiltin => exact .builtin hbuiltin
  | case2 cs name hbuiltin inner hname ih => exact .array ih
  | case3 cs name hbuiltin hname => exact .name (trim_trim cs) hbuiltin hname

theorem Annotated.ofText_display (h : Annotated label) : ofText label.display.toList = label := by
  induction h with
  | builtin h =>
    obtain ⟨htrimmed, hbuiltin⟩ := builtin?_display h
    refine ofText_builtin ?_
    rw [htrimmed, String.ofList_toList, hbuiltin]
  | @array element _ ih =>
    have hprinted : (arrayOf element).display.toList =
        "array<".toList ++ (element.display.toList ++ ['>']) := by
      rw [display, String.toList_append, String.toList_append, List.append_assoc]
      rfl
    have htrimmed : trim (arrayOf element).display.toList = (arrayOf element).display.toList := by
      refine trim_eq_self_iff.2 ⟨fun c hc => ?_, fun c hc => ?_⟩
      · rw [hprinted, head?_append_of_ne_nil (by decide)] at hc
        obtain rfl : 'a' = c := Option.some.inj hc
        rfl
      · rw [hprinted, ← List.append_assoc, List.getLast?_concat] at hc
        obtain rfl : '>' = c := Option.some.inj hc
        rfl
    rw [ofText_array (elementText?_eq_some_iff.2 (htrimmed.trans hprinted)), ih]
  | @name cs htrimmed hbuiltin hname =>
    have hread := ofText_name (htrimmed.symm ▸ hbuiltin) (htrimmed.symm ▸ hname)
    rw [htrimmed] at hread
    rw [display, String.toList_ofList, hread]

theorem nesting_ofText_le (cs : List Char) : 7 * (ofText cs).nesting ≤ cs.length := by
  fun_induction ofText cs with
  | case1 cs name label hbuiltin =>
    have hflat := nesting_builtin? hbuiltin
    omega
  | case2 cs name hbuiltin inner hname ih =>
    have htrim : ("array<".toList ++ (inner ++ ['>'])).length ≤ cs.length :=
      elementText?_eq_some_iff.1 hname ▸ length_trim_le cs
    have hopening : "array<".toList.length = 6 := by decide
    simp only [List.length_append, List.length_singleton] at htrim
    rw [nesting]
    omega
  | case3 cs name hbuiltin hname => exact Nat.zero_le _

/-- What is printed for an annotation is read as the annotation was, and reading goes no deeper than
there are brackets. -/
theorem ofString_display (written : String) :
    ofString (ofString written).display = ofString written ∧
      7 * (ofString written).nesting ≤ written.length :=
  ⟨(annotated_ofText written.toList).ofText_display, nesting_ofText_le written.toList⟩

end TypeLabel

end SquirrelAnalyzer
