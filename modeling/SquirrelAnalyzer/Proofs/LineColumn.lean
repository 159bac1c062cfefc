import Mathlib.Data.List.TakeWhile
import SquirrelAnalyzer.Proofs.Blame

/-!
Offsets of a text and its lines and columns. The lines cut the offsets from 0 to the length of the
text into ranges that are never empty, so each offset has one position, and a position stands for
an offset only where the line has that many columns.
-/

namespace SquirrelAnalyzer

open Text

theorem takeWhile_eq_take {α : Type} {p : α → Bool} {l : List α} {n : Nat}
    (h : ∀ x ∈ l.take n, p x = true) (hnext : ∀ x, l[n]? = some x → p x = false) :
    l.takeWhile p = l.take n := by
  induction l generalizing n with
  | nil => simp
  | cons x l ih =>
    cases n with
    | zero =>
      rw [List.takeWhile_cons_of_neg (by simp [hnext x rfl]), List.take_zero]
    | succ n =>
      rw [List.take_succ_cons] at h ⊢
      rw [List.takeWhile_cons_of_pos (h x List.mem_cons_self),
        ih (fun y hy => h y (List.mem_cons_of_mem _ hy)) hnext]

namespace LineMap

structure OnLine (m : LineMap) (i start offset : Nat) : Prop where
  starts : m.starts[i]? = some start
  le : start ≤ offset
  lt_next : ∀ next, m.starts[i + 1]? = some next → offset < next

structure Lined (m : LineMap) : Prop where
  first : m.starts[0]? = some 0
  sorted : m.starts.Pairwise (· < ·)
  le_size : ∀ s ∈ m.starts, s ≤ m.size
  fits : m.size + 1 < UInt32.size

theorem offset?_eq_some_iff_exists (m : LineMap) {line column offset : Nat} :
    m.offset? line column = some offset ↔ ∃ i start c, line = i + 1 ∧ m.starts[i]? = some start ∧
      column = c + 1 ∧ offset = start + c ∧
        offset < m.starts[i + 1]?.getD ((m.size + 1) % UInt32.size) := by
  unfold offset?
  constructor
  · intro h
    split at h
    · cases h
    · next hpos =>
      split at h
      · cases h
      · next start hstart =>
        simp only [Option.ite_none_right_eq_some, Option.some.injEq] at h
        obtain ⟨hlt, rfl⟩ := h
        have hindex : line - 1 + 1 = line := by omega
        exact ⟨line - 1, start, column - 1, by omega, hstart, by omega, rfl, by rwa [hindex]⟩
  · rintro ⟨i, start, c, rfl, hstart, rfl, rfl, hlt⟩
    rw [if_neg (by omega), Nat.add_sub_cancel, hstart]
    simp only [Nat.add_sub_cancel, if_pos hlt]

theorem laterStarts_sorted (offset : Nat) (cs : List Char) :
    (laterStarts offset cs).Pairwise (· < ·) := by
  induction cs generalizing offset with
  | nil => exact .nil
  | cons c cs ih =>
    simp only [laterStarts]
    split
    · exact List.pairwise_cons.mpr ⟨fun s hs => lt_of_mem_laterStarts hs, ih _⟩
    · exact ih _

theorem ofText_of_le {text : List Char} (h : byteLength text ≤ maxOffset) :
    ofText text = ⟨0 :: laterStarts 0 text, byteLength text⟩ := by
  have hstarts : (laterStarts 0 text).map toOffset = laterStarts 0 text := by
    refine (List.map_congr_left fun s hs => ?_).trans (List.map_id _)
    have := le_of_mem_laterStarts hs
    exact toOffset_of_le (by omega)
  rw [ofText, hstarts, toOffset_of_le h]

theorem lined_ofText {text : List Char} (h : byteLength text + 1 < UInt32.size) :
    (ofText text).Lined := by
  rw [ofText_of_le (by unfold maxOffset; omega)]
  refine ⟨rfl, List.pairwise_cons.mpr
    ⟨fun _ hs => lt_of_mem_laterStarts hs, laterStarts_sorted 0 text⟩, fun s hs => ?_, h⟩
  rcases List.mem_cons.mp hs with rfl | hs
  · exact Nat.zero_le _
  · simpa using le_of_mem_laterStarts hs

namespace Lined

variable {m : LineMap} {i i' start start' offset offset' : Nat}

theorem le_start (h : m.Lined) (ho : m.OnLine i start offset) :
    ∀ s ∈ m.starts.take (i + 1), s ≤ start := by
  intro s hs
  obtain ⟨hlt, hget⟩ := List.getElem?_eq_some_iff.mp ho.starts
  rw [List.take_succ_eq_append_getElem hlt, hget] at hs
  rcases List.mem_append.mp hs with hs | hs
  · obtain ⟨j, hj, rfl⟩ := List.mem_take_iff_getElem.mp hs
    rw [← hget]
    exact Nat.le_of_lt (List.pairwise_iff_getElem.mp h.sorted j i (by omega) hlt (by omega))
  · exact Nat.le_of_eq (List.mem_singleton.mp hs)

theorem takeWhile_starts (h : m.Lined) (ho : m.OnLine i start offset) :
    m.starts.takeWhile (· ≤ offset) = m.starts.take (i + 1) := by
  have hle := ho.le
  refine takeWhile_eq_take (fun s hs => ?_) fun next hnext => ?_
  · have := h.le_start ho s hs
    simp only [decide_eq_true_eq]
    omega
  · simpa using ho.lt_next next hnext

theorem getLastD_take (ho : m.OnLine i start offset) :
    (m.starts.take (i + 1)).getLastD 0 = start := by
  obtain ⟨hlt, hget⟩ := List.getElem?_eq_some_iff.mp ho.starts
  rw [List.take_succ_eq_append_getElem hlt, hget, List.getLastD_concat]

theorem length_take (ho : m.OnLine i start offset) : (m.starts.take (i + 1)).length = i + 1 := by
  obtain ⟨hlt, -⟩ := List.getElem?_eq_some_iff.mp ho.starts
  rw [List.length_take]
  omega

theorem index_le_start (h : m.Lined) (hs : m.starts[i]? = some start) : i ≤ start := by
  induction i generalizing start with
  | zero => exact Nat.zero_le _
  | succ i ih =>
    obtain ⟨hlt, hget⟩ := List.getElem?_eq_some_iff.mp hs
    have hprev := ih (List.getElem?_eq_getElem (by omega : i < m.starts.length))
    have := List.pairwise_iff_getElem.mp h.sorted i (i + 1) (by omega) hlt (by omega)
    omega

theorem position_eq (h : m.Lined) (ho : m.OnLine i start offset) (hle : offset ≤ m.size) :
    m.position offset = (i + 1, offset - start + 1) := by
  have hstart := ho.le
  have hi := h.index_le_start ho.starts
  have hfits := h.fits
  have hline : toOffset (i + 1) = i + 1 := toOffset_of_le (by unfold maxOffset; omega)
  have hcolumn : (offset - start + 1) % UInt32.size = offset - start + 1 :=
    Nat.mod_eq_of_lt (by omega)
  simp only [position, h.takeWhile_starts ho, getLastD_take ho, length_take ho,
    Nat.max_eq_right (Nat.succ_pos i), hline, hcolumn]

theorem exists_onLine (h : m.Lined) (offset : Nat) : ∃ i start, m.OnLine i start offset := by
  have hfirst := h.first
  cases hstarts : m.starts with
  | nil =>
    rw [hstarts] at hfirst
    cases hfirst
  | cons x starts =>
    rw [hstarts] at hfirst
    obtain rfl : x = 0 := Option.some.inj hfirst
    -- the index is the number of later lines that begin no later than the offset
    let front := starts.takeWhile (· ≤ offset)
    have hsplit : starts = front ++ starts.dropWhile (· ≤ offset) :=
      List.takeWhile_append_dropWhile.symm
    have hlast : ∃ s, (0 :: starts)[front.length]? = some s ∧ s ≤ offset := by
      cases hn : front.length with
      | zero => exact ⟨0, rfl, Nat.zero_le _⟩
      | succ n =>
        have hlt : n < front.length := by omega
        refine ⟨front[n], ?_, ?_⟩
        · rw [List.getElem?_cons_succ, hsplit, List.getElem?_append_left hlt,
            List.getElem?_eq_getElem hlt]
        · simpa using List.mem_takeWhile_imp (List.getElem_mem hlt)
    obtain ⟨s, hs, hle⟩ := hlast
    refine ⟨front.length, s, hstarts ▸ hs, hle, fun next hnext => ?_⟩
    rw [hstarts, List.getElem?_cons_succ, hsplit, List.getElem?_append_right (Nat.le_refl _),
      Nat.sub_self] at hnext
    have hhead : (starts.dropWhile (· ≤ offset)).head? = some next := by
      rw [List.head?_eq_getElem?]
      exact hnext
    have hnot := List.head?_dropWhile_not (· ≤ offset) starts
    rw [hhead] at hnot
    simpa using hnot

theorem offset?_eq_some_iff (h : m.Lined) {line column : Nat} :
    m.offset? line column = some offset ↔ offset ≤ m.size ∧ ∃ i start,
      m.OnLine i start offset ∧ line = i + 1 ∧ column = offset - start + 1 := by
  rw [m.offset?_eq_some_iff_exists, Nat.mod_eq_of_lt h.fits]
  constructor
  · rintro ⟨i, start, c, rfl, hstart, rfl, rfl, hlt⟩
    have hle := h.le_size start (List.mem_of_getElem? hstart)
    refine ⟨?_, i, start, ⟨hstart, by omega, fun next hnext => ?_⟩, rfl, by omega⟩
    · cases hnext : m.starts[i + 1]? with
      | none =>
        rw [hnext, Option.getD_none] at hlt
        omega
      | some next =>
        rw [hnext, Option.getD_some] at hlt
        have := h.le_size next (List.mem_of_getElem? hnext)
        omega
    · rwa [hnext, Option.getD_some] at hlt
  · rintro ⟨hsize, i, start, ho, rfl, rfl⟩
    have hle := ho.le
    refine ⟨i, start, offset - start, rfl, ho.starts, rfl, by omega, ?_⟩
    cases hnext : m.starts[i + 1]? with
    | none =>
      rw [Option.getD_none]
      omega
    | some next => exact ho.lt_next next hnext

theorem position_lt (h : m.Lined) (hlt : offset < offset') (hsize : offset' ≤ m.size) :
    Prod.Lex (· < ·) (· < ·) (m.position offset) (m.position offset') := by
  obtain ⟨i, start, ho⟩ := h.exists_onLine offset
  obtain ⟨i', start', ho'⟩ := h.exists_onLine offset'
  rw [h.position_eq ho (by omega), h.position_eq ho' hsize]
  have hle := ho.le
  have hle' := ho'.le
  rcases Nat.lt_trichotomy i i' with hi | rfl | hi
  · exact .left _ _ (Nat.succ_lt_succ hi)
  · obtain rfl := Option.some.inj (ho.starts.symm.trans ho'.starts)
    exact .right _ (by omega)
  · -- the earlier line would end in front of the later offset
    obtain ⟨hlength, hget⟩ := List.getElem?_eq_some_iff.mp ho.starts
    have hnext := ho'.lt_next _ (List.getElem?_eq_getElem (by omega : i' + 1 < m.starts.length))
    have hbehind : m.starts[i' + 1] ≤ start := by
      rcases Nat.lt_or_eq_of_le (Nat.succ_le_of_lt hi) with hi | hi
      · rw [← hget]
        exact Nat.le_of_lt (List.pairwise_iff_getElem.mp h.sorted _ _ _ hlength hi)
      · subst hi
        exact Nat.le_of_eq hget
    omega

end Lined

end LineMap

namespace Word

def sub? (a b : UInt32) : Option UInt32 := if b ≤ a then some (a - b) else none

def add? (a b : UInt32) : Option UInt32 :=
  if a.toNat + b.toNat < UInt32.size then some (a + b) else none

theorem sub?_eq_some_iff {a b c : UInt32} : sub? a b = some c ↔ a.toNat = c.toNat + b.toNat := by
  unfold sub?
  rw [Option.ite_none_right_eq_some, Option.some.injEq, UInt32.le_iff_toNat_le]
  constructor
  · rintro ⟨hle, rfl⟩
    rw [UInt32.toNat_sub_of_le _ _ (UInt32.le_iff_toNat_le.mpr hle), Nat.sub_add_cancel hle]
  · intro h
    have hle : b.toNat ≤ a.toNat := by omega
    refine ⟨hle, UInt32.toNat_inj.mp ?_⟩
    rw [UInt32.toNat_sub_of_le _ _ (UInt32.le_iff_toNat_le.mpr hle)]
    omega

theorem add?_eq_some_iff {a b c : UInt32} : add? a b = some c ↔ c.toNat = a.toNat + b.toNat := by
  have hc : c.toNat < UInt32.size := c.toNat_lt
  unfold add?
  rw [Option.ite_none_right_eq_some, Option.some.injEq]
  constructor
  · rintro ⟨hlt, rfl⟩
    rw [UInt32.toNat_add, Nat.mod_eq_of_lt hlt]
  · intro h
    refine ⟨by omega, UInt32.toNat_inj.mp ?_⟩
    rw [UInt32.toNat_add, ← h, Nat.mod_eq_of_lt hc]

end Word

namespace LineMap

def wordStarts (m : LineMap) : List UInt32 := m.starts.map UInt32.ofNatClamp

def wordPosition (m : LineMap) (offset : UInt32) : UInt32 × UInt32 :=
  let before := m.wordStarts.takeWhile (· ≤ offset)
  (UInt32.ofNatClamp (max 1 before.length), offset - before.getLastD 0 + 1)

def wordOffset? (m : LineMap) (line column : UInt32) : Option UInt32 := do
  let index ← Word.sub? line 1
  let start ← m.wordStarts[index.toNat]?
  let stop := m.wordStarts[index.toNat + 1]?.getD (UInt32.ofNatClamp m.size + 1)
  let offset ← Word.add? start (← Word.sub? column 1)
  if offset < stop then some offset else none

namespace Lined

variable {m : LineMap} (h : m.Lined)

include h

theorem toNat_start {s : Nat} (hs : s ∈ m.starts) : (UInt32.ofNatClamp s).toNat = s := by
  have := h.le_size s hs
  have hfits := h.fits
  exact UInt32.toNat_ofNatClamp_of_lt (by omega)

theorem toNat_stop (i : Nat) :
    (m.wordStarts[i]?.getD (UInt32.ofNatClamp m.size + 1)).toNat =
      m.starts[i]?.getD ((m.size + 1) % UInt32.size) := by
  have hfits := h.fits
  rw [wordStarts, List.getElem?_map]
  cases hs : m.starts[i]? with
  | none =>
    have hend : (UInt32.ofNatClamp m.size).toNat = m.size :=
      UInt32.toNat_ofNatClamp_of_lt (by omega)
    rw [Option.map_none, Option.getD_none, Option.getD_none, UInt32.toNat_add, hend]
    rfl
  | some s =>
    rw [Option.map_some, Option.getD_some, Option.getD_some]
    exact h.toNat_start (List.mem_of_getElem? hs)

theorem wordOffset?_eq_some_iff {line column offset : UInt32} :
    m.wordOffset? line column = some offset ↔
      m.offset? line.toNat column.toNat = some offset.toNat := by
  have hone : (1 : UInt32).toNat = 1 := rfl
  simp only [wordOffset?, Option.bind_eq_bind, Option.bind_eq_some_iff, Word.sub?_eq_some_iff,
    Word.add?_eq_some_iff, Option.ite_none_right_eq_some, Option.some.injEq,
    UInt32.lt_iff_toNat_lt, h.toNat_stop, hone, m.offset?_eq_some_iff_exists]
  constructor
  · rintro ⟨index, hline, start, hstart, c, hcolumn, o, hsum, hlt, rfl⟩
    rw [wordStarts, List.getElem?_map] at hstart
    obtain ⟨s, hs, rfl⟩ := Option.map_eq_some_iff.mp hstart
    rw [h.toNat_start (List.mem_of_getElem? hs)] at hsum
    exact ⟨index.toNat, s, c.toNat, hline, hs, hcolumn, hsum, hlt⟩
  · rintro ⟨i, s, c, hline, hs, hcolumn, hsum, hlt⟩
    have hi : (UInt32.ofNat i).toNat = i := UInt32.toNat_ofNat_of_lt' (by
      have hlt : line.toNat < UInt32.size := line.toNat_lt
      omega)
    have hc : (UInt32.ofNat c).toNat = c := UInt32.toNat_ofNat_of_lt' (by
      have hlt : column.toNat < UInt32.size := column.toNat_lt
      omega)
    refine ⟨UInt32.ofNat i, by omega, UInt32.ofNatClamp s, ?_, UInt32.ofNat c, by omega, offset, ?_,
      by rwa [hi], rfl⟩
    · rw [hi, wordStarts, List.getElem?_map, hs, Option.map_some]
    · rw [h.toNat_start (List.mem_of_getElem? hs), hc, hsum]

theorem toNat_wordOffset? (line column : UInt32) :
    (m.wordOffset? line column).map UInt32.toNat = m.offset? line.toNat column.toNat := by
  refine Option.ext fun n => ?_
  rw [Option.map_eq_some_iff]
  constructor
  · rintro ⟨o, ho, rfl⟩
    exact (h.wordOffset?_eq_some_iff).mp ho
  · intro hn
    have hle := (h.offset?_eq_some_iff.mp hn).1
    have hfits := h.fits
    have hword : (UInt32.ofNat n).toNat = n := UInt32.toNat_ofNat_of_lt' (by omega)
    exact ⟨UInt32.ofNat n, (h.wordOffset?_eq_some_iff).mpr (hword.symm ▸ hn), hword⟩

theorem toNat_wordPosition {offset : UInt32} (ho : offset.toNat ≤ m.size) :
    (m.wordPosition offset).map UInt32.toNat UInt32.toNat = m.position offset.toNat := by
  obtain ⟨i, start, hline⟩ := h.exists_onLine offset.toNat
  have hstart := h.toNat_start (List.mem_of_getElem? hline.starts)
  have hle := hline.le
  have hi := h.index_le_start hline.starts
  have hfits := h.fits
  have htake : m.wordStarts.takeWhile (· ≤ offset) = m.wordStarts.take (i + 1) := by
    refine takeWhile_eq_take (fun w hw => ?_) fun next hnext => ?_
    · rw [wordStarts, ← List.map_take] at hw
      obtain ⟨s, hs, rfl⟩ := List.mem_map.mp hw
      have := h.le_start hline s hs
      rw [decide_eq_true_eq, UInt32.le_iff_toNat_le, h.toNat_start (List.mem_of_mem_take hs)]
      omega
    · rw [wordStarts, List.getElem?_map] at hnext
      obtain ⟨s, hs, rfl⟩ := Option.map_eq_some_iff.mp hnext
      have := hline.lt_next s hs
      rw [decide_eq_false_iff_not, UInt32.le_iff_toNat_le,
        h.toNat_start (List.mem_of_getElem? hs)]
      omega
  have hlast : ((m.starts.take (i + 1)).map UInt32.ofNatClamp).getLastD 0 =
      UInt32.ofNatClamp start := by
    rw [← getLastD_take hline]
    exact List.getLastD_map (a := 0)
  have hword : (UInt32.ofNatClamp (i + 1)).toNat = i + 1 := UInt32.toNat_ofNatClamp_of_lt (by omega)
  have hdiff : (offset - UInt32.ofNatClamp start + 1).toNat = offset.toNat - start + 1 := by
    have hone : (1 : UInt32).toNat = 1 := rfl
    have hlt : offset.toNat - start + 1 < UInt32.size := by omega
    rw [UInt32.toNat_add, UInt32.toNat_sub_of_le _ _ (by rwa [UInt32.le_iff_toNat_le, hstart]),
      hstart, hone]
    exact Nat.mod_eq_of_lt hlt
  rw [h.position_eq hline ho]
  simp only [wordPosition, htake]
  rw [wordStarts, ← List.map_take, List.length_map, length_take hline, hlast,
    Nat.max_eq_right (Nat.succ_pos i), Prod.map_apply, hword, hdiff]

end Lined

/-- The offsets of a text up to its length and the lines and columns they have stand for each other,
also when both are computed in words. -/
structure Invertible (m : LineMap) (length : Nat) : Prop where
  increasing : ∀ offset offset', offset < offset' → offset' ≤ length →
    Prod.Lex (· < ·) (· < ·) (m.position offset) (m.position offset')
  positive : ∀ offset ≤ length, 0 < (m.position offset).1 ∧ 0 < (m.position offset).2
  offset_position : ∀ offset ≤ length,
    m.offset? (m.position offset).1 (m.position offset).2 = some offset
  position_offset : ∀ line column offset, m.offset? line column = some offset →
    offset ≤ length ∧ m.position offset = (line, column)
  none_iff : ∀ line column, m.offset? line column = none ↔
    ∀ offset ≤ length, m.position offset ≠ (line, column)
  wordPosition : ∀ offset : UInt32, offset.toNat ≤ length →
    (m.wordPosition offset).map UInt32.toNat UInt32.toNat = m.position offset.toNat
  wordOffset : ∀ line column : UInt32,
    (m.wordOffset? line column).map UInt32.toNat = m.offset? line.toNat column.toNat

theorem Lined.invertible {m : LineMap} (h : m.Lined) :
    m.Invertible m.size := by
  have hposition {line column offset : Nat} (ho : m.offset? line column = some offset) :
      offset ≤ m.size ∧ m.position offset = (line, column) := by
    obtain ⟨hle, i, start, hline, rfl, rfl⟩ := h.offset?_eq_some_iff.mp ho
    exact ⟨hle, h.position_eq hline hle⟩
  have hoffset {offset : Nat} (ho : offset ≤ m.size) :
      m.offset? (m.position offset).1 (m.position offset).2 = some offset := by
    obtain ⟨i, start, hline⟩ := h.exists_onLine offset
    rw [h.position_eq hline ho]
    exact h.offset?_eq_some_iff.mpr ⟨ho, i, start, hline, rfl, rfl⟩
  refine ⟨fun _ _ => h.position_lt, fun offset ho => ?_, fun _ => hoffset,
    fun _ _ _ => hposition, fun line column => ?_, fun _ => h.toNat_wordPosition,
    h.toNat_wordOffset?⟩
  · obtain ⟨i, start, hline⟩ := h.exists_onLine offset
    rw [h.position_eq hline ho]
    exact ⟨Nat.succ_pos _, Nat.succ_pos _⟩
  · rw [Option.eq_none_iff_forall_ne_some]
    constructor
    · rintro hnone offset ho he
      have hsome := hoffset ho
      rw [he] at hsome
      exact hnone offset hsome
    · intro hne offset ho
      obtain ⟨hle, he⟩ := hposition ho
      exact hne offset hle he

/-- Offsets and positions of a text are inverse to each other. -/
theorem invertible_ofText (source : String) (h : byteLength source.toList < UInt32.size - 1) :
    (ofText source.toList).Invertible (byteLength source.toList) := by
  have hlined : (ofText source.toList).Lined := lined_ofText (by omega)
  have hinvertible := hlined.invertible
  rwa [ofText_of_le (by unfold maxOffset; omega)] at hinvertible ⊢

theorem invertible_ofText_empty_lines : byteLength "ab\n\nc\n".toList < UInt32.size - 1 ∧
    (ofText "ab\n\nc\n".toList).Invertible 6 ∧
    (ofText "ab\n\nc\n".toList).position 6 = (4, 1) ∧
    (ofText "ab\n\nc\n".toList).offset? 2 2 = none ∧
    (ofText "ab\n\nc\n".toList).wordOffset? 3 4294967295 = none :=
  ⟨by decide, invertible_ofText "ab\n\nc\n" (by decide), by decide, by decide, by decide⟩

end LineMap

end SquirrelAnalyzer
