import Mathlib.Data.List.Chain
import Mathlib.Data.List.Infix
import Mathlib.Data.List.TakeWhile
import SquirrelAnalyzer.Proofs.Parser.Source

namespace SquirrelAnalyzer

open Text

structure Text.Stands (text : List Char) (span : Span) (part rest : List Char) : Prop where
  split : ∃ before, text = before ++ part ++ rest ∧ byteLength before = span.start
  stop : span.stop = span.start + byteLength part

namespace Text

theorem isSome_dropStart?_iff {start text : List Char} :
    (dropStart? start text).isSome = true ↔ start <+: text := by
  simp only [Option.isSome_iff_exists, dropStart?_eq_some_iff]
  exact exists_congr fun _ => eq_comm

theorem isNone_dropStart?_iff {start text : List Char} :
    (dropStart? start text).isNone = true ↔ ¬start <+: text := by
  rw [← isSome_dropStart?_iff, Option.isNone_iff_eq_none, Option.not_isSome_iff_eq_none]

end Text

namespace Trivia

def WellFormed (rest : List Char) : Trivia → Prop
  | blank c => isBlank c = true
  | lineComment text =>
    (['#'] <+: text ∨ ['/', '/'] <+: text) ∧ '\n' ∉ text ∧ ∀ c ∈ rest.head?, c = '\n'
  | blockComment text =>
    ∃ body, text = ['/', '*'] ++ body ++ ['*', '/'] ∧ ¬['*', '/'] <:+: body ++ ['*']

def Documents : Trivia → Bool
  | blockComment text => "/**".toList <+: text ∧ text ≠ "/**/".toList
  | _ => false

def placed (offset : Nat) : List Trivia → List (Span × Trivia)
  | [] => []
  | t :: ts => (⟨offset, offset + byteLength t.text⟩, t) :: placed (offset + byteLength t.text) ts

def Run (rest : List Char) : List Trivia → Prop
  | [] => True
  | t :: ts => t.WellFormed (ts.flatMap text ++ rest) ∧ Run rest ts

end Trivia

/-- A token with the blanks and comments in front of it and the offset where they begin. -/
structure Segment where
  offset : Nat
  gap : List Trivia
  token : Token

namespace Segment

def gapText (s : Segment) : List Char := s.gap.flatMap Trivia.text

def placed (s : Segment) : List (Span × Trivia) := Trivia.placed s.offset s.gap

def documentation (segments : List Segment) : List RawComment :=
  ((segments.flatMap placed).filter (·.2.Documents)).map fun p => ⟨p.2.text, p.1⟩

structure Fits (text : List Char) (s : Segment) : Prop where
  gap : ∃ rest, Stands text ⟨s.offset, s.token.span.start⟩ s.gapText rest
  trivia : ∀ p ∈ s.placed, ∃ rest, Stands text p.1 p.2.text rest ∧ p.2.WellFormed rest
  token : ∃ rest, Stands text s.token.span s.token.text.toList rest
  newline : s.token.newlineBefore = true ↔ '\n' ∈ s.gapText

/-- Segments that make up a text from an offset on. -/
structure Partition (text : List Char) (offset : Nat) (segments : List Segment) : Prop where
  fits : ∀ s ∈ segments, s.Fits text
  begins : ∀ s ∈ segments.head?, s.offset = offset
  adjacent : segments.IsChain fun s s' => s'.offset = s.token.span.stop
  ordered : (segments.map (·.token)).Pairwise fun t t' => t.span.stop ≤ t'.span.start
  ends : ∃ init last, segments = init ++ [last] ∧ last.token.kind = .endOfFile ∧
    last.token.span = ⟨byteLength text, byteLength text⟩ ∧
    ∀ s ∈ init, s.token.kind ≠ .endOfFile ∧ s.token.span.start < s.token.span.stop

end Segment

namespace Trivia

theorem closeBlock_spec {cs text rest : List Char} (h : closeBlock cs = some (text, rest)) :
    ∃ body, text = body ++ ['*', '/'] ∧ ¬['*', '/'] <:+: body ++ ['*'] := by
  fun_induction closeBlock cs generalizing text rest with
  | case1 cs =>
    cases h
    exact ⟨[], rfl, by decide⟩
  | case2 c cs hne ih =>
    obtain ⟨⟨t, r⟩, hr, he⟩ := Option.map_eq_some_iff.mp h
    cases he
    obtain ⟨body, rfl, hbody⟩ := ih hr
    refine ⟨c :: body, rfl, fun hinfix => ?_⟩
    rcases List.infix_cons_iff.mp hinfix with hprefix | hinfix
    · -- a closing sign at the front would have ended the comment here
      have happend := append_of_closeBlock hr
      obtain ⟨rfl, htail⟩ := List.cons_prefix_cons.mp hprefix
      cases body with
      | nil => exact absurd htail (by decide)
      | cons d body =>
        obtain ⟨rfl, -⟩ := List.cons_prefix_cons.mp htail
        exact hne _ rfl happend.symm
    · exact hbody hinfix
  | case3 => cases h

theorem eq_of_closed_opening {body : List Char} (hbody : ¬['*', '/'] <:+: body ++ ['*'])
    (h : ['*', '/'] <+: body ++ ['*', '/']) : body = [] := by
  cases body with
  | nil => rfl
  | cons c body =>
    obtain ⟨rfl, htail⟩ := List.cons_prefix_cons.mp h
    cases body with
    | nil => exact absurd htail (by decide)
    | cons d body =>
      obtain ⟨rfl, -⟩ := List.cons_prefix_cons.mp htail
      exact absurd (List.prefix_append ['*', '/'] (body ++ ['*'])).isInfix hbody

theorem isDocumentation_eq {rest : List Char} {t : Trivia} (h : t.WellFormed rest) :
    t.isDocumentation = t.Documents := by
  cases t with
  | blank c => rfl
  | lineComment text => rfl
  | blockComment text =>
    obtain ⟨body, rfl, hbody⟩ := h
    have hclosed : "/**/".toList <+: ['/', '*'] ++ body ++ ['*', '/'] ↔
        ['/', '*'] ++ body ++ ['*', '/'] = "/**/".toList := by
      refine ⟨fun hprefix => ?_, fun he => he ▸ List.prefix_refl _⟩
      rw [eq_of_closed_opening hbody (by simpa using hprefix)]
      rfl
    rw [Bool.eq_iff_iff]
    simp only [isDocumentation, Documents, Bool.and_eq_true, decide_eq_true_eq,
      isSome_dropStart?_iff, isNone_dropStart?_iff, hclosed, ne_eq]

theorem cases_of_startsLineComment {cs : List Char} (h : Gap.startsLineComment cs = true) :
    (∃ body, cs = '#' :: body) ∨ ∃ body, cs = '/' :: '/' :: body := by
  unfold Gap.startsLineComment at h
  split at h
  · exact .inl ⟨_, rfl⟩
  · exact .inr ⟨_, rfl⟩
  · cases h

theorem lineComment_wellFormed {c : Char} {cs : List Char}
    (h : Gap.startsLineComment (c :: cs) = true) :
    (lineComment (c :: cs.takeWhile (· != '\n'))).WellFormed (cs.dropWhile (· != '\n')) := by
  have hline : '\n' ∉ cs.takeWhile (· != '\n') := fun hmem => by
    simpa using List.mem_takeWhile_imp hmem
  have hrest : ∀ d ∈ (cs.dropWhile (· != '\n')).head?, d = '\n' := fun d hd => by
    have hhead := List.head?_dropWhile_not (· != '\n') cs
    rw [hd] at hhead
    simpa using hhead
  rcases cases_of_startsLineComment h with ⟨body, he⟩ | ⟨body, he⟩
  · cases he
    exact ⟨by simp, by simpa using hline, hrest⟩
  · cases he
    exact ⟨by simp, by simpa using hline, hrest⟩

theorem run_ofText (cs : List Char) : Run (Gap.ofText cs).rest (Gap.ofText cs).trivia := by
  fun_induction Gap.ofText cs with
  | case1 => trivial
  | case2 c cs hc ih => exact ⟨hc, ih⟩
  | case3 c cs _ hline ih =>
    refine ⟨?_, ih⟩
    show WellFormed ((Gap.ofText _).text ++ (Gap.ofText _).rest) _
    rw [Gap.ofText_append]
    exact lineComment_wellFormed hline
  | case4 => trivial
  | case5 => trivial
  | case6 c cs _ _ body hb comment rest hc ih =>
    obtain ⟨inner, rfl, hinner⟩ := closeBlock_spec hc
    exact ⟨⟨inner, by simp, hinner⟩, ih⟩

theorem run_pull (cs : List Char) :
    Run ((Pull.ofText cs).text ++ (Pull.ofText cs).rest) (Pull.ofText cs).trivia := by
  have h := run_ofText cs
  unfold Pull.ofText
  dsimp only
  split
  · rwa [List.append_nil]
  · rwa [Token.scan_append]

theorem stands_placed {text before rest : List Char} {ts : List Trivia} (hrun : Run rest ts)
    (htext : text = before ++ (ts.flatMap Trivia.text ++ rest)) :
    ∀ p ∈ placed (byteLength before) ts,
      ∃ after, Stands text p.1 p.2.text after ∧ p.2.WellFormed after := by
  induction ts generalizing before with
  | nil => exact fun p hp => absurd hp List.not_mem_nil
  | cons t ts ih =>
    rw [List.flatMap_cons, List.append_assoc, ← List.append_assoc before] at htext
    refine List.forall_mem_cons.mpr ⟨⟨_, ⟨⟨before, htext, rfl⟩, rfl⟩, hrun.1⟩, ?_⟩
    have htail := ih hrun.2 htext
    rwa [byteLength_append] at htail

theorem documentation_eq {rest : List Char} {ts : List Trivia} (hrun : Run rest ts) (offset : Nat) :
    Token.documentation offset ts =
      ((placed offset ts).filter (·.2.Documents)).map fun p => ⟨p.2.text, p.1⟩ := by
  induction ts generalizing offset with
  | nil => rfl
  | cons t ts ih =>
    have hdocuments := isDocumentation_eq hrun.1
    simp only [Token.documentation, placed, List.filter_cons, hdocuments, ih hrun.2]
    split <;> rfl

end Trivia

namespace Segment

variable {text : List Char} {offset : Nat} {s : Segment} {segments : List Segment}

theorem Fits.le (h : s.Fits text) :
    s.offset ≤ s.token.span.start ∧ s.token.span.start ≤ s.token.span.stop := by
  obtain ⟨_, hgap⟩ := h.gap
  obtain ⟨_, htoken⟩ := h.token
  have h₁ := hgap.stop
  have h₂ := htoken.stop
  dsimp only at h₁
  omega

theorem Partition.behind (h : Partition text offset segments) :
    ∀ s ∈ segments, offset ≤ s.token.span.start := by
  cases segments with
  | nil => exact fun s hs => absurd hs List.not_mem_nil
  | cons s segments =>
    have hfits := (h.fits s List.mem_cons_self).le
    have hbegins := h.begins s rfl
    refine List.forall_mem_cons.mpr ⟨by omega, fun s' hs' => ?_⟩
    have hordered := (List.pairwise_cons.mp h.ordered).1 _ (List.mem_map_of_mem hs')
    dsimp only at hordered
    omega

theorem Partition.cons (h : Partition text s.token.span.stop segments) (hs : s.Fits text)
    (hkind : s.token.kind ≠ .endOfFile) (hproper : s.token.span.start < s.token.span.stop) :
    Partition text s.offset (s :: segments) := by
  obtain ⟨init, last, rfl, hlast, hspan, hinit⟩ := h.ends
  refine ⟨List.forall_mem_cons.mpr ⟨hs, h.fits⟩, ?_, ?_, ?_, ?_⟩
  · rintro _ ⟨⟩
    rfl
  · exact List.IsChain.cons h.adjacent h.begins
  · exact List.pairwise_cons.mpr ⟨List.forall_mem_map.mpr h.behind, h.ordered⟩
  · exact ⟨s :: init, last, rfl, hlast, hspan, List.forall_mem_cons.mpr ⟨⟨hkind, hproper⟩, hinit⟩⟩

theorem Partition.singleton (hs : s.Fits text) (hkind : s.token.kind = .endOfFile)
    (hspan : s.token.span = ⟨byteLength text, byteLength text⟩) : Partition text s.offset [s] := by
  refine ⟨List.forall_mem_singleton.mpr hs, ?_, .singleton s, List.pairwise_singleton _ _, ?_⟩
  · rintro _ ⟨⟩
    rfl
  · exact ⟨[], s, rfl, hkind, hspan, nofun⟩

theorem fits_ofPull {before cs : List Char} {t : Token}
    (ht : (Token.Item.ofPull (byteLength before) (Pull.ofText cs)).result = .ok t) :
    Fits (before ++ cs) ⟨byteLength before, (Pull.ofText cs).trivia, t⟩ := by
  obtain ⟨kind, -, rfl⟩ := Token.exists_result_ofPull ht
  have happend := Pull.ofText_append cs
  have hgap : Stands (before ++ cs) ⟨byteLength before, byteLength before +
      byteLength (Pull.ofText cs).gapText⟩ (Pull.ofText cs).gapText
      ((Pull.ofText cs).text ++ (Pull.ofText cs).rest) :=
    ⟨⟨before, by rw [List.append_assoc, happend], rfl⟩, rfl⟩
  have htoken : Stands (before ++ cs) ⟨byteLength before + byteLength (Pull.ofText cs).gapText,
      Token.stopOffset (byteLength before) (Pull.ofText cs)⟩ (Pull.ofText cs).text
      (Pull.ofText cs).rest := by
    refine ⟨⟨before ++ (Pull.ofText cs).gapText, ?_, byteLength_append _ _⟩, rfl⟩
    rw [List.append_assoc, List.append_assoc, happend]
  refine ⟨⟨_, hgap⟩, Trivia.stands_placed (Trivia.run_pull cs) ?_,
    ⟨(Pull.ofText cs).rest, ?_⟩, List.contains_iff_mem⟩
  · exact congrArg (before ++ ·) happend.symm
  · rwa [String.toList_ofList]

theorem documentation_cons (s : Segment) (segments : List Segment) :
    documentation (s :: segments) = documentation [s] ++ documentation segments := by
  simp [documentation]

theorem documentation_ofPull (offset : Nat) (cs : List Char) (t : Token) :
    (Token.Item.ofPull offset (Pull.ofText cs)).comments =
      documentation [⟨offset, (Pull.ofText cs).trivia, t⟩] := by
  rw [documentation, List.flatMap_singleton]
  exact Trivia.documentation_eq (Trivia.run_pull cs) offset

end Segment

namespace Token

theorem rest_of_isLast {cs : List Char} (h : (Pull.ofText cs).isLast = true) :
    (Pull.ofText cs).text = [] ∧ (Pull.ofText cs).rest = [] := by
  have hkind := Pull.isLast_iff.mp h
  unfold Pull.ofText at hkind ⊢
  dsimp only at hkind ⊢
  split at hkind
  · cases hkind
  · next hopen =>
    rw [if_neg hopen, scan_nil_of_endOfFile hkind]
    exact ⟨rfl, rfl⟩

theorem partition_gather {before cs : List Char} {tokens : List Token} {comments : List RawComment}
    (h : gather (itemsFrom (byteLength before) cs) = .ok (tokens, comments)) :
    ∃ segments, Segment.Partition (before ++ cs) (byteLength before) segments ∧
      tokens = segments.map (·.token) ∧ comments = Segment.documentation segments := by
  -- on the length of what is left to read; offsets count from the start of the whole text
  induction hn : cs.length using Nat.strongRecOn generalizing before cs tokens comments with
  | ind n ih =>
    have happend := Pull.ofText_append cs
    rw [itemsFrom] at h
    split at h
    · next hlast =>
      obtain ⟨t, ts, cs', ht, hts, rfl, rfl⟩ := gather_cons h
      cases hts
      obtain ⟨kind, hkind, rfl⟩ := exists_result_ofPull ht
      obtain ⟨htext, hrest⟩ := rest_of_isLast hlast
      rw [Pull.isLast_iff.mp hlast] at hkind
      refine ⟨[⟨byteLength before, (Pull.ofText cs).trivia, _⟩],
        .singleton (Segment.fits_ofPull ht) (Except.ok.inj hkind).symm ?_, rfl, ?_⟩
      · rw [htext, hrest, List.append_nil, List.append_nil] at happend
        simp only [stopOffset, htext, happend, byteLength_append, byteLength, Nat.add_zero]
      · rw [List.append_nil]
        exact Segment.documentation_ofPull _ _ _
    · next hlast =>
      obtain ⟨t, ts, cs', ht, hts, rfl, rfl⟩ := gather_cons h
      obtain ⟨hkind, -, hstop⟩ := result_ofPull ht
      have hne : t.kind ≠ .endOfFile := fun he => hlast (Pull.isLast_iff.mpr (he ▸ hkind))
      have hlt := Pull.length_rest_lt fun he => hlast (Pull.isLast_iff.mpr he)
      have hstop' : stopOffset (byteLength before) (Pull.ofText cs) =
          byteLength (before ++ ((Pull.ofText cs).gapText ++ (Pull.ofText cs).text)) := by
        simp only [stopOffset, byteLength_append, Nat.add_assoc]
      rw [hstop'] at hts hstop
      obtain ⟨segments, hpartition, rfl, rfl⟩ := ih _ (hn ▸ hlt) hts rfl
      rw [List.append_assoc, List.append_assoc, happend, ← hstop] at hpartition
      refine ⟨⟨byteLength before, (Pull.ofText cs).trivia, t⟩ :: segments,
        hpartition.cons (Segment.fits_ofPull ht) hne (lt_stop_ofPull ht hne), rfl, ?_⟩
      rw [Segment.documentation_cons, Segment.documentation_ofPull]

/-- The tokens of a text stand one behind the other, with only blanks and comments in between, and
the documentation comments of the text are among these. -/
theorem partition_tokenize {text : List Char} {tokens : List Token} {comments : List RawComment}
    (hsize : byteLength text ≤ maxOffset) (h : tokenize text = .ok (tokens, comments)) :
    ∃ segments, Segment.Partition text 0 segments ∧ tokens = segments.map (·.token) ∧
      comments = Segment.documentation segments := by
  have hgather : gather (itemsFrom (byteLength []) text) = .ok (tokens, comments) :=
    tokenize_of_le hsize ▸ h
  exact partition_gather hgather

theorem partition_of_documented_word : byteLength "/** é */\n/**/ é # ü".toList ≤ maxOffset ∧
    ∃ segments, Segment.Partition "/** é */\n/**/ é # ü".toList 0 segments ∧
      segments.map (·.token) =
        [⟨.identifier "é", "é", ⟨15, 17⟩, true⟩, ⟨.endOfFile, "", ⟨22, 22⟩, false⟩] ∧
      Segment.documentation segments = [⟨"/** é */".toList, ⟨0, 9⟩⟩] := by
  have hread : tokenize "/** é */\n/**/ é # ü".toList =
      .ok ([⟨.identifier "é", "é", ⟨15, 17⟩, true⟩, ⟨.endOfFile, "", ⟨22, 22⟩, false⟩],
        [⟨"/** é */".toList, ⟨0, 9⟩⟩]) := by decide +kernel
  have hsize : byteLength "/** é */\n/**/ é # ü".toList ≤ maxOffset := by decide
  obtain ⟨segments, hpartition, htokens, hcomments⟩ := partition_tokenize hsize hread
  exact ⟨hsize, segments, hpartition, htokens.symm, hcomments.symm⟩

end Token

end SquirrelAnalyzer
