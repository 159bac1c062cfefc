import Mathlib.Data.List.Forall2
import SquirrelAnalyzer.Proofs.Doc.Words

/-!
Reading a documentation comment undoes writing it. A tag is written as its kind, type, name or link
and documentation with single spaces between them, broken over lines at any of them, and what the
reader gives for such a comment is the list of attributes that was written.
-/

namespace SquirrelAnalyzer.Doc

open Text

/-- Attributes whose parts are read back one by one: no part reads as the part in front of it. -/
structure Attribute.WellFormed (tag : Attribute) : Prop where
  kind : IsWord tag.kind.toList
  type : ∀ type ∈ tag.type,
    trim type.toList = type.toList ∧ '\x7d' ∉ type.toList ∧ '\n' ∉ type.toList
  named : tag.name.isSome → tag.kind ∈ namedTags
  name : ∀ name ∈ tag.name, IsWord name.toList ∧ name.toList.head? ≠ some '\x7b' ∧
    '=' ∉ name.toList ∧ '[' ∉ name.toList ∧ ']' ∉ name.toList
  expected : ∀ expected ∈ tag.expected,
    tag.name.isSome ∧ ∀ c ∈ expected.toList, isBlank c = false
  linked : tag.link.isSome → tag.kind ∈ linkTags
  link : ∀ link ∈ tag.link, IsWord link.toList ∧ link.toList.head? ≠ some '\x7b'
  documentation : ∀ text ∈ tag.documentation, IsLine text.toList ∧ text.toList.head? ≠ some '-'
  untyped : tag.type = none → tag.name = none → tag.link = none →
    ∀ text ∈ tag.documentation, text.toList.head? ≠ some '\x7b'
  behindName : tag.documentation.isSome → tag.kind ∈ namedTags → tag.name.isSome
  behindLink : tag.documentation.isSome → tag.kind ∈ linkTags → tag.link.isSome

def nameText (bracketed : Bool) (name : String) : Option String → List Char
  | some expected => '[' :: (name.toList ++ '=' :: expected.toList) ++ [']']
  | none => if bracketed then '[' :: name.toList ++ [']'] else name.toList

def Attribute.argumentTexts (bracketed : Bool) (tag : Attribute) : List (List Char) :=
  (tag.name.map fun name => nameText bracketed name tag.expected).toList ++
    (tag.link.map String.toList).toList ++ (tag.documentation.map String.toList).toList

def Attribute.typeTexts (tag : Attribute) : List (List Char) :=
  (tag.type.map fun type => '\x7b' :: type.toList ++ ['\x7d']).toList

def Attribute.texts (bracketed : Bool) (tag : Attribute) : List (List Char) :=
  ('@' :: tag.kind.toList) :: (tag.typeTexts ++ tag.argumentTexts bracketed)

structure Breaks (text : List Char) (lines : List (List Char)) : Prop where
  join : joinLines lines = text
  line : ∀ line ∈ lines, IsLine line
  continued : ∀ line ∈ lines.tail, opensTag line = false

def WritesTag (tag : Attribute) (block : List (List Char)) : Prop :=
  ∃ bracketed, Breaks (joinLines (tag.texts bracketed)) block

/-- The lines of a description and of tags behind it. -/
structure Writes (text? : Option String) (tags : List Attribute) (front : List (List Char))
    (blocks : List (List (List Char))) : Prop where
  description : ∀ text ∈ text?, Breaks text.toList front
  bare : text? = none → front = []
  tags : List.Forall₂ WritesTag tags blocks

def starred (margin line : List Char) : List Char := margin ++ '*' :: ' ' :: line

def comment (margin : List Char) (lines : List (List Char)) : List Char :=
  ['/', '*', '*'] ++ (lines.flatMap ('\n' :: starred margin ·) ++ '\n' :: margin) ++ ['*', '/']

variable {margin : List Char} {lines front : List (List Char)} {blocks : List (List (List Char))}

theorem cleanLine_starred (hmargin : ∀ c ∈ margin, isBlank c = true) {line : List Char}
    (hline : IsLine line) : cleanLine (starred margin line) = line := by
  have htrim : trim (starred margin line) = '*' :: ' ' :: line := by
    rw [starred, trim, trimStart_append hmargin,
      trimStart_eq_self (by simp [show isBlank '*' = false from rfl])]
    apply dropEndWhile_eq_self
    intro c hc
    change c ∈ (['*', ' '] ++ line).getLast? at hc
    rw [getLast?_append_of_ne_nil _ hline.ne] at hc
    exact hline.last c hc
  have hstar : ('*' :: ' ' :: line).dropWhile (· == '*') = [' '] ++ line := by simp
  rw [cleanLine, htrim, hstar, trim, trimStart_append isBlank_space, ← trim, hline.trimmed]

theorem cleanLine_eq_nil (hmargin : ∀ c ∈ margin, isBlank c = true) : cleanLine margin = [] := by
  have htrim : trim margin = [] := by
    have happend := trimStart_append hmargin []
    rw [List.append_nil] at happend
    rw [trim, happend]
    rfl
  rw [cleanLine, htrim]
  rfl

theorem body_comment (hmargin : ∀ c ∈ margin, isBlank c = true) :
    body (comment margin lines) =
      lines.flatMap ('\n' :: starred margin ·) ++ '\n' :: margin := by
  have htrim : trim (comment margin lines) = comment margin lines := by
    refine trim_eq_self_iff.2 ⟨fun c hc => ?_, fun c hc => ?_⟩
    · obtain rfl : '/' = c := by simpa [comment] using hc
      rfl
    · rw [comment, getLast?_append_of_ne_nil _ (by simp)] at hc
      obtain rfl : '/' = c := by simpa using hc
      rfl
  rw [body, htrim, comment, List.append_assoc]
  rw [show ['/', '*', '*'] = '/' :: ['*', '*'] from rfl, dropStarts_append, dropEnds,
    List.reverse_append]
  · rw [show ['*', '/'].reverse = '/' :: ['*'] from rfl, dropStarts_append, List.reverse_reverse]
    -- in front of the closing delimiter stands a blank
    intro d hd
    rw [← List.getLast?_eq_head?_reverse, getLast?_append_of_ne_nil _ (by simp)] at hd
    rcases List.mem_cons.1 (List.mem_of_getLast? hd) with rfl | hmem
    · decide
    · rintro rfl
      exact absurd (hmargin _ hmem) (by decide)
  · intro d hd
    obtain rfl : '\n' = d := by cases lines <;> simpa using hd
    decide

theorem splitOn_lines (hmargin : '\n' ∉ margin) (hlines : ∀ line ∈ lines, '\n' ∉ line)
    {first : List Char} (hfirst : '\n' ∉ first) :
    splitOn '\n' (first ++ (lines.flatMap ('\n' :: starred margin ·) ++ '\n' :: margin)) =
      first :: (lines.map (starred margin) ++ [margin]) := by
  induction lines generalizing first with
  | nil => simp [splitOn_append hfirst, splitOn_of_notMem hmargin]
  | cons line lines ih =>
    obtain ⟨hline, hlines⟩ := List.forall_mem_cons.1 hlines
    have hstarred : '\n' ∉ starred margin line := by simp [starred, hmargin, hline]
    rw [List.flatMap_cons, List.cons_append, List.cons_append, splitOn_append hfirst,
      List.append_assoc, ih hlines hstarred]
    simp

theorem attributes_comment (hmargin : ∀ c ∈ margin, isBlank c = true ∧ c ≠ '\n')
    (hlines : ∀ line ∈ lines, IsLine line) :
    attributes (comment margin lines) = ofLines lines := by
  have hblank : ∀ c ∈ margin, isBlank c = true := fun c hc => (hmargin c hc).1
  have hsplit := splitOn_lines (fun hmem => (hmargin _ hmem).2 rfl)
    (fun line hline => (hlines line hline).single) (List.not_mem_nil (a := '\n'))
  rw [List.nil_append] at hsplit
  have hclean : (lines.map (starred margin)).map cleanLine = lines := by
    rw [List.map_map]
    refine (List.map_congr_left fun line hline => ?_).trans (List.map_id lines)
    exact cleanLine_starred hblank (hlines line hline)
  have hkeep : lines.filter (· != []) = lines := by
    rw [List.filter_eq_self]
    intro line hline
    simpa using (hlines line hline).ne
  rw [attributes, body_comment hblank, hsplit]
  simp only [List.map_cons, List.map_append, hclean, cleanLine_eq_nil hblank, List.map_nil]
  simp [show cleanLine [] = [] from rfl, hkeep]

theorem opensTag_iff {line : List Char} : opensTag line = true ↔ line.head? = some '@' := by
  cases line with
  | nil => simp [opensTag]
  | cons c cs =>
    by_cases h : c = '@'
    · simp [h, opensTag]
    · simp [h, opensTag]

theorem tagBlocks_append (hfront : ∀ line ∈ front, opensTag line = false)
    (rest : List (List Char)) :
    tagBlocks (front ++ rest) = (front ++ (tagBlocks rest).1, (tagBlocks rest).2) := by
  induction front with
  | nil => rfl
  | cons line front ih =>
    obtain ⟨hline, hfront⟩ := List.forall_mem_cons.1 hfront
    simp [tagBlocks, ih hfront, hline]

theorem tagBlocks_flatten
    (h : ∀ block ∈ blocks, (∃ line ∈ block.head?, opensTag line = true) ∧
      ∀ line ∈ block.tail, opensTag line = false) :
    tagBlocks blocks.flatten = ([], blocks) := by
  induction blocks with
  | nil => rfl
  | cons block blocks ih =>
    obtain ⟨⟨⟨line, hhead, hopens⟩, htail⟩, hblocks⟩ := List.forall_mem_cons.1 h
    obtain ⟨rest, rfl⟩ : ∃ rest, block = line :: rest := List.head?_eq_some_iff.1 hhead
    have hrest := tagBlocks_append htail blocks.flatten
    simp [ih hblocks] at hrest
    simp [tagBlocks, hrest, hopens]

theorem firstWord_optional {word : Option (List Char)} (hword : ∀ text ∈ word, IsWord text)
    (hlines : ∀ line ∈ lines, IsLine line) (hbehind : lines ≠ [] → word.isSome) :
    firstWord (joinLines (word.toList ++ lines)) = (word.getD [], joinLines lines) := by
  cases word with
  | some text => exact firstWord_joinLines (hword text rfl) hlines
  | none =>
    obtain rfl : lines = [] := by
      by_contra hne
      cases hbehind hne
    rfl

namespace Attribute.WellFormed

variable {tag : Attribute} {bracketed : Bool}

theorem isWord_nameText (h : tag.WellFormed) {name : String} (hname : name ∈ tag.name) :
    IsWord (nameText bracketed name tag.expected) := by
  have hword := (h.name name hname).1
  cases hexpected : tag.expected with
  | none =>
    cases bracketed with
    | false => exact hword
    | true =>
      exact (IsWord.cons (by decide) hword.solid).append (List.forall_mem_singleton.2 rfl)
  | some expected =>
    have hsolid := (h.expected expected hexpected).2
    refine IsWord.append (IsWord.cons (by decide) ?_) (List.forall_mem_singleton.2 rfl)
    intro c hc
    rcases List.mem_append.1 hc with hc | hc
    · exact hword.solid c hc
    · exact (IsWord.cons (by decide) hsolid).solid c hc

theorem isLine_argumentTexts (h : tag.WellFormed) :
    ∀ text ∈ tag.argumentTexts bracketed, IsLine text := by
  intro text htext
  simp only [argumentTexts, List.mem_append, Option.mem_toList,
    Option.map_eq_some_iff] at htext
  rcases htext with (⟨name, hname, rfl⟩ | ⟨link, hlink, rfl⟩) | ⟨text, htext, rfl⟩
  · exact (h.isWord_nameText hname).isLine
  · exact (h.link link hlink).1.isLine
  · exact (h.documentation text htext).1

theorem isLine_typeTexts (h : tag.WellFormed) : ∀ text ∈ tag.typeTexts, IsLine text := by
  intro text htext
  simp only [typeTexts, Option.mem_toList, Option.map_eq_some_iff] at htext
  obtain ⟨type, htype, rfl⟩ := htext
  have hopen : IsLine ['\x7b'] := IsWord.isLine (by decide)
  have hclose : IsLine ['\x7d'] := IsWord.isLine (by decide)
  exact hopen.append hclose (h.type type htype).2.2

theorem isLine_texts (h : tag.WellFormed) : ∀ text ∈ tag.texts bracketed, IsLine text := by
  refine List.forall_mem_cons.2 ⟨(IsWord.cons (by decide) h.kind.solid).isLine, ?_⟩
  exact List.forall_mem_append.2 ⟨h.isLine_typeTexts, h.isLine_argumentTexts⟩

theorem head?_argumentTexts (h : tag.WellFormed) (htype : tag.type = none) :
    (joinLines (tag.argumentTexts bracketed)).head? ≠ some '\x7b' := by
  cases hname : tag.name with
  | some name =>
    rw [argumentTexts, hname]
    simp only [Option.map_some, Option.toList_some, List.cons_append, List.nil_append]
    rw [head?_joinLines (h.isWord_nameText hname).ne]
    cases hexpected : tag.expected with
    | some expected => simp [nameText]
    | none =>
      cases bracketed with
      | true => simp [nameText]
      | false => exact (h.name name hname).2.1
  | none =>
    cases hlink : tag.link with
    | some link =>
      rw [argumentTexts, hname, hlink]
      simp only [Option.map_some, Option.map_none, Option.toList_some, Option.toList_none,
        List.cons_append, List.nil_append]
      rw [head?_joinLines (h.link link hlink).1.ne]
      exact (h.link link hlink).2
    | none =>
      rw [argumentTexts, hname, hlink]
      cases htext : tag.documentation with
      | none => simp [joinLines]
      | some text => simpa [joinLines] using h.untyped htype hname hlink text htext

theorem typePart_texts (h : tag.WellFormed) :
    typePart (joinLines (tag.typeTexts ++ tag.argumentTexts bracketed)) =
      (tag.type, joinLines (tag.argumentTexts bracketed)) := by
  cases htype : tag.type with
  | none =>
    have hhead : (joinLines (tag.argumentTexts bracketed)).head? ≠ some '\x7b' :=
      h.head?_argumentTexts htype
    rw [typeTexts, htype, Option.map_none, Option.toList_none, List.nil_append]
    cases hargs : joinLines (tag.argumentTexts bracketed) with
    | nil => rfl
    | cons c cs =>
      rw [hargs] at hhead
      rw [typePart]
      rintro inner heq
      simp_all
  | some type =>
    obtain ⟨htrim, hclose, -⟩ := h.type type htype
    have hinner : ∀ c ∈ type.toList, (c != '\x7d') = true := by
      intro c hc
      simpa using ne_of_mem_of_not_mem hc hclose
    rw [typeTexts, htype, Option.map_some, Option.toList_some, List.singleton_append,
      joinLines_cons]
    simp only [List.cons_append, List.append_assoc, List.nil_append, typePart,
      List.dropWhile_append_of_pos hinner, List.takeWhile_append_of_pos hinner]
    simp [htrim, trimStart_flatMap h.isLine_argumentTexts]

theorem bracketed?_append (inner : List Char) :
    bracketed? ('[' :: inner ++ [']']) = some inner := by
  have hlast : (inner ++ [']']).getLast? = [']'].getLast? :=
    getLast?_append_of_ne_nil inner (by simp)
  rw [List.cons_append, bracketed?, hlast, if_pos (by rfl), List.dropLast_concat]

theorem nameAndDefault_nameText (h : tag.WellFormed) {name : String} (hname : name ∈ tag.name) :
    nameAndDefault (nameText bracketed name tag.expected) = (some name, tag.expected) := by
  obtain ⟨hword, -, heq, hopen, -⟩ := h.name name hname
  have hsolid : ∀ c ∈ name.toList, (c != '=') = true := by
    intro c hc
    simpa using ne_of_mem_of_not_mem hc heq
  cases hexpected : tag.expected with
  | some expected =>
    have hbracketed : bracketed? (nameText bracketed name (some expected)) =
        some (name.toList ++ '=' :: expected.toList) := bracketed?_append _
    simp [nameAndDefault, hbracketed, List.takeWhile_append_of_pos hsolid,
      List.dropWhile_append_of_pos hsolid]
  | none =>
    cases bracketed with
    | true =>
      have hbracketed : bracketed? (nameText true name none) = some name.toList :=
        bracketed?_append _
      have htake := List.takeWhile_eq_self_iff.mpr hsolid
      have hdrop := List.dropWhile_eq_nil_iff.mpr hsolid
      simp [nameAndDefault, hbracketed, htake, hdrop]
    | false =>
      have hbracketed : bracketed? name.toList = none := by
        cases hcs : name.toList with
        | nil => rfl
        | cons c cs =>
          rw [bracketed?]
          rintro cs' heq'
          simp_all
      simp [nameAndDefault, nameText, hbracketed, hword.ne]

theorem remainder_documentation (h : tag.WellFormed) :
    remainder (joinLines (tag.documentation.map String.toList).toList) = tag.documentation := by
  cases htext : tag.documentation with
  | none => rfl
  | some text =>
    obtain ⟨hline, hhead⟩ := h.documentation text htext
    have hdash : text.toList.dropWhile (· == '-') = text.toList := by
      cases hcs : text.toList with
      | nil => rfl
      | cons c cs =>
        rw [hcs] at hhead
        rw [List.dropWhile_cons_of_neg]
        simpa using hhead
    simp [remainder, nonempty?, joinLines, hdash, hline.trimmed, hline.ne]

theorem notMem_namedTags {kind : String} (h : kind ∈ linkTags) : kind ∉ namedTags := by
  simp only [linkTags, List.mem_cons, List.not_mem_nil, or_false] at h
  rcases h with rfl | rfl <;> decide

theorem unnamed (h : tag.WellFormed) (hkind : tag.kind ∉ namedTags) :
    tag.name = none ∧ tag.expected = none := by
  have hname : tag.name = none := by
    by_contra hne
    exact hkind (h.named (Option.isSome_iff_ne_none.2 hne))
  refine ⟨hname, Option.eq_none_iff_forall_not_mem.2 fun expected hexpected => ?_⟩
  simpa [hname] using (h.expected expected hexpected).1

theorem unlinked (h : tag.WellFormed) (hkind : tag.kind ∉ linkTags) : tag.link = none := by
  by_contra hne
  exact hkind (h.linked (Option.isSome_iff_ne_none.2 hne))

theorem isLine_documentation (h : tag.WellFormed) :
    ∀ text ∈ (tag.documentation.map String.toList).toList, IsLine text := by
  intro text htext
  have hmem : text ∈ tag.argumentTexts true := by simp [argumentTexts, htext]
  exact h.isLine_argumentTexts text hmem

theorem firstWord_link (h : tag.WellFormed) (hkind : tag.kind ∈ linkTags) :
    firstWord (joinLines (tag.argumentTexts bracketed)) =
      ((tag.link.map String.toList).getD [],
        joinLines (tag.documentation.map String.toList).toList) := by
  rw [argumentTexts, (h.unnamed (notMem_namedTags hkind)).1, Option.map_none, Option.toList_none,
    List.nil_append]
  apply firstWord_optional _ h.isLine_documentation
  · intro hne
    simpa using h.behindLink (by simpa [Option.isSome_iff_ne_none] using hne) hkind
  · intro text htext
    obtain ⟨link, hlink, rfl⟩ := Option.map_eq_some_iff.1 htext
    exact (h.link link hlink).1

theorem firstWord_name (h : tag.WellFormed) (hlinked : tag.kind ∉ linkTags)
    (hkind : tag.kind ∈ namedTags) :
    firstWord (joinLines (tag.argumentTexts bracketed)) =
      ((tag.name.map fun name => nameText bracketed name tag.expected).getD [],
        joinLines (tag.documentation.map String.toList).toList) := by
  rw [argumentTexts, h.unlinked hlinked, Option.map_none, Option.toList_none, List.append_nil]
  apply firstWord_optional _ h.isLine_documentation
  · intro hne
    simpa using h.behindName (by simpa [Option.isSome_iff_ne_none] using hne) hkind
  · intro text htext
    obtain ⟨name, hname, rfl⟩ := Option.map_eq_some_iff.1 htext
    exact h.isWord_nameText hname

theorem ofTag_texts (h : tag.WellFormed) :
    Attribute.ofTag ((joinLines (tag.texts bracketed)).drop 1) = tag := by
  have hword : firstWord ((joinLines (tag.texts bracketed)).drop 1) =
      (tag.kind.toList, joinLines (tag.typeTexts ++ tag.argumentTexts bracketed)) := by
    rw [texts, joinLines_cons, List.cons_append, List.drop_one, List.tail_cons, ← joinLines_cons]
    apply firstWord_joinLines h.kind
    exact List.forall_mem_append.2 ⟨h.isLine_typeTexts, h.isLine_argumentTexts⟩
  have hparts :
      tag = ⟨tag.kind, tag.type, tag.name, tag.link, tag.documentation, tag.expected⟩ := rfl
  rw [Attribute.ofTag, hword]
  simp only [String.ofList_toList, h.typePart_texts, List.contains_eq_mem, decide_eq_true_eq]
  by_cases hlinked : tag.kind ∈ linkTags
  · obtain ⟨hname, hexpected⟩ := h.unnamed (notMem_namedTags hlinked)
    have hlink : nonempty? ((tag.link.map String.toList).getD []) = tag.link := by
      cases hlink : tag.link with
      | none => rfl
      | some link => simp [nonempty?, (h.link link hlink).1.ne]
    rw [if_pos hlinked, h.firstWord_link hlinked]
    rw [hname, hexpected] at hparts
    simp only [hlink, h.remainder_documentation]
    exact hparts.symm
  · have hlink := h.unlinked hlinked
    rw [if_neg hlinked]
    rw [hlink] at hparts
    by_cases hnamed : tag.kind ∈ namedTags
    · have hname : nameAndDefault
          ((tag.name.map fun name => nameText bracketed name tag.expected).getD []) =
            (tag.name, tag.expected) := by
        cases hname : tag.name with
        | none =>
          have hexpected : tag.expected = none := by
            apply Option.eq_none_iff_forall_not_mem.2
            intro expected hexpected
            simpa [hname] using (h.expected expected hexpected).1
          rw [hexpected]
          rfl
        | some name => exact h.nameAndDefault_nameText hname
      rw [if_pos hnamed, h.firstWord_name hlinked hnamed]
      simp only [hname, h.remainder_documentation]
      exact hparts.symm
    · obtain ⟨hname, hexpected⟩ := h.unnamed hnamed
      have hargs : tag.argumentTexts bracketed =
          (tag.documentation.map String.toList).toList := by
        simp [argumentTexts, hname, hlink]
      rw [if_neg hnamed, hargs, h.remainder_documentation]
      rw [hname, hexpected] at hparts
      exact hparts.symm

end Attribute.WellFormed

/-- A description: text that does not open a tag. -/
structure IsDescription (text : String) : Prop where
  line : IsLine text.toList
  plain : text.toList.head? ≠ some '@'

theorem Breaks.head {text : List Char} (h : Breaks text lines) :
    ∀ line ∈ lines.head?, line.head? = text.head? := by
  intro line hline
  obtain ⟨rest, rfl⟩ := List.head?_eq_some_iff.1 hline
  rw [← h.join, head?_joinLines (h.line line (by simp)).ne]

theorem Breaks.ne_nil {text : List Char} (h : Breaks text lines) (htext : text ≠ []) :
    lines ≠ [] := by
  rintro rfl
  exact htext h.join.symm

theorem breaks_singleton {text : List Char} (h : IsLine text) : Breaks text [text] where
  join := by simp [joinLines]
  line := by simpa using h
  continued := by simp

theorem Breaks.opensTag_head {text : List Char} (h : Breaks text lines) :
    ∀ line ∈ lines.head?, (opensTag line = true ↔ text.head? = some '@') := by
  intro line hline
  rw [opensTag_iff, h.head line hline]

theorem opensTag_front {text : String} (h : IsDescription text)
    (hbreaks : Breaks text.toList front) :
    ∀ line ∈ front, opensTag line = false := by
  cases front with
  | nil => simp
  | cons line front =>
    refine List.forall_mem_cons.2 ⟨?_, hbreaks.continued⟩
    rw [← Bool.not_eq_true, hbreaks.opensTag_head line rfl]
    exact h.plain

theorem exists_writesTag {tags : List Attribute} (h : List.Forall₂ WritesTag tags blocks) :
    ∀ block ∈ blocks, ∃ tag, WritesTag tag block := by
  induction h with
  | nil => simp
  | cons hblock _ ih => exact List.forall_mem_cons.2 ⟨⟨_, hblock⟩, ih⟩

theorem blocks_written {tags : List Attribute} (h : List.Forall₂ WritesTag tags blocks)
    (htags : ∀ tag ∈ tags, tag.WellFormed) :
    tagBlocks blocks.flatten = ([], blocks) ∧
      blocks.map (fun block => Attribute.ofTag ((joinLines block).drop 1)) = tags := by
  constructor
  · apply tagBlocks_flatten
    intro block hblock
    obtain ⟨tag, bracketed, hbreaks⟩ := exists_writesTag h block hblock
    have hhead : (joinLines (tag.texts bracketed)).head? = some '@' := by
      rw [Attribute.texts, head?_joinLines (by simp)]
      rfl
    refine ⟨?_, hbreaks.continued⟩
    cases block with
    | nil =>
      rw [← hbreaks.join] at hhead
      cases hhead
    | cons line rest => exact ⟨line, rfl, (hbreaks.opensTag_head line rfl).2 hhead⟩
  · induction h with
    | nil => rfl
    | cons hblock _ ih =>
      obtain ⟨htag, htags⟩ := List.forall_mem_cons.1 htags
      obtain ⟨bracketed, hbreaks⟩ := hblock
      rw [List.map_cons, ih htags, hbreaks.join, htag.ofTag_texts]

theorem ofLines_written {text? : Option String} {tags : List Attribute}
    (hwrites : Writes text? tags front blocks) (htext : ∀ text ∈ text?, IsDescription text)
    (htags : ∀ tag ∈ tags, tag.WellFormed) :
    ofLines (front ++ blocks.flatten) = (text?.map Attribute.description).toList ++ tags := by
  obtain ⟨hblocks, hofTag⟩ := blocks_written hwrites.tags htags
  cases text? with
  | none =>
    rw [hwrites.bare rfl, List.nil_append, ofLines, hblocks]
    simpa using hofTag
  | some text =>
    have hbreaks := hwrites.description text rfl
    have hdescription := htext text rfl
    have hfront : front ≠ [] := hbreaks.ne_nil hdescription.line.ne
    rw [ofLines, tagBlocks_append (opensTag_front hdescription hbreaks), hblocks]
    simp only [List.append_nil, hofTag, if_neg hfront, hbreaks.join, String.ofList_toList]
    rfl

/-- Attributes that are written as a comment come back as they were, however their text is broken
over lines and whichever names stand in brackets; and all well-formed attributes can be written. -/
theorem attributes_written (text? : Option String) (tags : List Attribute)
    (htext : ∀ text ∈ text?, IsDescription text) (htags : ∀ tag ∈ tags, tag.WellFormed) :
    (∃ front blocks, Writes text? tags front blocks) ∧
      ∀ front blocks, Writes text? tags front blocks →
        ∀ margin, (∀ c ∈ margin, isBlank c = true ∧ c ≠ '\n') →
          attributes (comment margin (front ++ blocks.flatten)) =
            (text?.map Attribute.description).toList ++ tags := by
  constructor
  · refine ⟨(text?.map String.toList).toList,
      tags.map fun tag => [joinLines (tag.texts false)], ?_, ?_, ?_⟩
    · rintro text rfl
      exact breaks_singleton (htext text rfl).line
    · rintro rfl
      rfl
    · rw [List.forall₂_map_right_iff, List.forall₂_same]
      intro tag htag
      exact ⟨false, breaks_singleton (isLine_joinLines (by simp [Attribute.texts])
        (htags tag htag).isLine_texts)⟩
  · intro front blocks hwrites margin hmargin
    rw [← ofLines_written hwrites htext htags]
    apply attributes_comment hmargin
    refine List.forall_mem_append.2 ⟨?_, ?_⟩
    · cases text? with
      | none => simp [hwrites.bare rfl]
      | some text => exact (hwrites.description text rfl).line
    · intro line hline
      obtain ⟨block, hblock, hline⟩ := List.mem_flatten.1 hline
      obtain ⟨tag, bracketed, hbreaks⟩ := exists_writesTag hwrites.tags block hblock
      exact hbreaks.line line hline

theorem attributes_written_param :
    attributes (comment [' '] (["Adds two", "numbers.", "@param {integer} [count=3] how",
        "many", "@deprecated"].map String.toList)) =
      [Attribute.description "Adds two numbers.",
        { kind := "param", type := some "integer", name := some "count",
          documentation := some "how many", expected := some "3" }, { kind := "deprecated" }] := by
  have htext : ∀ text ∈ some "Adds two numbers.", IsDescription text := by
    rintro _ ⟨⟩
    exact ⟨by decide, by decide⟩
  have hparam : Attribute.WellFormed
      ⟨"param", some "integer", some "count", none, some "how many", some "3"⟩ := by
    have hexpected : IsWord "3".toList := by decide
    refine ⟨by decide, ?_, by decide, ?_, ?_, by decide, by simp, ?_, by simp, by decide, by decide⟩
    all_goals rintro _ ⟨⟩
    · decide
    · decide
    · exact ⟨rfl, hexpected.solid⟩
    · decide
  have hdeprecated : Attribute.WellFormed { kind := "deprecated" } := by
    refine ⟨by decide, ?_, by decide, ?_, ?_, by decide, ?_, ?_, ?_, by decide, by decide⟩
    all_goals simp
  have htags := List.forall_mem_cons.2 ⟨hparam, List.forall_mem_singleton.2 hdeprecated⟩
  refine (attributes_written _ _ htext htags).2
    (["Adds two", "numbers."].map String.toList)
    [["@param {integer} [count=3] how", "many"].map String.toList, ["@deprecated".toList]]
    ⟨?_, by simp, .cons ⟨true, ?_⟩ (.cons ⟨false, ?_⟩ .nil)⟩ [' ']
    (List.forall_mem_singleton.2 (by decide))
  · rintro _ ⟨⟩
    exact ⟨by decide, by decide, by decide⟩
  · exact ⟨by decide, by decide, by decide⟩
  · exact ⟨by decide, by decide, by decide⟩

end SquirrelAnalyzer.Doc
