import SquirrelAnalyzer.Token.Stream

/-!
Offsets of tokens as sums of the bytes in front of them, without a largest one, and the words that
stand for them.
-/

namespace SquirrelAnalyzer

open Text

def Span.clamp (s : Span) : Span := ⟨toOffset s.start, toOffset s.stop⟩

theorem Span.clamp_of_le {s : Span} (hstart : s.start ≤ maxOffset) (hstop : s.stop ≤ maxOffset) :
    s.clamp = s := by
  rw [clamp, toOffset_of_le hstart, toOffset_of_le hstop]

def RawComment.clamp (c : RawComment) : RawComment := { c with span := c.span.clamp }

def LexError.clamp (e : LexError) : LexError := { e with span := e.span.clamp }

namespace Token

def clamp (t : Token) : Token where
  kind := t.kind
  text := String.ofList (takeBytes (t.span.clamp.stop - t.span.clamp.start) t.text.toList)
  span := t.span.clamp
  newlineBefore := t.newlineBefore

@[simp] theorem kind_clamp (t : Token) : t.clamp.kind = t.kind := rfl

@[simp] theorem span_clamp (t : Token) : t.clamp.span = t.span.clamp := rfl

@[simp] theorem newlineBefore_clamp (t : Token) : t.clamp.newlineBefore = t.newlineBefore := rfl

namespace Item

def clamp (i : Item) : Item where
  comments := i.comments.map RawComment.clamp
  result := match i.result with
    | .ok t => .ok t.clamp
    | .error e => .error e.clamp

end Item

def documentation (before : Nat) : List Trivia → List RawComment
  | [] => []
  | t :: ts =>
    let stop := before + byteLength t.text
    if t.isDocumentation then ⟨t.text, ⟨before, stop⟩⟩ :: documentation stop ts
    else documentation stop ts

def Item.ofPull (before : Nat) (p : Pull) : Item :=
  let start := before + byteLength p.gapText
  let span : Span := ⟨start, start + byteLength p.text⟩
  let result := match p.outcome with
    | .error fault => .error ⟨fault, span⟩
    | .ok kind => .ok ⟨kind, String.ofList p.text, span, p.gapText.contains '\n'⟩
  ⟨documentation before p.trivia, result⟩

def stopOffset (before : Nat) (p : Pull) : Nat := before + byteLength p.gapText + byteLength p.text

def itemsFrom (before : Nat) (cs : List Char) : List Item :=
  let p := Pull.ofText cs
  let item := Item.ofPull before p
  if _h : p.isLast then [item]
  else item :: itemsFrom (stopOffset before p) p.rest
termination_by cs.length
decreasing_by exact Pull.length_rest_lt fun h => _h (Pull.isLast_iff.2 h)

end Token

namespace Lexer

theorem pass_eq {l : Lexer} {cs rest : List Char} (h : l.rest = cs ++ rest) :
    l.pass cs = ⟨rest, l.cursor + byteLength cs, l.newline || cs.contains '\n'⟩ := by
  induction cs generalizing l with
  | nil =>
    obtain ⟨_, cursor, newline⟩ := l
    obtain rfl : _ = rest := h
    simp [pass, byteLength]
  | cons c cs ih =>
    have hbump : l.bump = ⟨cs ++ rest, l.cursor + c.utf8Size, l.newline || c = '\n'⟩ := by
      rw [bump, h]
      rfl
    have hfeed : ('\n' == c) = decide (c = '\n') := by
      rw [Bool.eq_iff_iff, beq_iff_eq, decide_eq_true_iff]
      exact eq_comm
    rw [pass, ih (by rw [hbump]), hbump, List.contains_cons, hfeed, byteLength, Nat.add_assoc,
      Bool.or_assoc]

theorem skip_eq {l : Lexer} {ts : List Trivia} {rest : List Char}
    (h : l.rest = ts.flatMap Trivia.text ++ rest) :
    l.skip ts = (⟨rest, l.cursor + byteLength (ts.flatMap Trivia.text),
      l.newline || (ts.flatMap Trivia.text).contains '\n'⟩,
      (Token.documentation l.cursor ts).map RawComment.clamp) := by
  induction ts generalizing l with
  | nil =>
    obtain ⟨_, cursor, newline⟩ := l
    obtain rfl : _ = rest := h
    simp [skip, byteLength, Token.documentation]
  | cons t ts ih =>
    have hrest : l.rest = t.text ++ (ts.flatMap Trivia.text ++ rest) := by simpa using h
    have hpass := pass_eq hrest
    have htail := ih (l := l.pass t.text) (by rw [hpass])
    rw [hpass] at htail
    rw [skip, hpass, htail, Token.documentation, List.flatMap_cons, byteLength_append,
      ← Nat.add_assoc, List.contains_append, Bool.or_assoc]
    split
    · rfl
    · rfl

theorem next_eq (l : Lexer) : l.next = ((Token.Item.ofPull l.cursor (Pull.ofText l.rest)).clamp,
    ⟨(Pull.ofText l.rest).rest, Token.stopOffset l.cursor (Pull.ofText l.rest),
      (Pull.ofText l.rest).gapText.contains '\n' || (Pull.ofText l.rest).text.contains '\n'⟩) := by
  have hrest : ({ l with newline := false } : Lexer).rest = (Pull.ofText l.rest).gapText ++
      ((Pull.ofText l.rest).text ++ (Pull.ofText l.rest).rest) := (Pull.ofText_append l.rest).symm
  have hskip := skip_eq hrest
  have hbehind : ({ l with newline := false }.skip (Pull.ofText l.rest).trivia).1.rest =
      (Pull.ofText l.rest).text ++ (Pull.ofText l.rest).rest := by rw [hskip]
  have hpass := pass_eq hbehind
  rw [hskip] at hpass
  rw [next, hskip]
  dsimp only
  rw [hpass, Token.Item.ofPull, Token.Item.clamp, Bool.false_or]
  refine Prod.ext ?_ rfl
  cases (Pull.ofText l.rest).outcome with
  | error f => rfl
  | ok kind => simp [Token.clamp, Span.clamp, Pull.gapText]

theorem items_eq (l : Lexer) :
    l.items = (Token.itemsFrom l.cursor l.rest).map Token.Item.clamp := by
  induction hn : l.rest.length using Nat.strongRecOn generalizing l with
  | ind n ih =>
    rw [items, Token.itemsFrom]
    split
    · next h =>
      rw [isEnd_next] at h
      rw [dif_pos h, next_eq]
      rfl
    · next h =>
      rw [isEnd_next] at h
      have hlt := Pull.length_rest_lt fun he => h (Pull.isLast_iff.mpr he)
      rw [dif_neg h, ih _ (hn ▸ by rwa [rest_next]) l.next.2 rfl, next_eq]
      rfl

end Lexer

namespace Token

theorem gather_clamp (items : List Item) : gather (items.map Item.clamp) =
    match gather items with
    | .ok (tokens, comments) => .ok (tokens.map clamp, comments.map RawComment.clamp)
    | .error e => .error e.clamp := by
  induction items with
  | nil => rfl
  | cons item items ih =>
    rw [List.map_cons, gather, gather, ih]
    cases hresult : item.result with
    | error e => simp [Item.clamp, hresult]
    | ok t =>
      cases gather items with
      | error e => simp [Item.clamp, hresult]
      | ok x => simp [Item.clamp, hresult]

theorem items_eq_map (text : List Char) : items text = (itemsFrom 0 text).map Item.clamp :=
  (Lexer.ofText text).items_eq

theorem exists_gather {text : List Char} {tokens : List Token} {comments : List RawComment}
    (h : tokenize text = .ok (tokens, comments)) : ∃ ts cs, gather (itemsFrom 0 text) = .ok (ts, cs) ∧
      tokens = ts.map clamp ∧ comments = cs.map RawComment.clamp := by
  rw [tokenize, items_eq_map, gather_clamp] at h
  split at h
  · next ts cs hgather =>
    cases h
    exact ⟨ts, cs, hgather, rfl, rfl⟩
  · cases h

theorem tokenize_of_gather {text : List Char} {ts : List Token} {cs : List RawComment}
    (h : gather (itemsFrom 0 text) = .ok (ts, cs)) :
    tokenize text = .ok (ts.map clamp, cs.map RawComment.clamp) := by
  rw [tokenize, items_eq_map, gather_clamp, h]

theorem stop_le_of_mem_documentation {before : Nat} {ts : List Trivia} {c : RawComment}
    (h : c ∈ documentation before ts) : c.span.start ≤ c.span.stop ∧
      c.span.stop ≤ before + byteLength (ts.flatMap Trivia.text) := by
  induction ts generalizing before with
  | nil => cases h
  | cons t ts ih =>
    rw [List.flatMap_cons, byteLength_append, ← Nat.add_assoc]
    rw [documentation] at h
    split at h
    · rcases List.mem_cons.mp h with rfl | h
      · exact ⟨Nat.le_add_right _ _, Nat.le_add_right _ _⟩
      · exact ih h
    · exact ih h

theorem clamp_ofPull {before : Nat} {p : Pull} (h : stopOffset before p ≤ maxOffset) :
    (Item.ofPull before p).clamp = Item.ofPull before p := by
  rw [stopOffset] at h
  have hcomments : ((documentation before p.trivia).map RawComment.clamp) =
      documentation before p.trivia := by
    refine (List.map_congr_left fun c hc => ?_).trans (List.map_id _)
    obtain ⟨hproper, hstop⟩ := stop_le_of_mem_documentation hc
    have hstop : c.span.stop ≤ before + byteLength p.gapText := hstop
    exact congrArg (RawComment.mk c.text) (Span.clamp_of_le (by omega) (by omega))
  have hspan : (⟨before + byteLength p.gapText,
      before + byteLength p.gapText + byteLength p.text⟩ : Span).clamp = _ :=
    Span.clamp_of_le (by dsimp only; omega) h
  rw [Item.clamp, Item.ofPull, hcomments]
  cases p.outcome with
  | error f => simp only [LexError.clamp, hspan]
  | ok kind =>
    have htext : takeBytes (byteLength p.text) p.text = p.text := takeBytes_of_le (Nat.le_refl _)
    simp only [clamp, hspan, String.toList_ofList, Nat.add_sub_cancel_left, htext]

theorem map_clamp_itemsFrom {before : Nat} {cs : List Char}
    (h : before + byteLength cs ≤ maxOffset) :
    (itemsFrom before cs).map Item.clamp = itemsFrom before cs := by
  induction hn : cs.length using Nat.strongRecOn generalizing before cs with
  | ind n ih =>
    have hlength := congrArg byteLength (Pull.ofText_append cs)
    simp only [byteLength_append] at hlength
    have hpull : (Item.ofPull before (Pull.ofText cs)).clamp = Item.ofPull before (Pull.ofText cs) :=
      clamp_ofPull (by rw [stopOffset]; omega)
    rw [itemsFrom]
    split
    · rw [List.map_singleton, hpull]
    · next hlast =>
      have hlt := Pull.length_rest_lt fun he => hlast (Pull.isLast_iff.mpr he)
      rw [List.map_cons, hpull, ih _ (hn ▸ hlt) (by rw [stopOffset]; omega) rfl]

theorem items_of_le {text : List Char} (h : byteLength text ≤ maxOffset) :
    items text = itemsFrom 0 text := by
  rw [items_eq_map, map_clamp_itemsFrom (by omega)]

theorem tokenize_of_le {text : List Char} (h : byteLength text ≤ maxOffset) :
    tokenize text = gather (itemsFrom 0 text) := by
  rw [tokenize, items_of_le h]

end Token

end SquirrelAnalyzer
