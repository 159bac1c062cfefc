import SquirrelAnalyzer.Proofs.Tally.Cursor

/-!
Two readings side by side. As long as neither has come to the tokens in which they differ, what one
does the other does too, whatever they cannot see of the tokens in front of these.
-/

namespace SquirrelAnalyzer

structure Overlap where
  offset : Nat → Nat
  offset_max : ∀ m n, offset (max m n) = max (offset m) (offset n)
  text : String → String
  behind : List Token
  behind' : List Token
  both : behind = [] ↔ behind' = []

namespace Overlap

variable {α β X Y : Type} (v : Overlap)

def span (s : Span) : Span := ⟨v.offset s.start, v.offset s.stop⟩

def token (t : Token) : Token := ⟨t.kind, v.text t.text, v.span t.span, t.newlineBefore⟩

def tree : Tree → Tree := Tree.fold fun s shape => .node (v.span s) shape

def fault (f : ParseFault) : ParseFault := ⟨f.expected, v.token f.found⟩

theorem tree_node (s : Span) (shape : Shape Tree) :
    v.tree (.node s shape) = .node (v.span s) (shape.map v.tree) := Tree.fold_node _ s shape

variable {v} {t t' : Token} {x x' : Tree}

theorem kind_eq (h : v.token t = v.token t') : t.kind = t'.kind :=
  show (v.token t).kind = (v.token t').kind by rw [h]

theorem newlineBefore_eq (h : v.token t = v.token t') : t.newlineBefore = t'.newlineBefore :=
  show (v.token t).newlineBefore = (v.token t').newlineBefore by rw [h]

theorem span_eq (h : v.token t = v.token t') : v.span t.span = v.span t'.span :=
  show (v.token t).span = (v.token t').span by rw [h]

theorem offset_eq (h : v.token t = v.token t') : v.offset t.span.start = v.offset t'.span.start :=
  congrArg Span.start (span_eq h)

theorem stop_eq (h : v.token t = v.token t') : v.offset t.span.stop = v.offset t'.span.stop :=
  congrArg Span.stop (span_eq h)

theorem start_eq (h : v.tree x = v.tree x') : v.offset x.start = v.offset x'.start := by
  obtain ⟨s, shape⟩ := x
  obtain ⟨s', shape'⟩ := x'
  rw [tree_node, tree_node] at h
  exact congrArg Span.start (Tree.node.inj h).1

variable (v)

structure Beside (c c' : Cursor) : Prop where
  next : v.token c.next = v.token c'.next
  later : ∃ ks ks', c.later = ks ++ v.behind ∧ c'.later = ks' ++ v.behind' ∧
    ks.map v.token = ks'.map v.token
  lastEnd : v.offset c.lastEnd = v.offset c'.lastEnd
  ended : Token.Ended (c.next :: c.later)

def Past (c : Cursor) : Prop := c.next :: c.later <:+ v.behind

def Beyond : Except ParseFault (α × Cursor) → Prop
  | .ok (_, c) => v.Past c
  | .error e => e.found ∈ v.behind

def Same (f : α → X) : Except ParseFault (α × Cursor) → Except ParseFault (α × Cursor) → Prop
  | .ok (a, c), .ok (a', c') => f a = f a' ∧ v.Beside c c'
  | .error e, .error e' => v.fault e = v.fault e'
  | _, _ => False

def Level (f : α → X) (m m' : Parser α) (c c' : Cursor) : Prop :=
  v.Beyond (m.run c) ∨ v.Same f (m.run c) (m'.run c')

variable {v} {c c' : Cursor}

theorem Same.of_ok {f : α → X} {a : α} {r : Except ParseFault (α × Cursor)}
    (h : v.Same f (.ok (a, c)) r) : ∃ a' c', r = .ok (a', c') ∧ f a = f a' ∧ v.Beside c c' := by
  cases r with
  | error e => exact h.elim
  | ok x => exact ⟨x.1, x.2, rfl, h⟩

theorem Same.of_error {f : α → X} {e : ParseFault} {r : Except ParseFault (α × Cursor)}
    (h : v.Same f (.error e) r) : ∃ e', r = .error e' ∧ v.fault e = v.fault e' := by
  cases r with
  | error e' => exact ⟨e', rfl, h⟩
  | ok x => exact h.elim

theorem Beside.length (h : v.Beside c c') :
    c.later.length + v.behind'.length = c'.later.length + v.behind.length := by
  obtain ⟨ks, ks', hks, hks', hmap⟩ := h.later
  have hlength := congrArg List.length hmap
  simp only [List.length_map] at hlength
  rw [hks, hks', List.length_append, List.length_append]
  omega

theorem Beside.advance (h : v.Beside c c') : v.Past c.advance ∨ v.Beside c.advance c'.advance := by
  obtain ⟨next, later, lastEnd⟩ := c
  obtain ⟨next', later', lastEnd'⟩ := c'
  obtain ⟨hnext, ⟨ks, ks', hlater, hlater', hmap⟩, hlast, hended⟩ := h
  dsimp only at hnext hlater hlater' hlast hended
  subst hlater hlater'
  cases ks with
  | nil =>
    obtain rfl : ks' = [] := List.map_eq_nil_iff.mp hmap.symm
    -- at the end of both lists the cursors stay where they are
    by_cases hbehind : v.behind = []
    · have hbehind' := v.both.mp hbehind
      right
      simp only [Cursor.advance, List.nil_append, hbehind, hbehind']
      exact ⟨hnext, ⟨[], [], hbehind.symm, hbehind'.symm, rfl⟩, hlast, hbehind ▸ hended⟩
    · obtain ⟨b, bs, hb⟩ := List.exists_cons_of_ne_nil hbehind
      left
      simp only [Past, Cursor.advance, List.nil_append, hb]
      exact List.suffix_refl _
  | cons k ks =>
    obtain ⟨k', ks', rfl⟩ : ∃ k' l, ks' = k' :: l := by
      cases ks' with
      | nil => cases hmap
      | cons k' l => exact ⟨k', l, rfl⟩
    obtain ⟨hk, hks⟩ := List.cons.inj hmap
    obtain ⟨e, he, hkind⟩ := hended
    exact .inr ⟨hk, ⟨ks, ks', rfl, rfl, hks⟩, stop_eq hnext, e, he, hkind⟩

theorem advance_suffix (c : Cursor) : c.advance.next :: c.advance.later <:+ c.next :: c.later := by
  obtain ⟨next, later, lastEnd⟩ := c
  cases later with
  | nil => exact List.suffix_refl _
  | cons t later => exact List.suffix_cons _ _

theorem skipWhile_suffix (accept : Token.Kind → Bool) (next : Token) (lastEnd : Nat)
    (later : List Token) :
    (Cursor.skipWhile accept next lastEnd later).next ::
      (Cursor.skipWhile accept next lastEnd later).later <:+ next :: later := by
  induction later generalizing next lastEnd with
  | nil => exact List.suffix_refl _
  | cons t later ih =>
    unfold Cursor.skipWhile
    split
    · exact (ih t next.span.stop).trans (List.suffix_cons _ _)
    · exact List.suffix_refl _

theorem skipWhile_eq (accept : Token.Kind → Bool) (c : Cursor) :
    Cursor.skipWhile accept c.next c.lastEnd c.later =
      if accept c.next.kind = true ∧ c.later ≠ [] then
        Cursor.skipWhile accept c.advance.next c.advance.lastEnd c.advance.later
      else c := by
  obtain ⟨next, later, lastEnd⟩ := c
  cases later with
  | nil => simp [Cursor.skipWhile]
  | cons t later => simp [Cursor.skipWhile, Cursor.advance]

theorem Beside.later_eq_nil (h : v.Beside c c') : c.later = [] ↔ c'.later = [] := by
  obtain ⟨ks, ks', hks, hks', hmap⟩ := h.later
  have hnil : ks = [] ↔ ks' = [] := by
    rw [← List.map_eq_nil_iff (f := v.token), hmap, List.map_eq_nil_iff]
  rw [hks, hks', List.append_eq_nil_iff, List.append_eq_nil_iff, hnil, v.both]

theorem Beside.skipWhile (accept : Token.Kind → Bool) (h : v.Beside c c') :
    v.Past (Cursor.skipWhile accept c.next c.lastEnd c.later) ∨
      v.Beside (Cursor.skipWhile accept c.next c.lastEnd c.later)
        (Cursor.skipWhile accept c'.next c'.lastEnd c'.later) := by
  induction hn : c.later.length using Nat.strongRecOn generalizing c c' with
  | ind n ih =>
    rw [skipWhile_eq accept c, skipWhile_eq accept c']
    by_cases hgo : accept c.next.kind = true ∧ c.later ≠ []
    · have hgo' : accept c'.next.kind = true ∧ c'.later ≠ [] := by
        rwa [← kind_eq h.next, ne_eq, ← h.later_eq_nil]
      rw [if_pos hgo, if_pos hgo']
      have hlt : c.advance.later.length < n := by
        obtain ⟨t, later, hlater⟩ := List.exists_cons_of_ne_nil hgo.2
        rw [← hn, Cursor.advance, hlater]
        exact Nat.lt_succ_self _
      rcases h.advance with hpast | hbeside
      · exact .inl ((skipWhile_suffix accept _ _ _).trans hpast)
      · exact ih _ hlt hbeside rfl
    · have hgo' : ¬(accept c'.next.kind = true ∧ c'.later ≠ []) := by
        rwa [← kind_eq h.next, ne_eq, ← h.later_eq_nil]
      rw [if_neg hgo, if_neg hgo']
      exact .inr h

end Overlap

namespace Parser

open Overlap

variable {α β X Y : Type}

structure Onward (m : Parser α) : Prop where
  left : ∀ c a c', m.run c = .ok (a, c') → c'.next :: c'.later <:+ c.next :: c.later
  found : ∀ c e, m.run c = .error e → e.found ∈ c.next :: c.later

namespace Onward

variable {m : Parser α} {k : α → Parser β}

theorem of_run {r : Cursor → α × Cursor} (hr : ∀ c, m.run c = .ok (r c))
    (h : ∀ c, (r c).2.next :: (r c).2.later <:+ c.next :: c.later) : Onward m := by
  constructor
  · intro c a c' hrun
    rw [hr] at hrun
    have hc := h c
    rwa [Except.ok.inj hrun] at hc
  · intro c e hrun
    rw [hr] at hrun
    cases hrun

theorem pure (a : α) : Onward (Pure.pure a : Parser α) :=
  of_run (fun _ => rfl) fun _ => List.suffix_refl _

theorem bind (hm : Onward m) (hk : ∀ a, Onward (k a)) : Onward (m >>= k) := by
  constructor
  · intro c b c' hr
    rw [StateT.run_bind] at hr
    cases hx : m.run c with
    | error e =>
      rw [hx] at hr
      cases hr
    | ok x =>
      rw [hx] at hr
      exact ((hk x.1).left x.2 b c' hr).trans (hm.left c x.1 x.2 hx)
  · intro c e hr
    rw [StateT.run_bind] at hr
    cases hx : m.run c with
    | error e' =>
      rw [hx] at hr
      cases hr
      exact hm.found c _ hx
    | ok x =>
      rw [hx] at hr
      exact (hm.left c x.1 x.2 hx).subset ((hk x.1).found x.2 e hr)

theorem peek : Onward Parser.peek := of_run (fun _ => rfl) fun _ => List.suffix_refl _

theorem peekSecond : Onward Parser.peekSecond := of_run (fun _ => rfl) fun _ => List.suffix_refl _

theorem advance : Onward Parser.advance := of_run (fun _ => rfl) advance_suffix

theorem skip {ps : List Punct} : Onward (Parser.skip ps) :=
  of_run (fun _ => rfl) fun _ => skipWhile_suffix _ _ _ _

theorem node {start : Nat} {shape : Shape Tree} : Onward (Parser.node start shape) :=
  of_run (fun _ => rfl) fun _ => List.suffix_refl _

theorem fail {expected : Expected} : Onward (Parser.fail expected : Parser α) := by
  constructor
  · rintro c a c' ⟨⟩
  · rintro c e ⟨⟩
    exact List.mem_cons_self

theorem iterateUpTo {step : α → Parser (Option α)} (h : ∀ a, Onward (step a)) (n : Nat) (a : α) :
    Onward (iterateUpTo step n a) := by
  induction n generalizing a with
  | zero => exact pure a
  | succ n ih =>
    refine (h a).bind fun o => ?_
    cases o with
    | none => exact pure a
    | some b => exact ih b

theorem manyUpTo {item : Parser (Option α)} (h : Onward item) (n : Nat) :
    Onward (manyUpTo item n) := by
  induction n with
  | zero => exact pure []
  | succ n ih =>
    refine h.bind fun o => ?_
    cases o with
    | none => exact pure []
    | some a => exact ih.bind fun l => pure (a :: l)

theorem at? {k : Token.Kind} : Onward (Parser.at? k) := peek.bind fun _ => pure _

theorem eat {k : Token.Kind} : Onward (Parser.eat k) := by
  refine at?.bind fun b => ?_
  cases b with
  | true => exact advance.bind fun _ => pure true
  | false => exact pure false

theorem expectPunct {p : Punct} : Onward (Parser.expectPunct p) := by
  refine at?.bind fun b => ?_
  cases b with
  | true => exact advance
  | false => exact fail

theorem expectKeyword {k : Keyword} : Onward (Parser.expectKeyword k) := by
  refine at?.bind fun b => ?_
  cases b with
  | true => exact advance
  | false => exact fail

theorem atTerminator : Onward Parser.atTerminator := peek.bind fun _ => pure _

theorem separatedUpTo {stop : Parser Bool} {item : Parser α} (hstop : Onward stop)
    (h : Onward item) (n : Nat) : Onward (separatedUpTo stop item n) := by
  induction n with
  | zero => exact pure []
  | succ n ih =>
    refine hstop.bind fun b => ?_
    cases b with
    | true => exact pure []
    | false =>
      refine h.bind fun a => eat.bind fun b => ?_
      cases b with
      | true => exact ih.bind fun l => pure (a :: l)
      | false => exact pure [a]

theorem of_left {m : Nat → Parser α} (h : ∀ n, Onward (m n)) :
    Onward (do m ((← get).later.length + 1)) where
  left c := (h (c.later.length + 1)).left c
  found c := (h (c.later.length + 1)).found c

theorem beyond {v : Overlap} {c : Cursor} (h : Onward m) (hc : v.Past c) : v.Beyond (m.run c) := by
  cases hr : m.run c with
  | error e => exact hc.subset (h.found c e hr)
  | ok x => exact (h.left c x.1 x.2 hr).trans hc

end Onward

structure Along (v : Overlap) (f : α → X) (m m' : Parser α) : Prop where
  onward : Onward m
  level : ∀ c c', v.Beside c c' → v.Level f m m' c c'

end Parser

namespace Overlap

variable {α β X Y : Type} {v : Overlap} {f : α → X} {g : β → Y} {m m' : Parser α}
  {k k' : α → Parser β} {c c' : Cursor}

theorem Level.bind (hm : v.Level f m m' c c') (honward : ∀ a, Parser.Onward (k a))
    (hk : ∀ a a' d d', m.run c = .ok (a, d) → f a = f a' → v.Beside d d' →
      v.Level g (k a) (k' a') d d') : v.Level g (m >>= k) (m' >>= k') c c' := by
  unfold Level at hm ⊢
  rw [StateT.run_bind, StateT.run_bind]
  cases hr : m.run c with
  | error e =>
    rw [hr] at hm
    rcases hm with hm | hm
    · exact .inl hm
    · obtain ⟨e', hr', he⟩ := hm.of_error
      rw [hr']
      exact .inr he
  | ok x =>
    rw [hr] at hm
    rcases hm with hm | hm
    · exact .inl ((honward x.1).beyond hm)
    · obtain ⟨a', d', hr', ha, hd⟩ := hm.of_ok
      rw [hr']
      exact hk x.1 a' x.2 d' hr ha hd

end Overlap

theorem Token.Ended.of_suffix {ks : List Token} {k : Token} {l : List Token} (h : Ended ks)
    (hl : k :: l <:+ ks) : Ended (k :: l) := by
  obtain ⟨e, he, hkind⟩ := h
  obtain ⟨taken, rfl⟩ := hl
  refine ⟨e, ?_, hkind⟩
  simpa [List.getLast?_append] using he

def Cursor.Left (n : Nat) (c : Cursor) : Prop :=
  Token.Ended (c.next :: c.later) ∧ c.later.length < n

namespace Parser

open Cursor

variable {α β X Y : Type} {n : Nat}

def Takes (m : Parser α) (given : α → Prop) : Prop :=
  ∀ n, Ensures (Left (n + 1)) m fun a c => given a → c.Left n

theorem Onward.stays {m : Parser α} (h : Onward m) : Ensures (Left n) m fun _ => Left n := by
  rintro c a c' ⟨hended, hlt⟩ hr
  have hsuffix := h.left c a c' hr
  have hle := hsuffix.length_le
  simp only [List.length_cons] at hle
  exact ⟨hended.of_suffix hsuffix, by omega⟩

theorem advance_left {t : Token} (hk : t.kind ≠ .endOfFile) :
    Ensures (fun c => c.next = t ∧ c.Left (n + 1)) advance fun _ => Left n := by
  rintro c _ _ ⟨rfl, hended, hlt⟩ ⟨⟩
  obtain ⟨k, ks, hlater, hended'⟩ := hended.exists_later hk
  rw [hlater] at hended' hlt
  rw [Cursor.advance, hlater]
  exact ⟨hended', Nat.lt_of_succ_lt_succ hlt⟩

theorem eat_left {k : Token.Kind} (hk : k ≠ .endOfFile) :
    Ensures (Left (n + 1)) (eat k) fun b c => c.Left (n + 1) ∧ (b = true → c.Left n) := by
  refine eat_cases ?_ fun c _ hc => ⟨hc, nofun⟩
  rintro c a c' ⟨hkind, hc⟩ hr
  have hleft := advance_left (hkind ▸ hk) c a c' ⟨rfl, hc⟩ hr
  exact ⟨⟨hleft.1, Nat.lt_succ_of_lt hleft.2⟩, fun _ => hleft⟩

theorem Takes.of_tallies {m : Parser Tree} (h : ∀ n, Tallies n m m) : Takes m fun _ => True := by
  rintro n c a c' ⟨hended, hlt⟩ hr -
  have hmoved := (h _ _ (Nat.le_refl _)).ensures c a c' ⟨hended, [], rfl, .nil⟩ hr
  exact ⟨hmoved.ended, Nat.lt_of_lt_of_le (Nat.lt_of_succ_lt_succ hmoved.moved) (Nat.le_of_lt_succ hlt)⟩

theorem Takes.some {m : Parser α} (h : Takes m fun _ => True) :
    Ensures (Left (n + 1)) (do return Option.some (← m)) fun o c => o ≠ none → c.Left n :=
  Ensures.bind (h n) fun _ => Ensures.pure fun _ hc _ => hc trivial

theorem advance_takes {t : Token} {k : Token → Parser (Option α)}
    (hk : t.kind ≠ .endOfFile) (honward : ∀ t, Onward (k t)) :
    Ensures (fun c => c.next = t ∧ c.Left (n + 1)) (advance >>= k) fun o c => o ≠ none → c.Left n :=
  Ensures.bind (advance_left hk) fun t => (honward t).stays.mono (fun _ hc => hc) fun _ _ hc _ => hc

theorem none_takes {P : Cursor → Prop} :
    Ensures P (return (none : Option α)) fun o c => o ≠ none → c.Left n :=
  Ensures.pure fun _ _ ho => absurd rfl ho

namespace Along

variable {v : Overlap} {f : α → X} {g : β → Y} {m m' : Parser α} {k k' : α → Parser β}

theorem of_run {r r' : Cursor → α × Cursor} (honward : Onward m)
    (hr : ∀ c, m.run c = .ok (r c)) (hr' : ∀ c, m'.run c = .ok (r' c))
    (h : ∀ c c', v.Beside c c' → v.Past (r c).2 ∨ f (r c).1 = f (r' c').1 ∧ v.Beside (r c).2 (r' c').2) :
    Along v f m m' := by
  refine ⟨honward, fun c c' hc => ?_⟩
  rw [Overlap.Level, hr, hr']
  exact h c c' hc

theorem pure {a a' : α} (h : f a = f a') : Along v f (Pure.pure a) (Pure.pure a') :=
  of_run (.pure a) (fun _ => rfl) (fun _ => rfl) fun _ _ hc => .inr ⟨h, hc⟩

theorem bind (hm : Along v f m m') (hk : ∀ a a', f a = f a' → Along v g (k a) (k' a')) :
    Along v g (m >>= k) (m' >>= k') := by
  have honward (a : α) : Onward (k a) := (hk a a rfl).onward
  refine ⟨hm.onward.bind honward, fun c c' hc => ?_⟩
  exact (hm.level c c' hc).bind honward fun a a' d d' _ ha hd => (hk a a' ha).level d d' hd

theorem bind_eq (hm : Along v id m m') (hk : ∀ a, Along v g (k a) (k' a)) :
    Along v g (m >>= k) (m' >>= k') := by
  refine hm.bind fun a a' ha => ?_
  obtain rfl : a = a' := ha
  exact hk a

theorem map {h h' : α → β} (hm : Along v f m m') (hh : ∀ a a', f a = f a' → g (h a) = g (h' a')) :
    Along v g (h <$> m) (h' <$> m') := by
  rw [← bind_pure_comp, ← bind_pure_comp]
  exact hm.bind fun a a' ha => pure (hh a a' ha)

theorem fail {expected : Expected} :
    Along v f (Parser.fail expected : Parser α) (Parser.fail expected) :=
  ⟨.fail, fun _ _ hc => .inr (congrArg (ParseFault.mk expected) hc.next)⟩

theorem peek : Along v v.token Parser.peek Parser.peek :=
  of_run .peek (fun _ => rfl) (fun _ => rfl) fun _ _ hc => .inr ⟨hc.next, hc⟩

theorem advance : Along v v.token Parser.advance Parser.advance :=
  of_run .advance (fun _ => rfl) (fun _ => rfl) fun _ _ hc => hc.advance.imp id fun h => ⟨hc.next, h⟩

theorem skip {ps : List Punct} : Along v id (Parser.skip ps) (Parser.skip ps) :=
  of_run .skip (fun _ => rfl) (fun _ => rfl) fun _ _ hc => (hc.skipWhile _).imp id fun h => ⟨rfl, h⟩

theorem start {t t' : Tree} {k k' : Nat → Parser β} (h : Along v g (k t.start) (k' t'.start)) :
    Along v g (Sink.start t >>= k) (Sink.start t' >>= k') := h

theorem node {start start' : Nat} {shape shape' : Shape Tree}
    (hstart : v.offset start = v.offset start') (hshape : shape.map v.tree = shape'.map v.tree) :
    Along v v.tree (Parser.node start shape) (Parser.node start' shape') := by
  refine of_run .node (fun _ => rfl) (fun _ => rfl) fun c c' hc => .inr ⟨?_, hc⟩
  have hspan : v.span ⟨start, max c.lastEnd start⟩ = v.span ⟨start', max c'.lastEnd start'⟩ := by
    simp only [Overlap.span, v.offset_max, hc.lastEnd, hstart]
  show v.tree (.node ⟨start, max c.lastEnd start⟩ shape) = v.tree (.node _ shape')
  rw [Overlap.tree_node, Overlap.tree_node, hspan, hshape]

theorem at? {k : Token.Kind} : Along v id (Parser.at? k) (Parser.at? k) := by
  refine peek.bind fun t t' ht => pure ?_
  rw [Overlap.kind_eq ht]

theorem atTerminator : Along v id Parser.atTerminator Parser.atTerminator := by
  refine peek.bind fun t t' ht => pure ?_
  rw [Overlap.kind_eq ht, Overlap.newlineBefore_eq ht]

theorem eat {k : Token.Kind} : Along v id (Parser.eat k) (Parser.eat k) := by
  refine at?.bind_eq fun b => ?_
  cases b with
  | true => exact advance.bind fun _ _ _ => pure rfl
  | false => exact pure rfl

theorem eatPunct {p : Punct} : Along v id (Parser.eatPunct p) (Parser.eatPunct p) := eat

theorem eatKeyword {k : Keyword} : Along v id (Parser.eatKeyword k) (Parser.eatKeyword k) := eat

theorem expectPunct {p : Punct} : Along v v.token (Parser.expectPunct p) (Parser.expectPunct p) := by
  refine at?.bind_eq fun b => ?_
  cases b with
  | true => exact advance
  | false => exact fail

theorem expectKeyword {k : Keyword} :
    Along v v.token (Parser.expectKeyword k) (Parser.expectKeyword k) := by
  refine at?.bind_eq fun b => ?_
  cases b with
  | true => exact advance
  | false => exact fail

end Along

theorem cases_of_map_eq {f : α → X} {o o' : Option α} (h : o.map f = o'.map f) :
    o = none ∧ o' = none ∨ ∃ a a', o = some a ∧ o' = some a' ∧ f a = f a' := by
  cases o with
  | none =>
    cases o' with
    | none => exact .inl ⟨rfl, rfl⟩
    | some a' => cases h
  | some a =>
    cases o' with
    | none => cases h
    | some a' => exact .inr ⟨a, a', rfl, rfl, Option.some.inj h⟩

section

variable {v : Overlap} {f : α → X} {c c' : Cursor} {n n' : Nat}

theorem lt_of_takes {m : Parser α} {given : α → Prop} {a : α} {d d' : Cursor} (h : Takes m given)
    (hc : v.Beside c c') (hr : m.run c = .ok (a, d)) (ha : given a) (hd : v.Beside d d') :
    d.later.length < c.later.length ∧ d'.later.length < c'.later.length := by
  have hlt := (h _ c a d ⟨hc.ended, Nat.lt_succ_self _⟩ hr ha).2
  have hlength := hc.length
  have hlength' := hd.length
  omega

theorem le_of_onward {m : Parser α} {a : α} {d : Cursor} (h : Onward m)
    (hr : m.run c = .ok (a, d)) : d.later.length ≤ c.later.length := by
  have hle := (h.left c a d hr).length_le
  simpa using hle

-- The bounds of the two readings differ with the tokens behind, but each step takes a token in both,
-- so neither bound is met.

theorem manyUpTo_level {item item' : Parser (Option α)} (h : Along v (Option.map f) item item')
    (ht : Takes item (· ≠ none)) (hc : v.Beside c c') (hn : c.later.length < n)
    (hn' : c'.later.length < n') :
    v.Level (List.map f) (manyUpTo item n) (manyUpTo item' n') c c' := by
  induction n generalizing n' c c' with
  | zero => omega
  | succ n ih =>
    obtain ⟨n', rfl⟩ := Nat.exists_eq_succ_of_ne_zero (Nat.ne_of_gt (Nat.zero_lt_of_lt hn'))
    refine (h.level c c' hc).bind (fun o => ?_) fun o o' d d' hr ho hd => ?_
    · cases o with
      | none => exact .pure []
      | some a => exact (h.onward.manyUpTo n).bind fun l => .pure (a :: l)
    · rcases cases_of_map_eq ho with ⟨rfl, rfl⟩ | ⟨a, a', rfl, rfl, ha⟩
      · exact .inr ⟨rfl, hd⟩
      · obtain ⟨hlt, hlt'⟩ := lt_of_takes ht hc hr (Option.some_ne_none a) hd
        refine (ih hd (by omega) (by omega)).bind (fun l => .pure (a :: l)) ?_
        intro l l' e e' _ hl he
        exact .inr ⟨by rw [List.map_cons, List.map_cons, ha, hl], he⟩

theorem iterateUpTo_level {step step' : α → Parser (Option α)}
    (h : ∀ a a', f a = f a' → Along v (Option.map f) (step a) (step' a'))
    (ht : ∀ a, Takes (step a) (· ≠ none)) {a a' : α} (ha : f a = f a') (hc : v.Beside c c')
    (hn : c.later.length < n) (hn' : c'.later.length < n') :
    v.Level f (iterateUpTo step n a) (iterateUpTo step' n' a') c c' := by
  have honward (a : α) : Onward (step a) := (h a a rfl).onward
  induction n generalizing n' a a' c c' with
  | zero => omega
  | succ n ih =>
    obtain ⟨n', rfl⟩ := Nat.exists_eq_succ_of_ne_zero (Nat.ne_of_gt (Nat.zero_lt_of_lt hn'))
    refine ((h a a' ha).level c c' hc).bind (fun o => ?_) fun o o' d d' hr ho hd => ?_
    · cases o with
      | none => exact .pure a
      | some b => exact .iterateUpTo honward n b
    · rcases cases_of_map_eq ho with ⟨rfl, rfl⟩ | ⟨b, b', rfl, rfl, hb⟩
      · exact .inr ⟨ha, hd⟩
      · obtain ⟨hlt, hlt'⟩ := lt_of_takes (ht a) hc hr (Option.some_ne_none b) hd
        exact ih hb hd (by omega) (by omega)

theorem separatedUpTo_level {stop stop' : Parser Bool} {item item' : Parser α}
    (hstop : Along v id stop stop') (h : Along v f item item') (ht : Takes item fun _ => True)
    (hc : v.Beside c c') (hn : c.later.length < n) (hn' : c'.later.length < n') :
    v.Level (List.map f) (separatedUpTo stop item n) (separatedUpTo stop' item' n') c c' := by
  induction n generalizing n' c c' with
  | zero => omega
  | succ n ih =>
    obtain ⟨n', rfl⟩ := Nat.exists_eq_succ_of_ne_zero (Nat.ne_of_gt (Nat.zero_lt_of_lt hn'))
    have hrest (a : α) (b : Bool) : Onward
        (if b = true then do return a :: (← separatedUpTo stop item n) else return [a]) := by
      cases b with
      | true => exact (Onward.separatedUpTo hstop.onward h.onward n).bind fun l => .pure (a :: l)
      | false => exact .pure [a]
    refine (hstop.level c c' hc).bind (fun b => ?_) fun b b' d d' hr hb hd => ?_
    · cases b with
      | true => exact .pure []
      | false => exact h.onward.bind fun a => Onward.eat.bind (hrest a)
    · obtain rfl : b = b' := hb
      cases b with
      | true => exact .inr ⟨rfl, hd⟩
      | false =>
        have hle := le_of_onward hstop.onward hr
        refine (h.level d d' hd).bind (fun a => Onward.eat.bind (hrest a)) fun a a' e e' hr ha he => ?_
        obtain ⟨hlt, -⟩ := lt_of_takes ht hd hr trivial he
        refine (Along.eatPunct.level e e' he).bind (hrest a) fun b b' i i' hr hb hi => ?_
        obtain rfl : b = b' := hb
        have hle' := le_of_onward Onward.eat hr
        have hlength := hc.length
        have hlength' := hi.length
        cases b with
        | false => exact .inr ⟨by rw [List.map_singleton, List.map_singleton, ha], hi⟩
        | true =>
          refine (ih hi (by omega) (by omega)).bind (fun l => .pure (a :: l)) ?_
          intro l l' j j' _ hl hj
          exact .inr ⟨by rw [List.map_cons, List.map_cons, ha, hl], hj⟩

end

namespace Along

variable {v : Overlap} {f : α → X}

theorem many {item item' : Parser (Option α)} (h : Along v (Option.map f) item item')
    (ht : Takes item (· ≠ none)) :
    Along v (List.map f) (Parser.many item) (Parser.many item') :=
  ⟨.of_left fun n => h.onward.manyUpTo n, fun _ _ hc =>
    manyUpTo_level h ht hc (Nat.lt_succ_self _) (Nat.lt_succ_self _)⟩

theorem iterate {step step' : α → Parser (Option α)}
    (h : ∀ a a', f a = f a' → Along v (Option.map f) (step a) (step' a'))
    (ht : ∀ a, Takes (step a) (· ≠ none)) {a a' : α} (ha : f a = f a') :
    Along v f (Parser.iterate step a) (Parser.iterate step' a') :=
  ⟨.of_left fun n => .iterateUpTo (fun a => (h a a rfl).onward) n a, fun _ _ hc =>
    iterateUpTo_level h ht ha hc (Nat.lt_succ_self _) (Nat.lt_succ_self _)⟩

theorem separated {stop stop' : Parser Bool} {item item' : Parser α} (hstop : Along v id stop stop')
    (h : Along v f item item') (ht : Takes item fun _ => True) :
    Along v (List.map f) (Parser.separated stop item) (Parser.separated stop' item') :=
  ⟨.of_left fun n => .separatedUpTo hstop.onward h.onward n, fun _ _ hc =>
    separatedUpTo_level hstop h ht hc (Nat.lt_succ_self _) (Nat.lt_succ_self _)⟩

theorem listUntil {close : Punct} {item item' : Parser α} (h : Along v f item item')
    (ht : Takes item fun _ => True) :
    Along v (List.map f) (Parser.listUntil close item) (Parser.listUntil close item') :=
  (separated at? h ht).bind fun _ _ hl => expectPunct.bind fun _ _ _ => pure hl

theorem some {m m' : Parser α} (h : Along v f m m') :
    Along v (Option.map f) (do return Option.some (← m)) (do return Option.some (← m')) :=
  h.bind fun _ _ ha => pure (congrArg Option.some ha)

theorem map_some {m m' : Parser α} (h : Along v f m m') :
    Along v (Option.map f) (Option.some <$> m) (Option.some <$> m') :=
  h.map fun _ _ ha => congrArg Option.some ha

theorem braced {separators : List Punct} {item item' : Parser α} (h : Along v f item item')
    (ht : Takes item fun _ => True) :
    Along v (List.map f) (Parser.braced separators item) (Parser.braced separators item') := by
  refine many (skip.bind_eq fun _ => eatPunct.bind_eq fun b => ?_) fun n => ?_
  · cases b with
    | true => exact pure rfl
    | false => exact h.some
  · refine Onward.skip.stays.bind fun _ => Onward.eat.stays.bind fun b => ?_
    cases b with
    | true => exact none_takes
    | false => exact ht.some

theorem peekSecond_bind {β Y : Type} {g : β → Y} {k k' : Option Token → Parser β}
    (hr : ∀ o, ∃ r, k o = Parser.advance >>= r ∧ ∀ t, Onward (r t))
    (hk : ∀ o o', o.map Token.kind = o'.map Token.kind → Along v g (k o) (k' o')) :
    Along v g (Parser.peekSecond >>= k) (Parser.peekSecond >>= k') := by
  refine ⟨Onward.peekSecond.bind fun o => (hk o o rfl).onward, fun c c' hc => ?_⟩
  show v.Level g (k c.later.head?) (k' c'.later.head?) c c'
  rcases hc.advance with hpast | hbeside
  · obtain ⟨r, hrun, honward⟩ := hr c.later.head?
    left
    rw [hrun]
    exact (honward c.next).beyond hpast
  · refine (hk _ _ ?_).level c c' hc
    obtain ⟨next, later, lastEnd⟩ := c
    obtain ⟨next', later', lastEnd'⟩ := c'
    have hnil := hc.later_eq_nil
    cases later with
    | nil =>
      obtain rfl := hnil.mp rfl
      rfl
    | cons t later =>
      cases later' with
      | nil => cases hnil.mpr rfl
      | cons t' later' => exact congrArg Option.some (Overlap.kind_eq hbeside.next)

theorem identifier : Along v v.tree Parser.identifier Parser.identifier := by
  refine peek.bind fun t t' ht => ?_
  rw [Overlap.kind_eq ht]
  split
  · exact advance.bind fun t t' ht => node (Overlap.offset_eq ht) rfl
  · exact fail

theorem propertyName : Along v v.tree Parser.propertyName Parser.propertyName := by
  refine peek.bind fun t t' ht => ?_
  rw [Overlap.kind_eq ht]
  split
  · exact advance.bind fun t t' ht => node (Overlap.offset_eq ht) rfl
  · exact identifier

def qualified (v : Overlap) : Option Tree × Tree → Option Tree × Tree :=
  Prod.map (Option.map v.tree) v.tree

theorem qualifiedName {separator : Punct} :
    Along v (qualified v) (Parser.qualifiedName separator) (Parser.qualifiedName separator) := by
  have hname (owner owner' : Tree) (howner : v.tree owner = v.tree owner') :
      Along v (Option.map (qualified v))
        (do return Option.some (Option.some owner, ← Parser.identifier))
        (do return Option.some (Option.some owner', ← Parser.identifier)) := by
    refine identifier.bind fun id id' hid => pure ?_
    simp only [Option.map_some, qualified, Prod.map_apply, howner, hid]
  refine identifier.bind fun first first' hfirst => ?_
  refine iterate (fun x x' hx => ?_) (fun x n => ?_) (congrArg (Prod.mk none) hfirst)
  · obtain ⟨qualifier, id⟩ := x
    obtain ⟨qualifier', id'⟩ := x'
    obtain ⟨hqualifier, hid⟩ := Prod.mk.inj hx
    refine eatPunct.bind_eq fun b => ?_
    cases b with
    | false => exact pure rfl
    | true =>
      rcases cases_of_map_eq hqualifier with ⟨rfl, rfl⟩ | ⟨object, object', rfl, rfl, hobject⟩
      · exact (pure hid).bind hname
      · refine (node (Overlap.start_eq hobject) ?_).bind hname
        simp only [Shape.map, hobject, hid]
  · obtain ⟨qualifier, id⟩ := x
    have hname' (owner : Tree) : Onward
        (do return Option.some (Option.some owner, ← Parser.identifier)) :=
      (hname owner owner rfl).onward
    have hne : Token.Kind.punct separator ≠ .endOfFile := Token.Kind.noConfusion
    refine Ensures.bind (eat_left hne) fun b => ?_
    cases b with
    | false => exact none_takes
    | true =>
      refine Ensures.mono (P := Left n) (Q := fun _ => Left n) ?_ (fun _ hc => hc.2 rfl) fun _ _ hc _ => hc
      cases qualifier with
      | none => exact ((Onward.pure id).bind hname').stays
      | some object => exact (Onward.node.bind hname').stays

end Along

end Parser

end SquirrelAnalyzer
