import SquirrelAnalyzer.Proofs.Parser.Cursor
import SquirrelAnalyzer.Parser.Operator

namespace SquirrelAnalyzer

inductive Content
  | name (name : String)
  | literal (value : Literal)
  deriving DecidableEq, Repr

structure Leaf where
  span : Span
  content : Content
  deriving DecidableEq, Repr

def Shape.content? {α : Type} : Shape α → Option Content
  | identifier name => some (.name name)
  | literal value => some (.literal value)
  | _ => none

@[simp] theorem Shape.content?_map {α β : Type} (f : α → β) (s : Shape α) :
    (s.map f).content? = s.content? := by
  cases s <;> rfl

namespace Tree

def leaves : Tree → List Leaf :=
  fold fun span shape => (shape.children .full).flatten ++ (shape.content?.map (Leaf.mk span)).toList

theorem leaves_node (span : Span) (shape : Shape Tree) :
    (node span shape).leaves = (shape.children .full).flatMap leaves ++
      (shape.content?.map (Leaf.mk span)).toList := by
  rw [leaves, fold_node, Shape.content?_map, Shape.children_map, List.flatMap_def]

end Tree

namespace Token

def Kind.isPlain : Kind → Bool
  | .keyword _ | .punct _ => true
  | _ => false

def Kind.isContent : Kind → Bool
  | .identifier _ | .integer _ | .float _ | .string _ => true
  | _ => false

inductive Kind.Bears : Kind → Content → Prop
  | identifier (name : String) : Bears (.identifier name) (.name name)
  | keyword (k : Keyword) : Bears (.keyword k) (.name k.text)
  | literal {kind : Kind} {value : Literal} (h : Literal.ofToken? kind = some value) :
      Bears kind (.literal value)

def range (k : Token) : Span := ⟨k.span.start, max k.span.stop k.span.start⟩

inductive Carries : List Token → List Leaf → Prop
  | nil : Carries [] []
  | skip {k : Token} {ks : List Token} {ls : List Leaf} (hk : k.kind.isContent = false)
      (h : Carries ks ls) : Carries (k :: ks) ls
  | take {k : Token} {ks : List Token} {ls : List Leaf} {content : Content}
      (hk : k.kind.Bears content) (h : Carries ks ls) :
      Carries (k :: ks) (⟨k.range, content⟩ :: ls)

def Ended (tokens : List Token) : Prop := ∃ e, tokens.getLast? = some e ∧ e.kind = .endOfFile

theorem Kind.isContent_of_isPlain {k : Kind} (h : k.isPlain = true) : k.isContent = false := by
  cases k <;> first | rfl | cases h

theorem Kind.ne_endOfFile_of_isPlain {k : Kind} (h : k.isPlain = true) : k ≠ .endOfFile := by
  rintro rfl
  cases h

theorem Kind.Bears.ne_endOfFile {k : Kind} {content : Content} (h : k.Bears content) :
    k ≠ .endOfFile := by
  rintro rfl
  cases h with
  | literal h => cases h

theorem Carries.append {ks ks' : List Token} {ls ls' : List Leaf} (h : Carries ks ls)
    (h' : Carries ks' ls') : Carries (ks ++ ks') (ls ++ ls') := by
  induction h with
  | nil => exact h'
  | skip hk _ ih => exact .skip hk ih
  | take hk _ ih => exact .take hk ih

theorem Ended.exists_later {k : Token} {ks : List Token} (h : Ended (k :: ks))
    (hk : k.kind ≠ .endOfFile) : ∃ k' ks', ks = k' :: ks' ∧ Ended ks := by
  obtain ⟨e, he, hkind⟩ := h
  cases ks with
  | nil =>
    obtain rfl : k = e := by simpa using he
    exact absurd hkind hk
  | cons k' ks' => exact ⟨k', ks', rfl, e, by rwa [List.getLast?_cons_cons] at he, hkind⟩

end Token

theorem BinaryOperator.isPlain_of_ofToken? {k : Token.Kind} {op : BinaryOperator}
    (h : ofToken? k = some op) : k.isPlain = true := by
  unfold ofToken? at h
  split at h <;> first | rfl | cases h

theorem UnaryOperator.isPlain_of_leading? {k : Token.Kind} {op : UnaryOperator}
    (h : leading? k = some op) : k.isPlain = true := by
  unfold leading? at h
  split at h <;> first | rfl | cases h

theorem UnaryOperator.isPlain_of_trailing? {k : Token.Kind} {op : UnaryOperator}
    (h : trailing? k = some op) : k.isPlain = true := by
  unfold trailing? at h
  split at h <;> first | rfl | cases h

theorem AssignmentOperator.isPlain_of_ofToken? {k : Token.Kind} {op : AssignmentOperator}
    (h : ofToken? k = some op) : k.isPlain = true := by
  unfold ofToken? at h
  split at h <;> first | rfl | cases h

namespace Cursor

structure Tallied (s : List Token) (ts : List Tree) (c : Cursor) : Prop where
  ended : Token.Ended (c.next :: c.later)
  taken : ∃ ks, s = ks ++ c.next :: c.later ∧ Token.Carries ks (ts.reverse.flatMap Tree.leaves)

structure Moved (s : List Token) (ts : List Tree) (c : Cursor) : Prop extends c.Tallied s ts where
  moved : c.later.length + 1 < s.length

variable {s : List Token} {ts us : List Tree} {c c' : Cursor}

theorem Tallied.begins (h : c.Tallied s ts) : c.Tallied (c.next :: c.later) [] :=
  ⟨h.ended, [], rfl, .nil⟩

theorem Tallied.length_le (h : c.Tallied s ts) : (c.next :: c.later).length ≤ s.length := by
  obtain ⟨ks, rfl, -⟩ := h.taken
  rw [List.length_append]
  exact Nat.le_add_left _ _

theorem Tallied.add (h : c.Tallied s ts) (h' : c'.Moved (c.next :: c.later) us) :
    c'.Moved s (us ++ ts) := by
  have hle := h.length_le
  obtain ⟨ks, rfl, hks⟩ := h.taken
  obtain ⟨ks', hks', hcarries⟩ := h'.taken
  refine ⟨⟨h'.ended, ks ++ ks', ?_, ?_⟩, Nat.lt_of_lt_of_le h'.moved hle⟩
  · rw [hks', List.append_assoc]
  · rw [List.reverse_append, List.flatMap_append]
    exact hks.append hcarries

theorem Tallied.advance (us : List Tree) {ls : List Leaf} (h : c.Tallied s ts)
    (hk : c.next.kind ≠ .endOfFile) (hls : Token.Carries [c.next] ls)
    (hus : us.reverse.flatMap Tree.leaves = ls) : c.advance.Moved s (us ++ ts) := by
  obtain ⟨next, later, lastEnd⟩ := c
  obtain ⟨k, ks, rfl, hended⟩ := h.ended.exists_later hk
  have hle := h.length_le
  obtain ⟨taken, rfl, htaken⟩ := h.taken
  refine ⟨⟨hended, taken ++ [next], by simp [Cursor.advance], ?_⟩, Nat.lt_of_lt_of_le ?_ hle⟩
  · rw [List.reverse_append, List.flatMap_append, hus]
    exact htaken.append hls
  · exact Nat.lt_succ_self _

theorem Tallied.advance_plain (h : c.Tallied s ts) (hk : c.next.kind.isPlain = true) :
    c.advance.Moved s ts :=
  h.advance [] (Token.Kind.ne_endOfFile_of_isPlain hk)
    (.skip (Token.Kind.isContent_of_isPlain hk) .nil) rfl

theorem Tallied.advance_leaf {content : Content} {shape : Shape Tree} (h : c.Tallied s ts)
    (hk : c.next.kind.Bears content) (hshape : shape.content? = some content) :
    c.advance.Moved s
      (.node ⟨c.next.span.start, max c.advance.lastEnd c.next.span.start⟩ shape :: ts) := by
  have hlast : c.advance.lastEnd = c.next.span.stop := by
    obtain ⟨k, ks, hlater, -⟩ := h.ended.exists_later hk.ne_endOfFile
    rw [Cursor.advance, hlater]
  have hchildren : shape.children .full = [] := by
    cases shape <;> first | rfl | cases hshape
  refine h.advance [_] hk.ne_endOfFile (.take hk .nil) ?_
  rw [hlast, List.reverse_singleton, List.flatMap_singleton, Tree.leaves_node, hshape, hchildren]
  rfl

theorem Moved.node (us : List Tree) {span : Span} {shape : Shape Tree} (h : c.Moved s (us ++ ts))
    (hshape : shape.children .full = us.reverse) (hcontent : shape.content? = none) :
    c.Moved s (.node span shape :: ts) := by
  obtain ⟨ks, hs, hks⟩ := h.taken
  refine ⟨⟨h.ended, ks, hs, ?_⟩, h.moved⟩
  have hnode : (Tree.node span shape).leaves = us.reverse.flatMap Tree.leaves := by
    rw [Tree.leaves_node, hcontent, hshape]
    exact List.append_nil _
  rw [List.reverse_append, List.flatMap_append] at hks
  rwa [List.reverse_cons, List.flatMap_append, List.flatMap_singleton, hnode]

theorem Tallied.skipWhile {accept : Token.Kind → Bool}
    (hacc : ∀ k, accept k = true → k.isPlain = true) (h : c.Tallied s ts) :
    (Cursor.skipWhile accept c.next c.lastEnd c.later).Tallied s ts ∧
      (Cursor.skipWhile accept c.next c.lastEnd c.later).later.length ≤ c.later.length := by
  obtain ⟨next, later, lastEnd⟩ := c
  induction later generalizing next lastEnd with
  | nil => exact ⟨h, Nat.le_refl _⟩
  | cons t later ih =>
    simp only [Cursor.skipWhile]
    split
    · next hn =>
      obtain ⟨htallied, hle⟩ := ih t next.span.stop (h.advance_plain (hacc _ hn)).toTallied
      exact ⟨htallied, Nat.le_succ_of_le hle⟩
    · exact ⟨h, Nat.le_refl _⟩

end Cursor

namespace Parser

open Cursor

variable {α β : Type}

structure Agree (P : Cursor → Prop) (m m' : Parser α) (Q : α → Cursor → Prop) : Prop where
  same : ∀ c, P c → m.run c = m'.run c
  ensures : Ensures P m Q

namespace Agree

variable {P P' : Cursor → Prop} {Q Q' : α → Cursor → Prop} {R : β → Cursor → Prop}
  {m m' : Parser α}

theorem refl (h : Ensures P m Q) : Agree P m m Q := ⟨fun _ _ => rfl, h⟩

theorem pure {a : α} (h : ∀ c, P c → Q a c) : Agree P (Pure.pure a) (Pure.pure a) Q :=
  refl (Ensures.pure h)

theorem bind {k k' : α → Parser β} (hm : Agree P m m' Q) (hk : ∀ a, Agree (Q a) (k a) (k' a) R) :
    Agree P (m >>= k) (m' >>= k') R := by
  refine ⟨fun c hc => ?_, hm.ensures.bind fun a => (hk a).ensures⟩
  rw [StateT.run_bind, StateT.run_bind, ← hm.same c hc]
  cases hr : m.run c with
  | error f => rfl
  | ok x => exact (hk x.1).same x.2 (hm.ensures c x.1 x.2 hc hr)

theorem mono (h : Agree P m m' Q) (hP : ∀ c, P' c → P c) (hQ : ∀ a c, Q a c → Q' a c) :
    Agree P' m m' Q' :=
  ⟨fun c hc => h.same c (hP c hc), h.ensures.mono hP hQ⟩

theorem of_imp (h : Agree P m m' Q) (hP : ∀ c, P' c → P c) : Agree P' m m' Q :=
  h.mono hP fun _ _ h => h

theorem symm (h : Agree P m m' Q) : Agree P m' m Q :=
  ⟨fun c hc => (h.same c hc).symm, fun c a c' hc hr => h.ensures c a c' hc (h.same c hc ▸ hr)⟩

theorem trans {m'' : Parser α} (h : Agree P m m' Q) (h' : Agree P m' m'' Q) : Agree P m m'' Q :=
  ⟨fun c hc => (h.same c hc).trans (h'.same c hc), h.ensures⟩

theorem map {f : α → β} (h : Agree P m m' fun a => R (f a)) : Agree P (f <$> m) (f <$> m') R := by
  rw [← bind_pure_comp, ← bind_pure_comp]
  exact h.bind fun a => pure fun _ h => h

theorem fail {expected : Expected} : Agree P (Parser.fail expected : Parser α)
    (Parser.fail expected) Q := refl Ensures.fail

theorem start {t : Tree} {k k' : Nat → Parser β} (h : Agree P (k t.start) (k' t.start) R) :
    Agree P (Sink.start t >>= k) (Sink.start t >>= k') R := h

theorem peek : Agree P Parser.peek Parser.peek fun t c => c.next = t ∧ P c := refl Ensures.peek

theorem at? {k : Token.Kind} : Agree P (Parser.at? k) (Parser.at? k) fun b c =>
    (b = true ↔ c.next.kind = k) ∧ P c := refl Ensures.at?

section

variable {I : α → Cursor → Prop} {step step' : α → Parser (Option α)}

theorem iterateUpTo (h : ∀ a, Agree (I a) (step a) (step' a) fun o c => I (o.getD a) c) (n : Nat)
    (a : α) : Agree (I a) (iterateUpTo step n a) (iterateUpTo step' n a) I := by
  induction n generalizing a with
  | zero => exact pure fun _ hc => hc
  | succ n ih =>
    refine bind (h a) fun o => ?_
    cases o with
    | none => exact pure fun _ hc => hc
    | some b => exact ih b

theorem iterate (h : ∀ a, Agree (I a) (step a) (step' a) fun o c => I (o.getD a) c) (a : α) :
    Agree (I a) (iterate step a) (iterate step' a) I :=
  ⟨fun c hc => (iterateUpTo h (c.later.length + 1) a).same c hc,
    fun c b c' hc hr => (iterateUpTo h (c.later.length + 1) a).ensures c b c' hc hr⟩

end

end Agree

variable {n : Nat} {s : List Token} {ts : List Tree} {m m' : Parser Tree}

def Tallies (n : Nat) (m m' : Parser Tree) : Prop :=
  ∀ s, s.length ≤ n → Agree (Tallied s []) m m' fun t => Moved s [t]

theorem Tallies.pred (h : Tallies (n + 1) m m') : Tallies n m m' :=
  fun s hs => h s (Nat.le_succ_of_le hs)

theorem Tallies.zero : Tallies 0 m m' := fun s hs => by
  have hempty (c : Cursor) (hc : c.Tallied s []) : False := by
    have := hc.length_le
    rw [List.length_cons] at this
    omega
  exact ⟨fun c hc => absurd hc (hempty c), fun c _ _ hc => absurd hc (hempty c)⟩

theorem Tallies.symm (h : Tallies n m m') : Tallies n m' m := fun s hs => (h s hs).symm

theorem Tallies.trans {m'' : Parser Tree} (h : Tallies n m m') (h' : Tallies n m' m'') :
    Tallies n m m'' := fun s hs => (h s hs).trans (h' s hs)

theorem Tallies.first (h : Tallies n m m') (hs : s.length ≤ n) :
    Agree (Tallied s ts) m m' fun t => Moved s (t :: ts) :=
  ⟨fun c hc => (h _ (Nat.le_trans hc.length_le hs)).same c hc.begins,
    fun c t c' hc hr => hc.add ((h _ (Nat.le_trans hc.length_le hs)).ensures c t c' hc.begins hr)⟩

theorem Tallies.next (h : Tallies n m m') (hs : s.length ≤ n + 1) :
    Agree (Moved s ts) m m' fun t => Moved s (t :: ts) := by
  have hlength {c : Cursor} (hc : c.Moved s ts) : (c.next :: c.later).length ≤ n :=
    Nat.le_of_lt_succ (Nat.lt_of_lt_of_le hc.moved hs)
  exact ⟨fun c hc => (h _ (hlength hc)).same c hc.begins,
    fun c t c' hc hr => hc.add ((h _ (hlength hc)).ensures c t c' hc.begins hr)⟩

theorem Tallies.some_moved (h : Tallies n m m') (hs : s.length ≤ n + 1) :
    Agree (Moved s ts) (some <$> m) (some <$> m') fun o => Moved s (o.toList ++ ts) :=
  Agree.map (h.next hs)

theorem Tallies.peek {k k' : Token → Parser Tree}
    (h : ∀ t s, s.length ≤ n → Agree (fun c => c.next = t ∧ c.Tallied s []) (k t) (k' t) fun x =>
      Moved s [x]) : Tallies n (Parser.peek >>= k) (Parser.peek >>= k') :=
  fun s hs => Agree.peek.bind fun t => h t s hs

theorem Tallies.of_moved {t : Token} (h : Tallies n m m') (hs : s.length ≤ n) :
    Agree (fun c => c.next = t ∧ c.Tallied s []) m m' fun x => Moved s [x] :=
  (h s hs).of_imp fun _ hc => hc.2

theorem Agree.of_kind {P : Cursor → Prop} {Q : α → Cursor → Prop} {k : Token.Kind}
    {m m' : Parser α} (h : ∀ t, t.kind = k → Agree (fun c => c.next = t ∧ P c) m m' Q) :
    Agree (fun c => c.next.kind = k ∧ P c) m m' Q :=
  ⟨fun c hc => (h c.next hc.1).same c ⟨rfl, hc.2⟩,
    fun c a c' hc hr => (h c.next hc.1).ensures c a c' ⟨rfl, hc.2⟩ hr⟩

theorem advance_kind {k : Token.Kind} (hk : k.isPlain = true) :
    Ensures (fun c => c.next.kind = k ∧ c.Tallied s ts) advance fun _ => Moved s ts := by
  rintro c _ _ ⟨rfl, hc⟩ ⟨⟩
  exact hc.advance_plain hk

theorem advance_plain {t : Token} (hk : t.kind.isPlain = true) :
    Ensures (fun c => c.next = t ∧ c.Tallied s ts) advance fun _ => Moved s ts :=
  (advance_kind hk).of_imp fun _ hc => ⟨congrArg Token.kind hc.1, hc.2⟩

theorem advance_moved {t : Token} (hk : t.kind.isPlain = true) :
    Ensures (fun c => c.next = t ∧ c.Moved s ts) advance fun _ => Moved s ts :=
  (advance_plain hk).of_imp fun _ hc => ⟨hc.1, hc.2.toTallied⟩

theorem eat_tallied {k : Token.Kind} (hk : k.isPlain = true) :
    Ensures (Tallied s ts) (eat k) fun b c => c.Tallied s ts ∧ (b = true → c.Moved s ts) :=
  eat_cases ((advance_kind hk).mono (fun _ hc => hc) fun _ _ hc => ⟨hc.toTallied, fun _ => hc⟩)
    fun _ _ hc => ⟨hc, nofun⟩

theorem eat_moved {k : Token.Kind} (hk : k.isPlain = true) :
    Ensures (Moved s ts) (eat k) fun _ => Moved s ts :=
  eat_cases ((advance_kind hk).of_imp fun _ hc => ⟨hc.1, hc.2.toTallied⟩) fun _ _ hc => hc

theorem eatPunct_moved {p : Punct} : Ensures (Moved s ts) (eatPunct p) fun _ => Moved s ts :=
  eat_moved rfl

theorem eatKeyword_moved {k : Keyword} : Ensures (Moved s ts) (eatKeyword k) fun _ => Moved s ts :=
  eat_moved rfl

theorem expectPunct_tallied {p : Punct} :
    Ensures (Tallied s ts) (expectPunct p) fun _ => Moved s ts := by
  refine Ensures.bind Ensures.at? fun b => ?_
  cases b with
  | false => exact Ensures.fail
  | true => exact (advance_kind (k := .punct p) rfl).of_imp fun c hc => ⟨hc.1.mp rfl, hc.2⟩

theorem expectKeyword_tallied {k : Keyword} :
    Ensures (Tallied s ts) (expectKeyword k) fun _ => Moved s ts := by
  refine Ensures.bind Ensures.at? fun b => ?_
  cases b with
  | false => exact Ensures.fail
  | true => exact (advance_kind (k := .keyword k) rfl).of_imp fun c hc => ⟨hc.1.mp rfl, hc.2⟩

theorem expectPunct_moved {p : Punct} : Ensures (Moved s ts) (expectPunct p) fun _ => Moved s ts :=
  expectPunct_tallied.of_imp fun _ hc => hc.toTallied

theorem expectKeyword_moved {k : Keyword} :
    Ensures (Moved s ts) (expectKeyword k) fun _ => Moved s ts :=
  expectKeyword_tallied.of_imp fun _ hc => hc.toTallied

theorem isPlain_of_skipped (ps : List Punct) {k : Token.Kind} (h : ps.any (.punct · = k) = true) :
    k.isPlain = true := by
  obtain ⟨p, -, hp⟩ := List.any_eq_true.mp h
  rw [← of_decide_eq_true hp]
  rfl

theorem skip_moved {ps : List Punct} : Ensures (Moved s ts) (skip ps) fun _ => Moved s ts := by
  rintro c _ _ hc ⟨⟩
  obtain ⟨htallied, hle⟩ := hc.skipWhile fun _ => isPlain_of_skipped ps
  exact ⟨htallied, Nat.lt_of_le_of_lt (Nat.succ_le_succ hle) hc.moved⟩

theorem node_moved {start : Nat} {shape : Shape Tree} (hshape : shape.children .full = ts.reverse)
    (hcontent : shape.content? = none) :
    Ensures (Moved s ts) (node start shape) fun t => Moved s [t] := by
  rintro c _ _ hc ⟨⟩
  rw [← List.append_nil ts] at hc
  exact hc.node _ hshape hcontent

theorem leaf_bind {t : Token} {content : Content} {shape : Shape Tree} {start : Token → Nat}
    {k k' : Tree → Parser α} {Q : α → Cursor → Prop} (hk : t.kind.Bears content)
    (hshape : shape.content? = some content) (hstart : start t = t.span.start)
    (h : ∀ x, Agree (Moved s (x :: ts)) (k x) (k' x) Q) :
    Agree (fun c => c.next = t ∧ c.Tallied s ts)
      (do k (← node (start (← advance)) shape)) (do k' (← node (start (← advance)) shape)) Q := by
  refine Agree.bind (Q := fun x c => x = t ∧
    c.Moved s (.node ⟨t.span.start, max c.lastEnd t.span.start⟩ shape :: ts)) (Agree.refl ?_) ?_
  · rintro c _ _ ⟨rfl, hc⟩ ⟨⟩
    exact ⟨rfl, hc.advance_leaf hk hshape⟩
  · intro x
    refine Agree.bind (Q := fun x => Moved s (x :: ts)) (Agree.refl ?_) h
    rintro c _ _ ⟨rfl, hc⟩ ⟨⟩
    rwa [hstart]

theorem leaf_tallied {t : Token} {content : Content} {shape : Shape Tree} (start : Token → Nat)
    (hk : t.kind.Bears content) (hshape : shape.content? = some content)
    (hstart : start t = t.span.start) :
    Agree (fun c => c.next = t ∧ c.Tallied s ts) (do node (start (← advance)) shape)
      (do node (start (← advance)) shape) fun x => Moved s (x :: ts) := by
  have h : Agree (fun c => c.next = t ∧ c.Tallied s ts)
      (do pure (← node (start (← advance)) shape)) (do pure (← node (start (← advance)) shape))
      fun x => Moved s (x :: ts) :=
    leaf_bind (Q := fun x => Moved s (x :: ts)) hk hshape hstart fun x => Agree.pure fun _ hc => hc
  simpa using h

section

variable {I : List Tree → Cursor → Prop} {item item' : Parser (Option Tree)}

theorem Agree.manyUpTo (h : ∀ ts, Agree (I ts) item item' fun o => I (o.toList ++ ts)) (steps : Nat)
    (ts : List Tree) :
    Agree (I ts) (manyUpTo item steps) (manyUpTo item' steps) fun l => I (l.reverse ++ ts) := by
  induction steps generalizing ts with
  | zero => exact Agree.pure fun _ hc => hc
  | succ steps ih =>
    refine (h ts).bind fun o => ?_
    cases o with
    | none => exact Agree.pure fun _ hc => hc
    | some t => exact (ih (t :: ts)).bind fun l => Agree.pure fun _ hc => by simpa using hc

theorem Agree.many (h : ∀ ts, Agree (I ts) item item' fun o => I (o.toList ++ ts)) :
    Agree (I ts) (many item) (many item') fun l => I (l.reverse ++ ts) :=
  ⟨fun c hc => (manyUpTo h (c.later.length + 1) ts).same c hc,
    fun c l c' hc hr => (manyUpTo h (c.later.length + 1) ts).ensures c l c' hc hr⟩

end

section

variable {stop : Parser Bool} (hstop : ∀ ts, Ensures (Moved s ts) stop fun _ => Moved s ts)
  (h : Tallies n m m') (hs : s.length ≤ n + 1)

include hstop h hs

theorem separatedUpTo_moved (steps : Nat) (ts : List Tree) :
    Agree (Moved s ts) (separatedUpTo stop m steps) (separatedUpTo stop m' steps) fun l =>
      Moved s (l.reverse ++ ts) := by
  induction steps generalizing ts with
  | zero => exact Agree.pure fun _ hc => hc
  | succ steps ih =>
    refine (Agree.refl (hstop ts)).bind fun b => ?_
    cases b with
    | true => exact Agree.pure fun _ hc => hc
    | false =>
      refine (h.next hs).bind fun t => (Agree.refl eatPunct_moved).bind fun b => ?_
      cases b with
      | false => exact Agree.pure fun _ hc => hc
      | true => exact (ih (t :: ts)).bind fun l => Agree.pure fun _ hc => by simpa using hc

theorem separated_moved :
    Agree (Moved s ts) (separated stop m) (separated stop m') fun l => Moved s (l.reverse ++ ts) :=
  ⟨fun c hc => (separatedUpTo_moved hstop h hs (c.later.length + 1) ts).same c hc,
    fun c l c' hc hr => (separatedUpTo_moved hstop h hs (c.later.length + 1) ts).ensures c l c' hc hr⟩

end

theorem listUntil_moved {close : Punct} (h : Tallies n m m') (hs : s.length ≤ n + 1) :
    Agree (Moved s ts) (listUntil close m) (listUntil close m') fun l =>
      Moved s (l.reverse ++ ts) := by
  have hstop (ts : List Tree) : Ensures (Moved s ts) (atPunct close) fun _ => Moved s ts :=
    Ensures.at?.mono (fun _ hc => hc) fun _ _ hc => hc.2
  refine (separated_moved hstop h hs).bind fun l => ?_
  exact Agree.refl (Ensures.bind expectPunct_moved fun _ => Ensures.pure fun _ hc => hc)

theorem braced_moved {separators : List Punct} (h : Tallies n m m') (hs : s.length ≤ n + 1) :
    Agree (Moved s ts) (braced separators m) (braced separators m') fun l =>
      Moved s (l.reverse ++ ts) := by
  refine Agree.many fun ts => (Agree.refl skip_moved).bind fun _ => ?_
  refine (Agree.refl eatPunct_moved).bind fun b => ?_
  cases b with
  | true => exact Agree.pure fun _ hc => hc
  | false => exact (h.next hs).bind fun t => Agree.pure fun _ hc => hc

theorem identifier_tallies : Tallies n identifier identifier := by
  refine Tallies.peek fun t s _ => ?_
  split
  · next name hk => exact leaf_tallied (·.span.start) (hk ▸ .identifier name) rfl rfl
  · exact Agree.fail

theorem propertyName_tallies : Tallies n propertyName propertyName := by
  refine Tallies.peek fun t s hs => ?_
  split
  · next k hk => exact leaf_tallied (·.span.start) (hk ▸ .keyword k) rfl rfl
  · exact identifier_tallies.of_moved hs

theorem identifier_moved : Agree (Moved s ts) identifier identifier fun t => Moved s (t :: ts) :=
  identifier_tallies.next (Nat.le_succ _)

theorem propertyName_moved :
    Agree (Moved s ts) propertyName propertyName fun t => Moved s (t :: ts) :=
  propertyName_tallies.next (Nat.le_succ _)

theorem qualifiedName_moved {separator : Punct} :
    Ensures (Moved s ts) (qualifiedName separator) fun x => Moved s (x.2 :: (x.1.toList ++ ts)) := by
  refine Ensures.bind identifier_moved.ensures fun first => ?_
  refine iterate_ensures (I := fun x => Moved s (x.2 :: (x.1.toList ++ ts))) ?_ (none, first)
  rintro ⟨qualifier, id⟩
  have hname (owner : Tree) : Ensures (Moved s (owner :: ts))
      (do return some (some owner, ← identifier) : Parser (Option (Option Tree × Tree))) fun o c =>
        c.Moved s ((o.getD (qualifier, id)).2 :: ((o.getD (qualifier, id)).1.toList ++ ts)) :=
    Ensures.bind identifier_moved.ensures fun id' => Ensures.pure fun _ hc => hc
  refine Ensures.bind eatPunct_moved fun b => ?_
  cases b with
  | false => exact Ensures.pure fun _ hc => hc
  | true =>
    cases qualifier with
    | none => exact Ensures.bind (Ensures.pure fun _ hc => hc) hname
    | some object =>
      refine Ensures.start (Ensures.bind (Q := fun x => Moved s (x :: ts)) ?_ hname)
      rintro c _ _ hc ⟨⟩
      exact hc.node [id, object] rfl rfl

end Parser

end SquirrelAnalyzer
