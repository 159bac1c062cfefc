import Mathlib.Tactic.Common
import SquirrelAnalyzer.Proofs.Readable
import SquirrelAnalyzer.Proofs.Store
import SquirrelAnalyzer.Proofs.Tree

namespace SquirrelAnalyzer

structure Token.Sits (offset : Nat) (t : Token) : Prop where
  behind : offset ≤ t.span.start
  proper : t.span.start ≤ t.span.stop
  readable : t.kind.Readable

def Token.Chain : Nat → List Token → Prop
  | _, [] => True
  | offset, t :: ts => t.Sits offset ∧ (t.kind = .endOfFile ↔ ts = []) ∧ Chain t.span.stop ts

namespace Token.Chain

variable {offset : Nat} {k : Token} {ks taken : List Token}

theorem behind (h : Chain offset (taken ++ ks)) : ∃ lo, Chain lo ks := by
  induction taken generalizing offset with
  | nil => exact ⟨offset, h⟩
  | cons t taken ih => exact ih h.2.2

end Token.Chain

namespace Token

def Filled (tokens : List Token) : Prop :=
  ∀ t ∈ tokens, t.kind ≠ .endOfFile → t.span.start < t.span.stop

structure Passes (tokens : List Token) (m n : Nat) : Prop where
  le : m ≤ n
  lt : Filled tokens → m < n

namespace Passes

variable {tokens : List Token} {l m n : Nat}

theorem of_le (hle : l ≤ m) (h : Passes tokens m n) : Passes tokens l n :=
  ⟨Nat.le_trans hle h.le, fun hfilled => Nat.lt_of_le_of_lt hle (h.lt hfilled)⟩

theorem le_trans (h : Passes tokens l m) (hle : m ≤ n) : Passes tokens l n :=
  ⟨Nat.le_trans h.le hle, fun hfilled => Nat.lt_of_lt_of_le (h.lt hfilled) hle⟩

end Passes

theorem Sits.passes {tokens : List Token} {offset : Nat} {t : Token} (h : t.Sits offset)
    (ht : t ∈ tokens) (hk : t.kind ≠ .endOfFile) : Passes tokens t.span.start t.span.stop :=
  ⟨h.proper, fun hfilled => hfilled t ht hk⟩

end Token

namespace Tree

structure Covers (tokens : List Token) (t : Tree) : Prop where
  starts : ∃ k ∈ tokens, k.span.start = t.span.start
  stops : ∃ k ∈ tokens, k.kind ≠ .endOfFile ∧ k.span.stop = t.span.stop
  proper : Token.Passes tokens t.span.start t.span.stop

inductive Placed (tokens : List Token) : Tree → Prop
  | node {span : Span} {shape : Shape Tree}
      (hspan : ∀ t ∈ shape.children .full, span.start ≤ t.span.start ∧ t.span.stop ≤ span.stop)
      (hcovers : ∀ t ∈ shape.children .full, t.Covers tokens)
      (hapart : (shape.children .full).Pairwise fun t t' => t.span.stop ≤ t'.span.start)
      (inner : ∀ t ∈ shape.children .full, t.Placed tokens) : (Tree.node span shape).Placed tokens

theorem Placed.nested {tokens : List Token} {t : Tree} (h : t.Placed tokens) : t.Nested := by
  induction h with
  | node hspan _ _ _ ih => exact .node hspan ih

structure In (tokens : List Token) (lo : Nat) (t : Tree) (hi : Nat) : Prop where
  placed : t.Placed tokens
  covers : t.Covers tokens
  low : lo ≤ t.span.start
  high : t.span.stop ≤ hi

variable {tokens : List Token} {lo lo' hi hi' : Nat} {t : Tree}

theorem In.widen (h : t.In tokens lo hi) (hlo : lo' ≤ lo) (hhi : hi ≤ hi') :
    t.In tokens lo' hi' :=
  ⟨h.placed, h.covers, Nat.le_trans hlo h.low, Nat.le_trans h.high hhi⟩

theorem In.shift (h : t.In tokens lo hi) : t.In tokens t.start hi :=
  ⟨h.placed, h.covers, Nat.le_refl _, h.high⟩

end Tree

namespace Cursor

structure Ordered (tokens : List Token) (c : Cursor) : Prop where
  chain : Token.Chain c.lastEnd (c.next :: c.later)
  suffix : c.next :: c.later <:+ tokens

structure Holds (tokens : List Token) (lo : Nat) (ts : List Tree) (c : Cursor) : Prop where
  ordered : c.Ordered tokens
  trees : ∀ t ∈ ts, t.In tokens lo c.lastEnd
  apart : ts.Pairwise fun t t' => t'.span.stop ≤ t.span.start

structure From (tokens : List Token) (lo : Nat) (ts : List Tree) (c : Cursor) : Prop
    extends c.Holds tokens lo ts where
  starts : ∃ k ∈ tokens, k.span.start = lo
  start : lo ≤ c.next.span.start

structure At (tokens : List Token) (lo : Nat) (ts : List Tree) (c : Cursor) : Prop
    extends c.From tokens lo ts where
  stops : ∃ k ∈ tokens, k.kind ≠ .endOfFile ∧ k.span.stop = c.lastEnd
  taken : Token.Passes tokens lo c.lastEnd

structure Begins (tokens : List Token) (lo : Nat) (c : Cursor) : Prop where
  ordered : c.Ordered tokens
  start : c.next.span.start = lo

variable {tokens : List Token} {lo lo' : Nat} {ts ts' : List Tree} {c : Cursor}

theorem Ordered.lastEnd_le (h : c.Ordered tokens) : c.lastEnd ≤ c.next.span.start := h.chain.1.behind

theorem Ordered.next_mem (h : c.Ordered tokens) : c.next ∈ tokens :=
  h.suffix.subset List.mem_cons_self

theorem Ordered.readable (h : c.Ordered tokens) : c.next.kind.Readable := h.chain.1.readable

theorem From.begins (h : c.From tokens lo ts) : c.Begins tokens c.next.span.start :=
  ⟨h.ordered, rfl⟩

theorem Holds.begins (h : c.Holds tokens lo ts) : c.Begins tokens c.next.span.start :=
  ⟨h.ordered, rfl⟩

theorem Begins.from (h : c.Begins tokens lo) : c.From tokens lo [] where
  ordered := h.ordered
  trees _ h := nomatch h
  apart := .nil
  starts := ⟨c.next, h.ordered.next_mem, h.start⟩
  start := Nat.le_of_eq h.start.symm

theorem Holds.add {c' : Cursor} (h : c.Holds tokens lo ts) (hlo : lo ≤ c.next.span.start)
    (h' : c'.At tokens c.next.span.start ts') : c'.Holds tokens lo (ts' ++ ts) where
  ordered := h'.ordered
  trees t ht := by
    rcases List.mem_append.mp ht with ht | ht
    · exact (h'.trees t ht).widen hlo (Nat.le_refl _)
    · have hlast := h.ordered.lastEnd_le
      exact (h.trees t ht).widen (Nat.le_refl _) (Nat.le_trans hlast h'.taken.le)
  apart := by
    refine List.pairwise_append.mpr ⟨h'.apart, h.apart, fun t ht t' ht' => ?_⟩
    have hlow := (h'.trees t ht).low
    have hhigh := (h.trees t' ht').high
    exact Nat.le_trans hhigh (Nat.le_trans h.ordered.lastEnd_le hlow)

theorem From.add {c' : Cursor} (h : c.From tokens lo ts) (h' : c'.At tokens c.next.span.start ts') :
    c'.At tokens lo (ts' ++ ts) where
  toHolds := h.toHolds.add h.start h'
  starts := h.starts
  start := Nat.le_trans h.start h'.start
  stops := h'.stops
  taken := h'.taken.of_le h.start

theorem At.shift {t : Tree} (h : c.At tokens lo (t :: ts)) : c.At tokens t.start [t] := by
  have ht := h.trees t List.mem_cons_self
  have hlast : Token.Passes tokens t.start c.lastEnd := ht.covers.proper.le_trans ht.high
  refine ⟨⟨⟨h.ordered, fun t' ht' => ?_, List.pairwise_singleton _ _⟩, ht.covers.starts, ?_⟩,
    h.stops, hlast⟩
  · rw [List.mem_singleton.mp ht']
    exact ht.shift
  · exact Nat.le_trans hlast.le h.ordered.lastEnd_le

theorem Holds.advance (h : c.Holds tokens lo ts) (hk : c.next.kind ≠ .endOfFile) :
    c.advance.Holds tokens lo ts ∧ c.advance.lastEnd = c.next.span.stop := by
  obtain ⟨next, later, lastEnd⟩ := c
  obtain ⟨⟨⟨hsits, hlast, hchain⟩, hsuffix⟩, htrees, hapart⟩ := h
  cases later with
  | nil => exact absurd (hlast.mpr rfl) hk
  | cons t later =>
    refine ⟨⟨⟨hchain, (List.suffix_cons next _).trans hsuffix⟩, fun x hx => ?_, hapart⟩, rfl⟩
    exact (htrees x hx).widen (Nat.le_refl _) (Nat.le_trans hsits.behind hsits.proper)

theorem From.advance (h : c.From tokens lo ts) (hk : c.next.kind ≠ .endOfFile) :
    c.advance.At tokens lo ts := by
  obtain ⟨hholds, hlast⟩ := h.toHolds.advance hk
  have htaken : Token.Passes tokens lo c.advance.lastEnd := by
    rw [hlast]
    exact (h.ordered.chain.1.passes h.ordered.next_mem hk).of_le h.start
  refine ⟨⟨hholds, h.starts, ?_⟩, ⟨c.next, h.ordered.next_mem, hk, hlast.symm⟩, htaken⟩
  exact Nat.le_trans htaken.le hholds.ordered.lastEnd_le

theorem Holds.skipWhile {accept : Token.Kind → Bool} (hacc : accept .endOfFile = false)
    (h : c.Holds tokens lo ts) :
    (Cursor.skipWhile accept c.next c.lastEnd c.later).Holds tokens lo ts := by
  obtain ⟨next, later, lastEnd⟩ := c
  induction later generalizing next lastEnd with
  | nil => exact h
  | cons t later ih =>
    simp only [Cursor.skipWhile]
    split
    · next hn =>
      refine ih t next.span.stop (h.advance ?_).1
      intro he
      rw [show next.kind = .endOfFile from he, hacc] at hn
      cases hn
    · exact h

theorem At.skipWhile {accept : Token.Kind → Bool} (hacc : accept .endOfFile = false)
    (h : c.At tokens lo ts) : (Cursor.skipWhile accept c.next c.lastEnd c.later).At tokens lo ts := by
  obtain ⟨next, later, lastEnd⟩ := c
  induction later generalizing next lastEnd with
  | nil => exact h
  | cons t later ih =>
    simp only [Cursor.skipWhile]
    split
    · next hn =>
      refine ih t next.span.stop (h.toFrom.advance ?_)
      intro he
      rw [show next.kind = .endOfFile from he, hacc] at hn
      cases hn
    · exact h

theorem At.node (us : List Tree) {start : Nat} {shape : Shape Tree}
    (h : c.At tokens lo (us ++ ts)) (hshape : shape.children .full = us.reverse)
    (hlo : lo ≤ start) (hstarts : ∃ k ∈ tokens, k.span.start = start)
    (hstart : Token.Passes tokens start c.lastEnd)
    (hus : ∀ t ∈ us, start ≤ t.span.start) (hts : ∀ t ∈ ts, t.span.stop ≤ start) :
    c.At tokens lo (.node ⟨start, max c.lastEnd start⟩ shape :: ts) := by
  have hmem (t : Tree) (ht : t ∈ shape.children .full) : t ∈ us := by
    rw [hshape] at ht
    exact List.mem_reverse.mp ht
  have hin (t : Tree) (ht : t ∈ us) : t.In tokens lo c.lastEnd :=
    h.trees t (List.mem_append_left _ ht)
  obtain ⟨hapart, hapartTs, -⟩ := List.pairwise_append.mp h.apart
  rw [Nat.max_eq_left hstart.le]
  have hplaced : (Tree.node ⟨start, c.lastEnd⟩ shape).Placed tokens := by
    constructor
    · exact fun t ht => ⟨hus t (hmem t ht), (hin t (hmem t ht)).high⟩
    · exact fun t ht => (hin t (hmem t ht)).covers
    · rw [hshape]
      exact List.pairwise_reverse.mpr hapart
    · exact fun t ht => (hin t (hmem t ht)).placed
  refine ⟨⟨⟨h.ordered, fun t ht => ?_, List.pairwise_cons.mpr ⟨hts, hapartTs⟩⟩, h.starts, h.start⟩,
    h.stops, h.taken⟩
  rcases List.mem_cons.mp ht with rfl | ht
  · exact ⟨hplaced, ⟨hstarts, h.stops, hstart⟩, hlo, Nat.le_refl _⟩
  · exact h.trees t (List.mem_append_right _ ht)

end Cursor

namespace Parser

variable {α β : Type}

def Ensures (P : Cursor → Prop) (m : Parser α) (Q : α → Cursor → Prop) : Prop :=
  ∀ c a c', P c → m.run c = .ok (a, c') → Q a c'

namespace Ensures

variable {P P' : Cursor → Prop} {F : α → Prop} {Q Q' : α → Cursor → Prop} {R : β → Cursor → Prop}

theorem pure {a : α} (h : ∀ c, P c → Q a c) : Ensures P (Pure.pure a) Q := by
  rintro c _ _ hc ⟨⟩
  exact h c hc

theorem bind {m : Parser α} {k : α → Parser β} (hm : Ensures P m Q)
    (hk : ∀ a, Ensures (Q a) (k a) R) : Ensures P (m >>= k) R := by
  intro c b c' hc h
  rw [StateT.run_bind] at h
  cases hr : m.run c with
  | error f =>
    rw [hr] at h
    cases h
  | ok x =>
    rw [hr] at h
    exact hk x.1 x.2 b c' (hm c x.1 x.2 hc hr) h

theorem mono {m : Parser α} (h : Ensures P m Q) (hP : ∀ c, P' c → P c)
    (hQ : ∀ a c, Q a c → Q' a c) : Ensures P' m Q' :=
  fun c a c' hc hr => hQ a c' (h c a c' (hP c hc) hr)

theorem of_imp {m : Parser α} (h : Ensures P m Q) (hP : ∀ c, P' c → P c) : Ensures P' m Q :=
  h.mono hP fun _ _ h => h

theorem bind_fact {m : Parser α} {k : α → Parser β} (hm : Ensures P m fun a c => F a ∧ Q a c)
    (hk : ∀ a, F a → Ensures (Q a) (k a) R) : Ensures P (m >>= k) R :=
  hm.bind fun a c b c' hc hr => hk a hc.1 c b c' hc.2 hr

theorem fact {p : Prop} {m : Parser α} (h : p → Ensures P m Q) :
    Ensures (fun c => p ∧ P c) m Q := fun c a c' hc hr => h hc.1 c a c' hc.2 hr

theorem map {m : Parser α} {f : α → β} (h : Ensures P m fun a => R (f a)) :
    Ensures P (f <$> m) R := by
  rw [← bind_pure_comp]
  exact h.bind fun a => pure fun _ h => h

theorem start {t : Tree} {k : Nat → Parser β} (h : Ensures P (k t.start) R) :
    Ensures P (Sink.start t >>= k) R := h

theorem fail {expected : Expected} : Ensures P (Parser.fail expected : Parser α) Q := by
  rintro c _ _ - ⟨⟩

theorem peek : Ensures P Parser.peek fun t c => c.next = t ∧ P c := by
  rintro c _ _ hc ⟨⟩
  exact ⟨rfl, hc⟩

theorem peekSecond : Ensures P Parser.peekSecond fun _ => P := by
  rintro c _ _ hc ⟨⟩
  exact hc

theorem atTerminator : Ensures P Parser.atTerminator fun _ => P := by
  rintro c _ _ hc ⟨⟩
  exact hc

theorem at? {k : Token.Kind} :
    Ensures P (Parser.at? k) fun b c => (b = true ↔ c.next.kind = k) ∧ P c := by
  rintro c _ _ hc ⟨⟩
  exact ⟨decide_eq_true_iff, hc⟩

end Ensures

open Cursor

variable {tokens : List Token} {lo : Nat} {ts : List Tree} {m : Parser Tree} {r r' : Tree.Role}

def Produces (tokens : List Token) (r : Tree.Role) (m : Parser Tree) : Prop :=
  ∀ lo, Ensures (Begins tokens lo) m fun t c => t.Fits r ∧ c.At tokens lo [t]

theorem Produces.ensures (h : Produces tokens r m) :
    Ensures (From tokens lo ts) m fun t c => t.Fits r ∧ c.At tokens lo (t :: ts) := by
  intro c t c' hc hr
  obtain ⟨hfits, hat⟩ := h _ c t c' hc.begins hr
  exact ⟨hfits, hc.add hat⟩

theorem Produces.ensures_at (h : Produces tokens r m) :
    Ensures (At tokens lo ts) m fun t c => t.Fits r ∧ c.At tokens lo (t :: ts) :=
  h.ensures.of_imp fun _ hc => hc.toFrom

theorem Produces.some_at (h : Produces tokens r m) :
    Ensures (At tokens lo ts) (some <$> m) fun o c =>
      (∀ t ∈ o, t.Fits r) ∧ c.At tokens lo (o.toList ++ ts) := by
  refine Ensures.map (h.ensures_at.mono (fun _ hc => hc) ?_)
  rintro t c ⟨hfits, hat⟩
  exact ⟨fun x hx => Option.mem_some.mp hx ▸ hfits, hat⟩

theorem Produces.mono (h : Produces tokens r m) (hr : ∀ t : Tree, t.Fits r → t.Fits r') :
    Produces tokens r' m := fun lo => (h lo).mono (fun _ hc => hc) fun t _ ht => ⟨hr t ht.1, ht.2⟩

theorem Produces.fail {expected : Expected} : Produces tokens r (Parser.fail expected) :=
  fun _ => Ensures.fail

theorem Produces.peek {k : Token → Parser Tree}
    (h : ∀ t, t.kind.Readable → Ensures (fun c => c.next = t ∧ c.Begins tokens t.span.start) (k t)
      fun x c => x.Fits r ∧ c.At tokens t.span.start [x]) :
    Produces tokens r (Parser.peek >>= k) := by
  intro lo
  refine Ensures.bind Ensures.peek fun t c x c' hc hr => ?_
  obtain ⟨rfl, hbegins⟩ := hc
  obtain rfl := hbegins.start
  exact h c.next hbegins.ordered.readable c x c' ⟨rfl, hbegins⟩ hr

theorem Produces.of_next {t : Token} (h : Produces tokens r m) :
    Ensures (fun c => c.next = t ∧ c.Begins tokens t.span.start) m fun x c =>
      x.Fits r ∧ c.At tokens t.span.start [x] :=
  (h _).of_imp fun _ hc => hc.2

theorem advance_next {t : Token} (hk : t.kind ≠ .endOfFile) :
    Ensures (fun c => c.next = t ∧ c.Begins tokens t.span.start) advance fun x c =>
      x = t ∧ c.At tokens t.span.start [] := by
  rintro c _ _ ⟨rfl, hc⟩ ⟨⟩
  exact ⟨rfl, hc.from.advance hk⟩

theorem advance_bind {t : Token} {k : Token → Parser α} {Q : α → Cursor → Prop}
    (hk : t.kind ≠ .endOfFile) (h : Ensures (At tokens t.span.start []) (k t) Q) :
    Ensures (fun c => c.next = t ∧ c.Begins tokens t.span.start) (advance >>= k) Q := by
  refine Ensures.bind_fact (advance_next hk) ?_
  rintro _ rfl
  exact h

theorem advance_from {k : Token.Kind} (hk : k ≠ .endOfFile) :
    Ensures (fun c => c.next.kind = k ∧ c.From tokens lo ts) advance fun _ => At tokens lo ts := by
  rintro c _ _ ⟨rfl, hc⟩ ⟨⟩
  exact hc.advance hk

theorem eat_cases {k : Token.Kind} {P : Cursor → Prop} {Q : Bool → Cursor → Prop}
    (htrue : Ensures (fun c => c.next.kind = k ∧ P c) advance fun _ => Q true)
    (hfalse : ∀ c, c.next.kind ≠ k → P c → Q false c) : Ensures P (eat k) Q := by
  refine Ensures.bind Ensures.at? fun b => ?_
  cases b with
  | false => exact Ensures.pure fun c hc => hfalse c (fun h => nomatch hc.1.mpr h) hc.2
  | true =>
    refine Ensures.bind (htrue.of_imp fun c hc => ⟨hc.1.mp rfl, hc.2⟩) fun _ => ?_
    exact Ensures.pure fun c hc => hc

theorem eat_from {k : Token.Kind} (hk : k ≠ .endOfFile) :
    Ensures (From tokens lo ts) (eat k) fun b c =>
      c.From tokens lo ts ∧ (b = true → c.At tokens lo ts) ∧ (b = false → c.next.kind ≠ k) :=
  eat_cases ((advance_from hk).mono (fun _ hc => hc) fun _ _ hc => ⟨hc.toFrom, fun _ => hc, nofun⟩)
    fun _ hk hc => ⟨hc, nofun, fun _ => hk⟩

theorem eatKeyword_from {k : Keyword} :
    Ensures (From tokens lo ts) (eatKeyword k) fun b c => c.From tokens lo ts ∧
      (b = true → c.At tokens lo ts) ∧ (b = false → c.next.kind ≠ .keyword k) := eat_from nofun

theorem eat_at {k : Token.Kind} (hk : k ≠ .endOfFile) :
    Ensures (At tokens lo ts) (eat k) fun _ => At tokens lo ts :=
  eat_cases ((advance_from hk).of_imp fun _ hc => ⟨hc.1, hc.2.toFrom⟩) fun _ _ hc => hc

theorem eatPunct_at {p : Punct} :
    Ensures (At tokens lo ts) (eatPunct p) fun _ => At tokens lo ts := eat_at nofun

theorem eatKeyword_at {k : Keyword} :
    Ensures (At tokens lo ts) (eatKeyword k) fun _ => At tokens lo ts := eat_at nofun

theorem expectPunct_from {p : Punct} :
    Ensures (From tokens lo ts) (expectPunct p) fun _ => At tokens lo ts := by
  refine Ensures.bind Ensures.at? fun b => ?_
  cases b with
  | false => exact Ensures.fail
  | true => exact (advance_from (k := .punct p) nofun).of_imp fun c hc => ⟨hc.1.mp rfl, hc.2⟩

theorem expectKeyword_from {k : Keyword} :
    Ensures (From tokens lo ts) (expectKeyword k) fun _ => At tokens lo ts := by
  refine Ensures.bind Ensures.at? fun b => ?_
  cases b with
  | false => exact Ensures.fail
  | true => exact (advance_from (k := .keyword k) nofun).of_imp fun c hc => ⟨hc.1.mp rfl, hc.2⟩

theorem expectPunct_at {p : Punct} :
    Ensures (At tokens lo ts) (expectPunct p) fun _ => At tokens lo ts :=
  expectPunct_from.of_imp fun _ hc => hc.toFrom

theorem expectKeyword_at {k : Keyword} :
    Ensures (At tokens lo ts) (expectKeyword k) fun _ => At tokens lo ts :=
  expectKeyword_from.of_imp fun _ hc => hc.toFrom

theorem next_of_run_expect {k : Token.Kind} {expected : Expected} {c c' : Cursor} {t : Token}
    (h : (do if ← at? k then advance else Parser.fail expected : Parser Token).run c = .ok (t, c')) :
    t = c.next := by
  by_cases hk : c.next.kind = k
  · have hb : (at? k : Parser Bool).run c = .ok (true, c) := by
      show Except.ok (decide (c.next.kind = k), c) = _
      rw [decide_eq_true hk]
    rw [StateT.run_bind, hb] at h
    cases h
    rfl
  · have hb : (at? k : Parser Bool).run c = .ok (false, c) := by
      show Except.ok (decide (c.next.kind = k), c) = _
      rw [decide_eq_false hk]
    rw [StateT.run_bind, hb] at h
    cases h

theorem Produces.expectPunct {p : Punct} {k : Token → Parser Tree}
    (h : ∀ t, Ensures (At tokens t.span.start []) (k t) fun x c =>
      x.Fits r ∧ c.At tokens t.span.start [x]) : Produces tokens r (Parser.expectPunct p >>= k) := by
  intro lo
  refine Ensures.bind_fact (F := fun t => t.span.start = lo) (Q := fun _ => At tokens lo []) ?_ ?_
  · intro c t c' hc hr
    refine ⟨?_, expectPunct_from c t c' hc.from hr⟩
    rw [next_of_run_expect hr]
    exact hc.start
  · rintro t rfl
    exact h t

theorem Produces.expectKeyword {kw : Keyword} {k : Token → Parser Tree}
    (h : ∀ t, Ensures (At tokens t.span.start []) (k t) fun x c =>
      x.Fits r ∧ c.At tokens t.span.start [x]) :
    Produces tokens r (Parser.expectKeyword kw >>= k) := by
  intro lo
  refine Ensures.bind_fact (F := fun t => t.span.start = lo) (Q := fun _ => At tokens lo []) ?_ ?_
  · intro c t c' hc hr
    refine ⟨?_, expectKeyword_from c t c' hc.from hr⟩
    rw [next_of_run_expect hr]
    exact hc.start
  · rintro t rfl
    exact h t

theorem node_at {shape : Shape Tree} (h : shape.children .full = ts.reverse)
    (hfits : ∀ s, (Tree.node s shape).Fits r) :
    Ensures (At tokens lo ts) (node lo shape) fun t c => t.Fits r ∧ c.At tokens lo [t] := by
  rintro c _ _ hc ⟨⟩
  refine ⟨hfits _, ?_⟩
  rw [← List.append_nil ts] at hc
  refine hc.node ts h (Nat.le_refl _) hc.starts hc.taken (fun t ht => ?_) nofun
  exact (hc.trees t (List.mem_append_left _ ht)).low

theorem leaf_from {k : Token.Kind} {shape : Shape Tree} {rest : Tree → Parser α}
    {Q : α → Cursor → Prop} (hk : k ≠ .endOfFile) (hs : shape.children .full = [])
    (h : ∀ s, k.Readable → Ensures (At tokens lo (.node s shape :: ts)) (rest (.node s shape)) Q) :
    Ensures (fun c => c.next.kind = k ∧ c.From tokens lo ts)
      (do let t ← advance
          let x ← node t.span.start shape
          rest x) Q := by
  rintro c a c' ⟨rfl, hc⟩ hr
  have hx := (hc.begins.from.advance hk).node [] hs (Nat.le_refl _)
    ⟨c.next, hc.ordered.next_mem, rfl⟩ (hc.begins.from.advance hk).taken nofun nofun
  exact h _ hc.ordered.readable c.advance a c' (hc.add hx) hr

theorem skip_at {ps : List Punct} :
    Ensures (At tokens lo ts) (skip ps) fun _ => At tokens lo ts := by
  rintro c _ _ hc ⟨⟩
  exact hc.skipWhile (by simp)

theorem skip_holds {ps : List Punct} :
    Ensures (Holds tokens lo ts) (skip ps) fun _ => Holds tokens lo ts := by
  rintro c _ _ hc ⟨⟩
  exact hc.skipWhile (by simp)

section

variable {I : α → Cursor → Prop}

theorem iterateUpTo_ensures {step : α → Parser (Option α)}
    (h : ∀ a, Ensures (I a) (step a) fun o c => I (o.getD a) c) (n : Nat) (a : α) :
    Ensures (I a) (iterateUpTo step n a) I := by
  induction n generalizing a with
  | zero => exact Ensures.pure fun _ hc => hc
  | succ n ih =>
    refine Ensures.bind (h a) fun o => ?_
    cases o with
    | none => exact Ensures.pure fun _ hc => hc
    | some b => exact ih b

theorem iterate_ensures {step : α → Parser (Option α)}
    (h : ∀ a, Ensures (I a) (step a) fun o c => I (o.getD a) c) (a : α) :
    Ensures (I a) (iterate step a) I := by
  intro c b c' hc hr
  exact iterateUpTo_ensures h (c.later.length + 1) a c b c' hc hr

end

section

variable {I : List Tree → Cursor → Prop} {F : Tree → Prop}

theorem manyUpTo_ensures {item : Parser (Option Tree)}
    (h : ∀ ts, Ensures (I ts) item fun o c => (∀ t ∈ o, F t) ∧ I (o.toList ++ ts) c) (n : Nat)
    (ts : List Tree) :
    Ensures (I ts) (manyUpTo item n) fun l c => (∀ t ∈ l, F t) ∧ I (l.reverse ++ ts) c := by
  induction n generalizing ts with
  | zero => exact Ensures.pure fun _ hc => ⟨nofun, hc⟩
  | succ n ih =>
    refine Ensures.bind_fact (h ts) fun o ho => ?_
    cases o with
    | none => exact Ensures.pure fun _ hc => ⟨nofun, hc⟩
    | some t =>
      refine Ensures.bind_fact (ih (t :: ts)) fun l hl => ?_
      refine Ensures.pure fun _ hc => ⟨?_, by simpa using hc⟩
      exact List.forall_mem_cons.mpr ⟨ho t rfl, hl⟩

theorem many_ensures {item : Parser (Option Tree)}
    (h : ∀ ts, Ensures (I ts) item fun o c => (∀ t ∈ o, F t) ∧ I (o.toList ++ ts) c) :
    Ensures (I ts) (many item) fun l c => (∀ t ∈ l, F t) ∧ I (l.reverse ++ ts) c := by
  intro c l c' hc hr
  exact manyUpTo_ensures h (c.later.length + 1) ts c l c' hc hr

end

theorem separatedUpTo_at {stop : Parser Bool} {item : Parser Tree}
    (hs : ∀ ts, Ensures (At tokens lo ts) stop fun _ => At tokens lo ts)
    (h : Produces tokens r item) (n : Nat) (ts : List Tree) :
    Ensures (At tokens lo ts) (separatedUpTo stop item n) fun l c =>
      (∀ t ∈ l, t.Fits r) ∧ c.At tokens lo (l.reverse ++ ts) := by
  induction n generalizing ts with
  | zero => exact Ensures.pure fun _ hc => ⟨nofun, hc⟩
  | succ n ih =>
    refine Ensures.bind (hs ts) fun b => ?_
    cases b with
    | true => exact Ensures.pure fun _ hc => ⟨nofun, hc⟩
    | false =>
      refine Ensures.bind_fact h.ensures_at fun t ht => Ensures.bind eatPunct_at fun b => ?_
      cases b with
      | false => exact Ensures.pure fun _ hc => ⟨List.forall_mem_singleton.mpr ht, hc⟩
      | true =>
        refine Ensures.bind_fact (ih (t :: ts)) fun l hl => ?_
        refine Ensures.pure fun _ hc => ⟨?_, by simpa using hc⟩
        exact List.forall_mem_cons.mpr ⟨ht, hl⟩

theorem separated_at {stop : Parser Bool} {item : Parser Tree}
    (hs : ∀ ts, Ensures (At tokens lo ts) stop fun _ => At tokens lo ts)
    (h : Produces tokens r item) :
    Ensures (At tokens lo ts) (separated stop item) fun l c =>
      (∀ t ∈ l, t.Fits r) ∧ c.At tokens lo (l.reverse ++ ts) := by
  intro c l c' hc hr
  exact separatedUpTo_at hs h (c.later.length + 1) ts c l c' hc hr

theorem listUntil_at {close : Punct} {item : Parser Tree} (h : Produces tokens r item) :
    Ensures (At tokens lo ts) (listUntil close item) fun l c =>
      (∀ t ∈ l, t.Fits r) ∧ c.At tokens lo (l.reverse ++ ts) := by
  refine Ensures.bind_fact (separated_at (fun ts => Ensures.at?.mono (fun _ hc => hc) ?_) h)
    fun l hl => ?_
  · exact fun _ _ hc => hc.2
  · exact Ensures.bind expectPunct_at fun _ => Ensures.pure fun _ hc => ⟨hl, hc⟩

theorem braced_at {separators : List Punct} {item : Parser Tree} (h : Produces tokens r item) :
    Ensures (At tokens lo ts) (braced separators item) fun l c =>
      (∀ t ∈ l, t.Fits r) ∧ c.At tokens lo (l.reverse ++ ts) := by
  refine many_ensures (I := At tokens lo) fun ts => ?_
  refine Ensures.bind skip_at fun _ => Ensures.bind eatPunct_at fun b => ?_
  cases b with
  | true => exact Ensures.pure fun _ hc => ⟨nofun, hc⟩
  | false =>
    refine Ensures.bind_fact h.ensures_at fun t ht => Ensures.pure fun _ hc => ⟨?_, hc⟩
    exact fun x hx => Option.mem_some.mp hx ▸ ht

theorem identifier_produces : Produces tokens .name identifier := by
  refine Produces.peek fun t ht => ?_
  split
  · next name hk =>
    rw [hk] at ht
    exact advance_bind (by rw [hk]; nofun) (node_at rfl fun _ => .name ht)
  · exact Ensures.fail

theorem propertyName_from (excluded : List Keyword) :
    Ensures (fun c => c.From tokens lo ts ∧ ∀ k ∈ excluded, c.next.kind ≠ .keyword k) propertyName
      fun t c => (t.Fits .property ∧ ∃ s name, t = .node s (.identifier name) ∧
        ∀ k ∈ excluded, name ≠ k.text) ∧ c.At tokens lo (t :: ts) := by
  refine Ensures.bind Ensures.peek fun t => ?_
  split
  · next k hk =>
    rintro c x c' ⟨rfl, hc, hexcluded⟩ hr
    have hadvance := hc.begins.from.advance (by rw [hk]; nofun)
    have hat := hadvance.node [] (rfl : (Shape.identifier k.text).children .full = [])
      (Nat.le_refl _) hadvance.starts hadvance.taken nofun nofun
    cases hr
    refine ⟨⟨.keyword, _, _, rfl, fun k' hk' he => hexcluded k' hk' ?_⟩, hc.add hat⟩
    rw [hk, Keyword.text_injective he]
  · refine identifier_produces.ensures.mono (fun _ hc => hc.2.1) ?_
    rintro x c ⟨hfits, hat⟩
    refine ⟨⟨.propertyName hfits, ?_⟩, hat⟩
    cases hfits with
    | name hname => exact ⟨_, _, rfl, fun k _ => hname.ne_text k⟩

theorem propertyName_produces : Produces tokens .property propertyName := by
  intro lo
  refine (propertyName_from []).mono (fun _ hc => ⟨hc.from, nofun⟩) ?_
  exact fun _ _ hx => ⟨hx.1.1, hx.2⟩

theorem Ensures.shift {left : Tree} {k : Parser α} {f : α → Tree} {F : α → Prop}
    (h : Ensures (At tokens left.start [left]) k fun x c => F x ∧ c.At tokens left.start [f x]) :
    Ensures (At tokens lo [left]) k fun x c => F x ∧ c.At tokens lo [f x] := by
  intro c x c' hc hr
  obtain ⟨hfits, hat⟩ := h c x c' hc.shift hr
  have hlow := (hc.trees left List.mem_cons_self).low
  refine ⟨hfits, ⟨⟨⟨hat.ordered, fun t ht => ?_, hat.apart⟩, hc.starts, ?_⟩, hat.stops, ?_⟩⟩
  · exact (hat.trees t ht).widen hlow (Nat.le_refl _)
  · exact Nat.le_trans hlow hat.start
  · exact hat.taken.of_le hlow

def Qualified (tokens : List Token) (lo : Nat) (ts : List Tree) (x : Option Tree × Tree)
    (c : Cursor) : Prop :=
  ((∀ t ∈ x.1, t.Fits .owner) ∧ x.2.Fits .name) ∧ c.At tokens lo (x.2 :: (x.1.toList ++ ts))

theorem owner_at {object id : Tree} (hobject : object.Fits .owner) (hid : id.Fits .name) :
    Ensures (At tokens lo (id :: object :: ts))
      (node object.start (.memberExpression object id false)) fun x c =>
        x.Fits .owner ∧ c.At tokens lo (x :: ts) := by
  rintro c x _ hc ⟨⟩
  have ho := hc.trees object (by simp)
  obtain ⟨hapart, hts⟩ := List.pairwise_cons.mp (List.pairwise_cons.mp hc.apart).2
  have hbehind := (List.pairwise_cons.mp hc.apart).1 object List.mem_cons_self
  refine ⟨.ownerMember hobject hid, ?_⟩
  refine hc.node [id, object] rfl ho.low ho.covers.starts ?_ (fun t ht => ?_) hapart
  · exact ho.covers.proper.le_trans ho.high
  · rcases List.mem_cons.mp ht with rfl | ht
    · exact Nat.le_trans ho.covers.proper.le hbehind
    · rw [List.mem_singleton.mp ht]
      exact Nat.le_refl _

theorem qualifiedName_at {separator : Punct} :
    Ensures (At tokens lo ts) (qualifiedName separator) (Qualified tokens lo ts) := by
  refine Ensures.bind_fact identifier_produces.ensures_at fun first hfirst => ?_
  refine (iterate_ensures (I := Qualified tokens lo ts) ?_ (none, first)).of_imp fun c hc =>
    ⟨⟨by simp, hfirst⟩, hc⟩
  rintro ⟨qualifier, id⟩
  have hname (owner : Tree) (howner : owner.Fits .owner) : Ensures (At tokens lo (owner :: ts))
      (do return some (some owner, ← identifier) : Parser (Option (Option Tree × Tree))) fun o =>
        Qualified tokens lo ts (o.getD (qualifier, id)) := by
    refine Ensures.bind_fact identifier_produces.ensures_at fun id' hid' => ?_
    exact Ensures.pure fun c hc => ⟨⟨fun t ht => Option.mem_some.mp ht ▸ howner, hid'⟩, hc⟩
  refine Ensures.fact fun hfits => Ensures.bind eatPunct_at fun b => ?_
  cases b with
  | false => exact Ensures.pure fun _ hc => ⟨hfits, hc⟩
  | true =>
    cases qualifier with
    | none =>
      refine Ensures.bind_fact (F := fun t => t.Fits .owner) ?_ hname
      exact Ensures.pure fun _ hc => ⟨.ownerName hfits.2, hc⟩
    | some object =>
      exact Ensures.start (Ensures.bind_fact (owner_at (hfits.1 object rfl) hfits.2) hname)

end Parser

end SquirrelAnalyzer
