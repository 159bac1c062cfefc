import SquirrelAnalyzer.Proofs.Print
import SquirrelAnalyzer.Proofs.Tally.Statement

namespace SquirrelAnalyzer

/-- An operand and the end of the last token it takes, parentheses included. -/
structure Operand where
  tree : Tree
  stop : Nat

inductive Grouping
  | operand (e : Operand)
  | join (op : BinaryOperator) (left right : Grouping)

namespace Grouping

def stop : Grouping → Nat
  | operand e => e.stop
  | join _ _ right => right.stop

def tree : Grouping → Tree
  | operand e => e.tree
  | join op left right => .node ⟨left.tree.start, max right.stop left.tree.start⟩
      (.binaryExpression op left.tree right.tree)

def first : Grouping → Operand
  | operand e => e
  | join _ left _ => left.first

def rest : Grouping → List (BinaryOperator × Operand)
  | operand _ => []
  | join op left right => left.rest ++ (op, right.first) :: right.rest

def precedence? : Grouping → Option Nat
  | operand _ => none
  | join op _ _ => some op.precedence

/-- No operator binds weaker than the one it is an operand of, and on the right none binds as
weakly. -/
inductive Ordered : Grouping → Prop
  | operand (e : Operand) : Ordered (operand e)
  | join {op : BinaryOperator} {left right : Grouping}
      (hleft : ∀ p ∈ left.precedence?, op.precedence ≤ p)
      (hright : ∀ p ∈ right.precedence?, op.precedence < p)
      (left_ordered : left.Ordered) (right_ordered : right.Ordered) : Ordered (join op left right)

variable {t t' left right : Grouping} {op : BinaryOperator} {p : Nat}

theorem Ordered.le_of_mem (h : t.Ordered) (hp : ∀ q ∈ t.precedence?, p ≤ q)
    {x : BinaryOperator × Operand} (hx : x ∈ t.rest) : p ≤ x.1.precedence := by
  induction h with
  | operand e => cases hx
  | @join op left right hleft hright _ _ ihleft ihright =>
    have hop : p ≤ op.precedence := hp _ rfl
    rcases List.mem_append.mp hx with hx | hx
    · exact ihleft (fun q hq => Nat.le_trans hop (hleft q hq)) hx
    · rcases List.mem_cons.mp hx with rfl | hx
      · exact hop
      · exact ihright (fun q hq => Nat.le_trans hop (Nat.le_of_lt (hright q hq))) hx

theorem exists_of_precedence? (hp : p ∈ t.precedence?) : ∃ x ∈ t.rest, x.1.precedence = p := by
  cases t with
  | operand e => cases hp
  | join op left right =>
    cases hp
    exact ⟨(op, right.first), by simp [rest], rfl⟩

theorem rest_ne_nil_of_join : (join op left right).rest ≠ [] := by
  simp [rest]

theorem split_unique {ls rs ls' rs' : List (BinaryOperator × Operand)}
    {x x' : BinaryOperator × Operand} (heq : ls ++ x :: rs = ls' ++ x' :: rs')
    (hright : ∀ y ∈ rs, x.1.precedence < y.1.precedence)
    (hleft' : ∀ y ∈ ls', x'.1.precedence ≤ y.1.precedence)
    (hlength : ls.length < ls'.length) : False := by
  rcases List.append_eq_append_iff.mp heq with ⟨between, rfl, hrest⟩ | ⟨between, rfl, -⟩
  · cases between with
    | nil => simp at hlength
    | cons y between =>
      obtain ⟨rfl, rfl⟩ := List.cons.inj hrest
      have hle := hleft' x (by simp)
      have hlt := hright x' (by simp)
      omega
  · rw [List.length_append] at hlength
    omega

theorem Ordered.unique (h : t.Ordered) (h' : t'.Ordered) (hfirst : t'.first = t.first)
    (hrest : t'.rest = t.rest) : t' = t := by
  induction h generalizing t' with
  | operand e =>
    cases h' with
    | operand e' => exact congrArg Grouping.operand hfirst
    | join => exact absurd hrest rest_ne_nil_of_join
  | @join op left right hleft hright hl hr ihleft ihright =>
    cases h' with
    | operand e' => exact absurd hrest.symm rest_ne_nil_of_join
    | @join op' left' right' hleft' hright' hl' hr' =>
      have hlength : left'.rest.length = left.rest.length := by
        rcases Nat.lt_trichotomy left'.rest.length left.rest.length with hlt | heq | hlt
        · exact (split_unique hrest (fun y => hr'.le_of_mem hright') (fun y => hl.le_of_mem hleft)
            hlt).elim
        · exact heq
        · exact (split_unique hrest.symm (fun y => hr.le_of_mem hright)
            (fun y => hl'.le_of_mem hleft') hlt).elim
      obtain ⟨hrestleft, hcons⟩ := List.append_inj hrest hlength
      obtain ⟨hpair, hrestright⟩ := List.cons.inj hcons
      obtain ⟨rfl, hfirstright⟩ := Prod.mk.inj hpair
      rw [ihleft hl' hfirst hrestleft, ihright hr' hfirstright hrestright]

end Grouping

def Token.Continues (t : Token) : Prop :=
  t.kind = .punct .dot ∨ t.kind = .punct .parenOpen ∨ (t.newlineBefore = false ∧
    (t.kind = .punct .bracketOpen ∨ (UnaryOperator.trailing? t.kind).isSome = true))

theorem BinaryOperator.one_le_precedence (op : BinaryOperator) : 1 ≤ op.precedence := by
  cases op <;> decide

theorem BinaryOperator.not_continues {t : Token} {op : BinaryOperator}
    (h : ofToken? t.kind = some op) : ¬ t.Continues := by
  rintro (hk | hk | ⟨-, hk | hk⟩)
  · rw [hk] at h
    cases h
  · rw [hk] at h
    cases h
  · rw [hk] at h
    cases h
  · unfold ofToken? at h
    split at h <;> simp_all [UnaryOperator.trailing?]

namespace Cursor

def Ended (c : Cursor) : Prop := Token.Ended (c.next :: c.later)

/-- Between two cursors stands an operand: an identifier, a literal or an expression in
parentheses, with operators in front of it. -/
inductive TakesOperand : Cursor → Tree → Cursor → Prop
  | identifier {c : Cursor} {name : String} (h : c.next.kind = .identifier name) :
      TakesOperand c (.node c.next.range (.identifier name)) c.advance
  | literal {c : Cursor} {value : Literal} (h : Literal.ofToken? c.next.kind = some value) :
      TakesOperand c (.node c.next.range (.literal value)) c.advance
  | parenthesized {c c' : Cursor} {t : Tree} (hopen : c.next.kind = .punct .parenOpen)
      (h : Grammar.whole.assignment.run c.advance = .ok (t, c'))
      (hclose : c'.next.kind = .punct .parenClose) : TakesOperand c t c'.advance
  | prefixed {c c' : Cursor} {t : Tree} {op : UnaryOperator}
      (hop : UnaryOperator.leading? c.next.kind = some op) (h : TakesOperand c.advance t c') :
      TakesOperand c (.node ⟨c.next.span.start, max c'.lastEnd c.next.span.start⟩
        (.unaryExpression op true t)) c'

/-- Between two cursors stand binary operators, each with an operand behind it. -/
inductive TakesPairs : Cursor → List (BinaryOperator × Operand) → Cursor → Prop
  | nil (c : Cursor) : TakesPairs c [] c
  | cons {c c' c'' : Cursor} {op : BinaryOperator} {t : Tree}
      {rest : List (BinaryOperator × Operand)}
      (hop : BinaryOperator.ofToken? c.next.kind = some op) (h : c.advance.TakesOperand t c')
      (hrest : TakesPairs c' rest c'') : TakesPairs c ((op, ⟨t, c'.lastEnd⟩) :: rest) c''

variable {c c' c'' : Cursor} {t : Tree} {rest : List (BinaryOperator × Operand)}

theorem Ended.tallied (h : c.Ended) : c.Tallied (c.next :: c.later) [] := ⟨h, [], rfl, .nil⟩

theorem Ended.advance (h : c.Ended) (hk : c.next.kind ≠ .endOfFile) :
    c.advance.Ended ∧ c.advance.later.length < c.later.length ∧
      c.advance.lastEnd = c.next.span.stop := by
  obtain ⟨next, later, lastEnd⟩ := c
  obtain ⟨k, ks, rfl, hended⟩ := Token.Ended.exists_later h hk
  exact ⟨hended, Nat.lt_succ_self _, rfl⟩

theorem Ended.advance_plain (h : c.Ended) (hk : c.next.kind.isPlain = true) :
    c.advance.Ended ∧ c.advance.later.length < c.later.length :=
  have hadvance := h.advance (Token.Kind.ne_endOfFile_of_isPlain hk)
  ⟨hadvance.1, hadvance.2.1⟩

theorem Ended.whole_assignment (h : c.Ended) (hr : Grammar.whole.assignment.run c = .ok (t, c')) :
    c'.Ended ∧ c'.later.length < c.later.length := by
  have hmoved := ((Grammar.whole_tallies _).assignment _ (Nat.le_refl _)).ensures c t c' h.tallied hr
  exact ⟨hmoved.ended, Nat.lt_of_succ_lt_succ hmoved.moved⟩

theorem TakesOperand.ended (h : c.TakesOperand t c') (hc : c.Ended) :
    c'.Ended ∧ c'.later.length < c.later.length := by
  induction h with
  | identifier h =>
    obtain ⟨hended, hlt, -⟩ := hc.advance (by rw [h]; nofun)
    exact ⟨hended, hlt⟩
  | literal h =>
    obtain ⟨hended, hlt, -⟩ := hc.advance (Token.Kind.Bears.literal h).ne_endOfFile
    exact ⟨hended, hlt⟩
  | parenthesized hopen h hclose =>
    obtain ⟨hended, hlt⟩ := hc.advance_plain (hopen ▸ rfl)
    obtain ⟨hended', hlt'⟩ := hended.whole_assignment h
    obtain ⟨hended'', hlt''⟩ := hended'.advance_plain (hclose ▸ rfl)
    exact ⟨hended'', by omega⟩
  | prefixed hop _ ih =>
    obtain ⟨hended, hlt⟩ := hc.advance_plain (UnaryOperator.isPlain_of_leading? hop)
    obtain ⟨hended', hlt'⟩ := ih hended
    exact ⟨hended', Nat.lt_trans hlt' hlt⟩

theorem TakesPairs.length_le (h : c.TakesPairs rest c') (hc : c.Ended) :
    rest.length ≤ c.later.length := by
  induction h with
  | nil c => exact Nat.zero_le _
  | cons hop h _ ih =>
    obtain ⟨hended, hlt⟩ := hc.advance_plain (BinaryOperator.isPlain_of_ofToken? hop)
    obtain ⟨hended', hlt'⟩ := h.ended hended
    have hle := ih hended'
    rw [List.length_cons]
    omega

theorem TakesPairs.not_continues (h : c.TakesPairs rest c') (hc' : ¬ c'.next.Continues) :
    ¬ c.next.Continues := by
  cases h with
  | nil => exact hc'
  | cons hop => exact BinaryOperator.not_continues hop

end Cursor

namespace Parser

open Cursor

variable {α β : Type} {c c' : Cursor} {t : Tree}

theorem run_bind_of_run {m : Parser α} {k : α → Parser β} {a : α} (h : m.run c = .ok (a, c')) :
    (m >>= k).run c = (k a).run c' := by
  rw [StateT.run_bind, h]
  rfl

theorem run_peek : (peek : Parser Token).run c = .ok (c.next, c) := rfl

theorem run_advance : (advance : Parser Token).run c = .ok (c.next, c.advance) := rfl

theorem run_expectPunct {p : Punct} (h : c.next.kind = .punct p) :
    (expectPunct p : Parser Token).run c = .ok (c.next, c.advance) := by
  have hat : (atPunct p : Parser Bool).run c = .ok (true, c) := by
    show Except.ok (decide (c.next.kind = .punct p), c) = _
    rw [decide_eq_true h]
  rw [expectPunct, run_bind_of_run hat]
  rfl

theorem run_iterate_none {step : α → Parser (Option α)} {a : α}
    (h : (step a).run c = .ok (none, c)) : (iterate step a).run c = .ok (a, c) := by
  show (iterateUpTo step (c.later.length + 1) a).run c = _
  rw [iterateUpTo, run_bind_of_run h]
  rfl

theorem run_postfixStep_none {g : Grammar} {start : Nat} (h : ¬ c.next.Continues) :
    (postfixStep g start t).run c = .ok (none, c) := by
  rw [postfixStep, run_bind_of_run run_peek]
  split
  · next hk => exact absurd (.inl hk) h
  · next hk => exact absurd (.inr (.inl hk)) h
  · next hk =>
    cases hline : c.next.newlineBefore with
    | true => rfl
    | false => exact absurd (.inr (.inr ⟨hline, .inl hk⟩)) h
  · split
    · next op hop =>
      cases hline : c.next.newlineBefore with
      | true => rfl
      | false => exact absurd (.inr (.inr ⟨hline, .inr (by rw [hop]; rfl)⟩)) h
    · rfl

theorem run_unary_of_primary {g : Grammar} (hleading : UnaryOperator.leading? c.next.kind = none)
    (hyield : c.next.kind ≠ .keyword .yieldKw) (h : (primary g).run c = .ok (t, c'))
    (hend : ¬ c'.next.Continues) : (unary g).run c = .ok (t, c') := by
  rw [unary, run_bind_of_run run_peek]
  simp only [if_neg hyield, hleading]
  rw [postfixed, run_bind_of_run h]
  exact run_iterate_none (run_postfixStep_none hend)

theorem run_whole_unary (hc : c.Ended) :
    Grammar.whole.unary.run c = (unary Grammar.whole).run c :=
  ((Grammar.whole_tallies _).unary _ (Nat.le_refl _)).same c hc.tallied

theorem run_whole_binary (hc : c.Ended) (least : Nat) :
    (Grammar.whole.binary least).run c = (binary Grammar.whole least).run c :=
  (((Grammar.whole_tallies _).binary least) _ (Nat.le_refl _)).same c hc.tallied

theorem leading?_of_literal {k : Token.Kind} {value : Literal}
    (h : Literal.ofToken? k = some value) :
    UnaryOperator.leading? k = none ∧ k ≠ .keyword .yieldKw := by
  rw [← Literal.token_eq h]
  cases value with
  | bool b => cases b <;> exact ⟨rfl, nofun⟩
  | _ => exact ⟨rfl, nofun⟩

theorem run_primary_literal {g : Grammar} {value : Literal}
    (h : Literal.ofToken? c.next.kind = some value) :
    (primary g).run c =
      .ok (.node ⟨c.next.span.start, max c.advance.lastEnd c.next.span.start⟩ (.literal value),
        c.advance) := by
  rw [primary, run_bind_of_run run_peek]
  have hk := (Literal.token_eq h).symm
  have hvalue := Literal.ofToken?_token value
  cases value with
  | bool b =>
    cases b
    all_goals
      simp only [Literal.token] at hk hvalue
      simp only [hk, hvalue]
      rfl
  | _ =>
    simp only [Literal.token] at hk hvalue
    simp only [hk, hvalue]
    rfl

theorem run_primary_identifier {g : Grammar} {name : String}
    (h : c.next.kind = .identifier name) :
    (primary g).run c =
      .ok (.node ⟨c.next.span.start, max c.advance.lastEnd c.next.span.start⟩ (.identifier name),
        c.advance) := by
  rw [primary, run_bind_of_run run_peek]
  simp only [h]
  rw [identifier, run_bind_of_run run_peek]
  simp only [h]
  rfl

theorem run_primary_parenthesized (hopen : c.next.kind = .punct .parenOpen)
    (h : Grammar.whole.assignment.run c.advance = .ok (t, c'))
    (hclose : c'.next.kind = .punct .parenClose) :
    (primary Grammar.whole).run c = .ok (t, c'.advance) := by
  rw [primary, run_bind_of_run run_peek]
  simp only [hopen]
  rw [parenthesized, run_bind_of_run (run_expectPunct hopen), run_bind_of_run h,
    run_bind_of_run (run_expectPunct hclose)]
  rfl

theorem run_unary (h : c.TakesOperand t c') (hc : c.Ended) (hend : ¬ c'.next.Continues) :
    (unary Grammar.whole).run c = .ok (t, c') := by
  induction h with
  | @identifier c name hk =>
    obtain ⟨-, -, hlast⟩ := hc.advance (by rw [hk]; nofun)
    rw [Token.range, ← hlast]
    exact run_unary_of_primary (by rw [hk]; rfl) (by rw [hk]; nofun) (run_primary_identifier hk) hend
  | @literal c value hk =>
    obtain ⟨-, -, hlast⟩ := hc.advance (Token.Kind.Bears.literal hk).ne_endOfFile
    obtain ⟨hleading, hyield⟩ := leading?_of_literal hk
    rw [Token.range, ← hlast]
    exact run_unary_of_primary hleading hyield (run_primary_literal hk) hend
  | @parenthesized c c' t hopen h hclose =>
    exact run_unary_of_primary (by rw [hopen]; rfl) (by rw [hopen]; nofun)
      (run_primary_parenthesized hopen h hclose) hend
  | @prefixed c c' t op hop h ih =>
    have hyield : c.next.kind ≠ .keyword .yieldKw := by
      intro hk
      rw [hk] at hop
      cases hop
    obtain ⟨hended, -⟩ := hc.advance_plain (UnaryOperator.isPlain_of_leading? hop)
    rw [unary, run_bind_of_run run_peek]
    simp only [if_neg hyield, hop]
    rw [run_bind_of_run run_advance,
      run_bind_of_run ((run_whole_unary hended).trans (ih hended hend))]
    rfl

structure Climbing (least : Nat) (e : Operand) (all : List (BinaryOperator × Operand)) (last : Cursor)
    (read : Grouping) (ahead : List (BinaryOperator × Operand)) (c : Cursor) : Prop where
  ordered : read.Ordered
  first : read.first = e
  split : all = read.rest ++ ahead
  bound : ∀ x ∈ read.rest, least ≤ x.1.precedence
  absorbs : ∀ x ∈ ahead.head?, ∀ p ∈ read.precedence?, x.1.precedence ≤ p
  ended : c.Ended
  stop : c.lastEnd = read.stop
  pairs : c.TakesPairs ahead last

def Climbs (least : Nat) (e : Operand) (all : List (BinaryOperator × Operand)) (last : Cursor)
    (r : Except ParseFault (Tree × Cursor)) : Prop :=
  ∃ read ahead c, r = .ok (read.tree, c) ∧ Climbing least e all last read ahead c ∧
    ∀ x ∈ ahead.head?, x.1.precedence < least

variable {least n : Nat} {e : Operand} {all ahead : List (BinaryOperator × Operand)} {last : Cursor}
  {read : Grouping} {op : BinaryOperator}

theorem Climbing.step (h : Climbing least e all last read ((op, ⟨t, c'.lastEnd⟩) :: ahead) c)
    (hop : BinaryOperator.ofToken? c.next.kind = some op) (hle : least ≤ op.precedence)
    (hright : Climbs (op.precedence + 1) ⟨t, c'.lastEnd⟩ ahead last
      ((binary Grammar.whole (op.precedence + 1)).run c.advance)) :
    ∃ read' ahead' d, (binaryStep Grammar.whole least read.tree).run c = .ok (some read'.tree, d) ∧
      Climbing least e all last read' ahead' d ∧ ahead'.length ≤ ahead.length := by
  obtain ⟨right, ahead', d, hrun, hclimb, hahead⟩ := hright
  obtain ⟨hended, -⟩ := h.ended.advance_plain (BinaryOperator.isPlain_of_ofToken? hop)
  refine ⟨.join op read right, ahead', d, ?_, ⟨.join ?_ ?_ h.ordered hclimb.ordered, h.first, ?_, ?_,
    ?_, hclimb.ended, hclimb.stop, hclimb.pairs⟩, ?_⟩
  · rw [binaryStep, run_bind_of_run run_peek]
    simp only [hop, if_neg (Nat.not_lt_of_le hle)]
    rw [run_bind_of_run run_advance, run_bind_of_run ((run_whole_binary hended _).trans hrun)]
    show Except.ok (some (Tree.node ⟨_, max d.lastEnd _⟩ _), d) = _
    rw [hclimb.stop]
    rfl
  · exact fun p hp => h.absorbs _ rfl p hp
  · intro p hp
    obtain ⟨x, hx, rfl⟩ := Grouping.exists_of_precedence? hp
    exact hclimb.bound x hx
  · rw [h.split, hclimb.split, Grouping.rest, hclimb.first, List.append_assoc]
    rfl
  · intro x hx
    rcases List.mem_append.mp hx with hx | hx
    · exact h.bound x hx
    · rcases List.mem_cons.mp hx with rfl | hx
      · exact hle
      · exact Nat.le_trans hle (Nat.le_of_succ_le (hclimb.bound x hx))
  · rintro x hx p ⟨⟩
    exact Nat.le_of_lt_succ (hahead x hx)
  · rw [hclimb.split, List.length_append]
    exact Nat.le_add_left _ _

theorem Climbing.iterateUpTo (hlast : BinaryOperator.ofToken? last.next.kind = none)
    (hright : ∀ {op t c c' ahead}, c.Ended → c.TakesOperand t c' → c'.TakesPairs ahead last →
      ahead.length < n → Climbs (BinaryOperator.precedence op + 1) ⟨t, c'.lastEnd⟩ ahead last
        ((binary Grammar.whole (op.precedence + 1)).run c))
    (h : Climbing least e all last read ahead c) (hn : ahead.length ≤ n) {steps : Nat}
    (hsteps : ahead.length < steps) :
    Climbs least e all last
      ((Parser.iterateUpTo (binaryStep Grammar.whole least) steps read.tree).run c) := by
  induction steps generalizing read ahead c with
  | zero => omega
  | succ steps ih =>
    have hstop (hnone : (binaryStep Grammar.whole least read.tree).run c = .ok (none, c))
        (hahead : ∀ x ∈ ahead.head?, x.1.precedence < least) : Climbs least e all last
          ((Parser.iterateUpTo (binaryStep Grammar.whole least) (steps + 1) read.tree).run c) := by
      refine ⟨read, ahead, c, ?_, h, hahead⟩
      rw [Parser.iterateUpTo, run_bind_of_run hnone]
      rfl
    have hpairs := h.pairs
    cases hpairs with
    | nil =>
      refine hstop ?_ nofun
      rw [binaryStep, run_bind_of_run run_peek]
      simp only [hlast]
      rfl
    | @cons _ c' _ op t ahead hop hoperand hrest =>
      rw [List.length_cons] at hn hsteps
      rcases Nat.lt_or_ge op.precedence least with hlt | hle
      · refine hstop ?_ fun x hx => ?_
        · rw [binaryStep, run_bind_of_run run_peek]
          simp only [hop, if_pos hlt]
          rfl
        · cases hx
          exact hlt
      · obtain ⟨hended, -⟩ := h.ended.advance_plain (BinaryOperator.isPlain_of_ofToken? hop)
        obtain ⟨read', ahead', d, hrun, hclimb, hlength⟩ :=
          h.step hop hle (hright hended hoperand hrest (by omega))
        rw [Parser.iterateUpTo, run_bind_of_run hrun]
        exact ih hclimb (by omega) (by omega)

theorem binary_climbs (hlast : BinaryOperator.ofToken? last.next.kind = none)
    (hend : ¬ last.next.Continues) (hc : c.Ended) (h : c.TakesOperand t c')
    (hpairs : c'.TakesPairs all last) (least : Nat) :
    Climbs least ⟨t, c'.lastEnd⟩ all last ((binary Grammar.whole least).run c) := by
  induction hn : all.length using Nat.strongRecOn generalizing c c' t all least with
  | ind n ih =>
    have hended := (h.ended hc).1
    have hstart : Climbing least ⟨t, c'.lastEnd⟩ all last (.operand ⟨t, c'.lastEnd⟩) all c' :=
      ⟨.operand _, rfl, rfl, nofun, nofun, hended, rfl, hpairs⟩
    rw [binary, run_bind_of_run (run_unary h hc (hpairs.not_continues hend))]
    exact hstart.iterateUpTo hlast
      (fun hc h hpairs hlt => ih _ hlt hc h hpairs _ rfl) (Nat.le_of_eq hn)
      (Nat.lt_succ_of_le (hpairs.length_le hended))

/-- Operands joined by binary operators are read as their ordered grouping. -/
theorem binary_ordered (hc : c.Ended) (h : c.TakesOperand t c') (hpairs : c'.TakesPairs all last)
    (hlast : BinaryOperator.ofToken? last.next.kind = none) (hend : ¬ last.next.Continues) :
    ∃ read : Grouping,
      (∀ depth, c.later.length < depth →
        ((Grammar.ofDepth depth).binary 1).run c = .ok (read.tree, last)) ∧
      ∀ read' : Grouping, read'.Ordered ∧ read'.first = ⟨t, c'.lastEnd⟩ ∧ read'.rest = all ↔
        read' = read := by
  obtain ⟨read, ahead, d, hrun, hclimb, hahead⟩ := binary_climbs hlast hend hc h hpairs 1
  obtain rfl : ahead = [] := by
    cases ahead with
    | nil => rfl
    | cons x ahead =>
      have hlt := hahead x rfl
      have hle := x.1.one_le_precedence
      omega
  have hrest : read.rest = all := by rw [hclimb.split, List.append_nil]
  obtain rfl : d = last := by
    have hpairs := hclimb.pairs
    cases hpairs
    rfl
  refine ⟨read, fun depth hdepth => ?_, fun read' => ⟨?_, ?_⟩⟩
  · have hsame := ((Grammar.tallies_whole hdepth).binary 1 _ (Nat.le_refl _)).same c hc.tallied
    rw [hsame, run_whole_binary hc, hrun]
  · rintro ⟨hordered, hfirst, hrest'⟩
    exact hclimb.ordered.unique hordered (hfirst.trans hclimb.first.symm) (hrest'.trans hrest.symm)
  · rintro rfl
    exact ⟨hclimb.ordered, hclimb.first, hrest⟩

theorem binary_ordered_difference :
    let word (text : String) (start stop : Nat) : Token :=
      ⟨.identifier text, text, ⟨start, stop⟩, false⟩
    let punct (p : Punct) (start stop : Nat) : Token := ⟨.punct p, p.text, ⟨start, stop⟩, false⟩
    let c (k : Nat) : Cursor := Nat.repeat Cursor.advance k ⟨word "a" 0 1,
      [punct .minus 2 3, punct .parenOpen 4 5, word "b" 5 6, punct .parenClose 6 7,
        punct .star 8 9, ⟨.integer 2, "2", ⟨10, 11⟩, false⟩, punct .minus 12 13, word "c" 14 15,
        punct .semicolon 15 16, ⟨.endOfFile, "", ⟨16, 16⟩, false⟩], 0⟩
    let name (text : String) (start stop stop' : Nat) : Grouping :=
      .operand ⟨.node ⟨start, stop⟩ (.identifier text), stop'⟩
    let two : Grouping := .operand ⟨.node ⟨10, 11⟩ (.literal (.integer 2)), 11⟩
    let read : Grouping := .join .sub (.join .sub (name "a" 0 1 1)
      (.join .mul (name "b" 5 6 7) two)) (name "c" 14 15 15)
    read.Ordered ∧ ((Grammar.ofDepth 12).binary 1).run (c 0) = .ok (read.tree, c 9) := by
  intro word punct c name two read
  have hordered : read.Ordered := by
    refine .join ?_ nofun (.join nofun ?_ (.operand _) (.join nofun nofun (.operand _) (.operand _)))
      (.operand _)
    · rintro _ ⟨⟩
      decide
    · rintro _ ⟨⟩
      decide
  have hinner : Grammar.whole.assignment.run (c 3) = .ok (.node ⟨5, 6⟩ (.identifier "b"), c 4) := rfl
  have hb : (c 2).TakesOperand _ (c 5) := .parenthesized rfl hinner rfl
  have hpairs : (c 1).TakesPairs read.rest (c 9) :=
    .cons rfl hb (.cons rfl (.literal rfl) (.cons rfl (.identifier rfl) (.nil (c 9))))
  have hend : ¬ (c 9).next.Continues := by
    rintro (hk | hk | ⟨-, hk | hk⟩) <;> cases hk
  obtain ⟨read', hrun, hread⟩ :=
    binary_ordered (c := c 0) ⟨_, rfl, rfl⟩ (.identifier rfl) hpairs rfl hend
  rw [← (hread read).mp ⟨hordered, rfl, rfl⟩] at hrun
  exact ⟨hordered, hrun 12 (by decide)⟩

end Parser

end SquirrelAnalyzer
