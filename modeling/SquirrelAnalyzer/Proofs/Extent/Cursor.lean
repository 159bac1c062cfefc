import SquirrelAnalyzer.Proofs.Abreast.Cursor

/-!
Where member expressions end: behind the property, or behind the separator that follows the
property when the expression is the owner in a qualified name.
-/

namespace SquirrelAnalyzer

namespace Token

def Kind.isSeparator : Kind → Bool
  | .punct .scope | .punct .dot => true
  | _ => false

end Token

namespace Shape

variable {α : Type}

def qualified? : Shape α → Option (α × α)
  | functionDeclaration (some qualifier) id _ _ | classDeclaration (some qualifier) id _ _ =>
    some (qualifier, id)
  | _ => none

def unqualified (s : Shape α) : List α :=
  if s.qualified?.isSome then (s.children .full).tail else s.children .full

def isPlain : Shape α → Bool
  | memberExpression .. | functionDeclaration (some _) .. | classDeclaration (some _) .. => false
  | _ => true

theorem qualified?_of_isPlain {s : Shape α} (h : s.isPlain = true) : s.qualified? = none := by
  unfold qualified?
  split
  · cases h
  · cases h
  · rfl

theorem unqualified_of_isPlain {s : Shape α} (h : s.isPlain = true) :
    s.unqualified = s.children .full := by
  rw [unqualified, qualified?_of_isPlain h]
  rfl

end Shape

namespace Tree

inductive Owns (tokens : List Token) : Tree → Token → Token → Prop
  | name {t k : Token} {name : String} : Owns tokens (.node t.range (.identifier name)) t k
  | member {object : Tree} {t k t' k' : Token} {name : String} (hobject : object.Owns tokens t k)
      (hnext : [t, k, t'] <:+: tokens) (hseparator : k.kind.isSeparator = true) :
      Owns tokens (.node ⟨object.start, max k'.span.stop object.start⟩
        (.memberExpression object (.node t'.range (.identifier name)) false)) t' k'

inductive Tight (tokens : List Token) : Tree → Prop
  | node {span : Span} {shape : Shape Tree}
      (hmember : ∀ object property computed, shape = .memberExpression object property computed →
        span.start = object.start ∧ (computed = false →
          ∃ stop, span.stop = max stop span.start ∧ property.span.stop = max stop property.start))
      (howner : ∀ owner id, shape.qualified? = some (owner, id) → ∃ t k k', [t, k, k'] <:+: tokens ∧
        k.kind.isSeparator = true ∧ owner.Owns tokens t k ∧
        ∃ name, id = .node k'.range (.identifier name))
      (inner : ∀ t ∈ shape.unqualified, t.Tight tokens) : (Tree.node span shape).Tight tokens

theorem Tight.plain {tokens : List Token} {span : Span} {shape : Shape Tree}
    (hshape : shape.isPlain = true) (h : ∀ t ∈ shape.children .full, t.Tight tokens) :
    (Tree.node span shape).Tight tokens := by
  constructor
  · rintro object property computed rfl
    cases hshape
  · intro owner id hqualified
    rw [Shape.qualified?_of_isPlain hshape] at hqualified
    cases hqualified
  · rwa [Shape.unqualified_of_isPlain hshape]

theorem Tight.leaf {tokens : List Token} {span : Span} {shape : Shape Tree}
    (hshape : shape.isPlain = true) (h : shape.children .full = []) :
    (Tree.node span shape).Tight tokens :=
  .plain hshape (h ▸ List.forall_mem_nil _)

end Tree

def Cursor.Within (tokens : List Token) (c : Cursor) : Prop := c.next :: c.later <:+ tokens

namespace Parser

open Cursor

variable {α β : Type} {tokens : List Token}

def Builds (tokens : List Token) (m : Parser α) (F : α → Prop) : Prop :=
  Ensures (Within tokens) m fun a c => F a ∧ c.Within tokens

theorem Onward.builds {m : Parser α} (h : Onward m) : Builds tokens m fun _ => True :=
  fun c a c' hc hr => ⟨trivial, (h.left c a c' hr).trans hc⟩

namespace Builds

variable {m : Parser α} {k : α → Parser β} {F : α → Prop} {G : β → Prop}

theorem pure {a : α} (h : F a) : Builds tokens (Pure.pure a) F := Ensures.pure fun _ hc => ⟨h, hc⟩

theorem fail {expected : Expected} : Builds tokens (Parser.fail expected : Parser α) F :=
  Ensures.fail

theorem bind (hm : Builds tokens m F) (hk : ∀ a, F a → Builds tokens (k a) G) :
    Builds tokens (m >>= k) G := Ensures.bind_fact hm hk

theorem mono {F' : α → Prop} (h : Builds tokens m F) (hF : ∀ a, F a → F' a) :
    Builds tokens m F' := Ensures.mono h (fun _ hc => hc) fun a _ ha => ⟨hF a ha.1, ha.2⟩

theorem after (hm : Onward m) (hk : ∀ a, Builds tokens (k a) G) : Builds tokens (m >>= k) G :=
  hm.builds.bind fun a _ => hk a

theorem map {f : α → β} (hm : Builds tokens m F) (hf : ∀ a, F a → G (f a)) :
    Builds tokens (f <$> m) G := by
  rw [← bind_pure_comp]
  exact hm.bind fun a ha => pure (hf a ha)

theorem some {F : Tree → Prop} {m : Parser Tree} (hm : Builds tokens m F) :
    Builds tokens (do return Option.some (← m)) fun o => ∀ t ∈ o, F t :=
  hm.bind fun _ ht => pure fun _ hx => Option.mem_some.mp hx ▸ ht

theorem map_some {F : Tree → Prop} {m : Parser Tree} (hm : Builds tokens m F) :
    Builds tokens (Option.some <$> m) fun o => ∀ t ∈ o, F t :=
  hm.map fun _ ht _ hx => Option.mem_some.mp hx ▸ ht

theorem none {F : Tree → Prop} : Builds tokens (return (Option.none : Option Tree)) fun o =>
    ∀ t ∈ o, F t := pure nofun

theorem many {F : Tree → Prop} {item : Parser (Option Tree)}
    (h : Builds tokens item fun o => ∀ t ∈ o, F t) :
    Builds tokens (Parser.many item) fun l => ∀ t ∈ l, F t := by
  intro c l c' hc hr
  exact manyUpTo_ensures (I := fun _ => Within tokens) (fun _ => h) (c.later.length + 1) [] c l c' hc hr

theorem separatedUpTo {stop : Parser Bool} {item : Parser α} (hstop : Onward stop)
    (h : Builds tokens item F) (n : Nat) :
    Builds tokens (Parser.separatedUpTo stop item n) fun l => ∀ t ∈ l, F t := by
  induction n with
  | zero => exact pure nofun
  | succ n ih =>
    refine after hstop fun b => ?_
    cases b with
    | true => exact pure nofun
    | false =>
      refine h.bind fun a ha => after Onward.eat fun b => ?_
      cases b with
      | true => exact ih.bind fun l hl => pure (List.forall_mem_cons.mpr ⟨ha, hl⟩)
      | false => exact pure (List.forall_mem_singleton.mpr ha)

theorem separated {stop : Parser Bool} {item : Parser α} (hstop : Onward stop)
    (h : Builds tokens item F) :
    Builds tokens (Parser.separated stop item) fun l => ∀ t ∈ l, F t :=
  fun c => separatedUpTo hstop h (c.later.length + 1) c

theorem listUntil {close : Punct} {item : Parser α} (h : Builds tokens item F) :
    Builds tokens (Parser.listUntil close item) fun l => ∀ t ∈ l, F t :=
  (separated Onward.at? h).bind fun _ hl => after Onward.expectPunct fun _ => pure hl

theorem braced {F : Tree → Prop} {separators : List Punct} {item : Parser Tree}
    (h : Builds tokens item F) :
    Builds tokens (Parser.braced separators item) fun l => ∀ t ∈ l, F t := by
  refine many (after Onward.skip fun _ => after Onward.eat fun b => ?_)
  cases b with
  | true => exact none
  | false => exact h.some

theorem iterate {step : α → Parser (Option α)}
    (h : ∀ a, F a → Builds tokens (step a) fun o => ∀ b ∈ o, F b) {a : α} (ha : F a) :
    Builds tokens (Parser.iterate step a) F := by
  refine (iterate_ensures (I := fun a c => F a ∧ c.Within tokens) (fun a => ?_) a).of_imp
    fun c hc => ⟨ha, hc⟩
  refine Ensures.fact fun ha => Ensures.mono (h a ha) (fun _ hc => hc) fun o c hc => ⟨?_, hc.2⟩
  cases o with
  | none => exact ha
  | some b => exact hc.1 b rfl

theorem node_at {start : Nat} {shape : Shape Tree} (hshape : shape.isPlain = true)
    (h : ∀ t ∈ shape.children .full, t.Tight tokens) :
    Builds tokens (Parser.node start shape) fun x => x.start = start ∧ x.Tight tokens := by
  rintro c _ _ hc ⟨⟩
  exact ⟨⟨rfl, .plain hshape h⟩, hc⟩

theorem node {start : Nat} {shape : Shape Tree} (hshape : shape.isPlain = true)
    (h : ∀ t ∈ shape.children .full, t.Tight tokens) :
    Builds tokens (Parser.node start shape) (Tree.Tight tokens) :=
  (node_at hshape h).mono fun _ hx => hx.2

theorem leaf {start : Nat} {shape : Shape Tree} (hshape : shape.isPlain = true)
    (h : shape.children .full = []) : Builds tokens (Parser.node start shape) (Tree.Tight tokens) :=
  node hshape (h ▸ List.forall_mem_nil _)

theorem identifier : Builds tokens Parser.identifier (Tree.Tight tokens) := by
  refine after Onward.peek fun t => ?_
  split
  · exact after Onward.advance fun t => leaf rfl rfl
  · exact fail

theorem propertyName : Builds tokens Parser.propertyName (Tree.Tight tokens) := by
  refine after Onward.peek fun t => ?_
  split
  · exact after Onward.advance fun t => leaf rfl rfl
  · exact identifier

end Builds

section

variable {before : List Token} {t : Token} {c : Cursor}

structure Took (tokens before : List Token) (t : Token) (c : Cursor) : Prop where
  split : tokens = before ++ t :: c.next :: c.later
  lastEnd : c.lastEnd = t.span.stop

theorem took_advance (htokens : Token.Ended tokens) (hc : tokens = before ++ c.next :: c.later)
    (hk : c.next.kind ≠ .endOfFile) : Took tokens before c.next c.advance := by
  obtain ⟨next, later, lastEnd⟩ := c
  have hended : Token.Ended (next :: later) := htokens.of_suffix ⟨before, hc.symm⟩
  obtain ⟨k, ks, rfl, -⟩ := hended.exists_later hk
  exact ⟨hc, rfl⟩

def Named (tokens : List Token) (x : Option Tree × Tree) (c : Cursor) : Prop :=
  ∃ before t name, Took tokens before t c ∧ x.2 = .node t.range (.identifier name) ∧
    ∀ owner ∈ x.1, ∃ u k, [u, k] <:+ before ∧ k.kind.isSeparator = true ∧ owner.Owns tokens u k

theorem identifier_named (htokens : Token.Ended tokens) {owner : Option Tree}
    (howner : ∀ o ∈ owner, ∃ u k, [u, k] <:+ before ∧ k.kind.isSeparator = true ∧
      o.Owns tokens u k) :
    Ensures (fun c => tokens = before ++ c.next :: c.later) identifier fun id =>
      Named tokens (owner, id) := by
  refine Ensures.bind Ensures.peek fun t => ?_
  split
  · next name hk =>
    rintro c _ _ ⟨rfl, hc⟩ ⟨⟩
    have htook := took_advance htokens hc (hk ▸ nofun)
    refine ⟨before, c.next, name, htook, ?_, howner⟩
    rw [htook.lastEnd]
    rfl
  · exact Ensures.fail

theorem eat_took (htokens : Token.Ended tokens) {k : Token.Kind} (hk : k.isSeparator = true) :
    Ensures (Took tokens before t) (eat k) fun b c => if b = true then
      ∃ u, u.kind.isSeparator = true ∧ Took tokens (before ++ [t]) u c else Took tokens before t c := by
  refine eat_cases ?_ fun c _ hc => hc
  rintro c _ _ ⟨hkind, hc⟩ ⟨⟩
  have hsplit : tokens = (before ++ [t]) ++ c.next :: c.later := by
    rw [hc.split, List.append_assoc]
    rfl
  refine ⟨c.next, hkind ▸ hk, took_advance htokens hsplit ?_⟩
  intro heof
  rw [← hkind, heof] at hk
  cases hk

theorem qualify_named (htokens : Token.Ended tokens) {separator : Punct}
    (hseparator : (Token.Kind.punct separator).isSeparator = true) {owner : Option Tree}
    {name : String} (howner : ∀ o ∈ owner, ∃ u k, [u, k] <:+ before ∧ k.kind.isSeparator = true ∧
      o.Owns tokens u k) :
    Ensures (Took tokens before t) (qualifyStep separator (owner, .node t.range (.identifier name)))
      fun x => Named tokens (x.getD (owner, .node t.range (.identifier name))) := by
  have hname (k : Token) (hk : k.kind.isSeparator = true) (o : Tree) (howns : o.Owns tokens t k) :
      Ensures (Took tokens (before ++ [t]) k) (do return some (some o, ← identifier)) fun x =>
        Named tokens (x.getD (owner, .node t.range (.identifier name))) := by
    refine Ensures.bind (Q := fun id => Named tokens (some o, id)) ?_ fun id =>
      Ensures.pure fun _ hc => hc
    have hfront (x : Tree) (hx : x ∈ some o) : ∃ u v, [u, v] <:+ before ++ [t, k] ∧
        v.kind.isSeparator = true ∧ x.Owns tokens u v := by
      obtain rfl := Option.mem_some.mp hx
      exact ⟨t, k, List.suffix_append before [t, k], hk, howns⟩
    refine (identifier_named htokens hfront).of_imp fun c hc => ?_
    rw [hc.split]
    simp
  refine Ensures.bind (eat_took htokens hseparator) fun b => ?_
  cases b with
  | false => exact Ensures.pure fun c hc => ⟨before, t, name, hc, rfl, howner⟩
  | true =>
    rintro c x c' ⟨k, hk, htook⟩ hr
    cases owner with
    | none =>
      refine Ensures.bind_fact (Ensures.pure fun _ hc => ⟨?_, hc⟩) (hname k hk) c x c' htook hr
      exact .name
    | some object =>
      obtain ⟨u, v, huv, hv, hobject⟩ := howner object rfl
      refine Ensures.start (Ensures.bind_fact (Q := fun _ => Took tokens (before ++ [t]) k) ?_
        (hname k hk)) c x c' htook hr
      rintro c _ _ hc ⟨⟩
      refine ⟨?_, hc⟩
      rw [hc.lastEnd]
      obtain ⟨front, rfl⟩ := huv
      refine .member hobject ⟨front, k :: c.next :: c.later, ?_⟩ hv
      rw [hc.split]
      simp

theorem qualifiedName_named (htokens : Token.Ended tokens) {separator : Punct}
    (hseparator : (Token.Kind.punct separator).isSeparator = true) :
    Ensures (Within tokens) (qualifiedName separator) (Named tokens) := by
  refine Ensures.bind (Q := fun first => Named tokens (none, first)) ?_ fun first => ?_
  · rintro c id c' ⟨before, hc⟩ hr
    exact identifier_named htokens (by simp) c id c' hc.symm hr
  · refine iterate_ensures (I := Named tokens) ?_ (none, first)
    rintro ⟨owner, id⟩ c x c' ⟨before, t, name, htook, rfl, howner⟩ hr
    exact qualify_named htokens hseparator howner c x c' htook hr

def Qualifies (tokens : List Token) (x : Option Tree × Tree) : Prop :=
  (∀ owner ∈ x.1, ∃ t k k', [t, k, k'] <:+: tokens ∧ k.kind.isSeparator = true ∧
    owner.Owns tokens t k ∧ ∃ name, x.2 = .node k'.range (.identifier name)) ∧ x.2.Tight tokens

theorem qualifiedName_builds (htokens : Token.Ended tokens) {separator : Punct}
    (hseparator : (Token.Kind.punct separator).isSeparator = true) :
    Builds tokens (qualifiedName separator) (Qualifies tokens) := by
  refine Ensures.mono (qualifiedName_named htokens hseparator) (fun _ hc => hc) ?_
  rintro ⟨owner, id⟩ c ⟨before, t, name, htook, rfl, howner⟩
  refine ⟨⟨fun o ho => ?_, .leaf rfl rfl⟩, ?_⟩
  · obtain ⟨u, k, ⟨front, rfl⟩, hk, howns⟩ := howner o ho
    refine ⟨u, k, t, ⟨front, c.next :: c.later, ?_⟩, hk, howns, name, rfl⟩
    rw [htook.split]
    simp
  · refine ⟨before ++ [t], ?_⟩
    rw [htook.split]
    simp

theorem Qualifies.node {owner : Option Tree} {id : Tree} {start : Nat} {shape : Shape Tree}
    (h : Qualifies tokens (owner, id)) (parts : List Tree)
    (hqualified : shape.qualified? = owner.map (·, id))
    (hchildren : shape.children .full = owner.toList ++ id :: parts)
    (hmember : ∀ object property computed, shape ≠ .memberExpression object property computed)
    (hparts : ∀ t ∈ parts, t.Tight tokens) :
    Builds tokens (node start shape) (Tree.Tight tokens) := by
  rintro c _ _ hc ⟨⟩
  refine ⟨?_, hc⟩
  constructor
  · exact fun object property computed heq => absurd heq (hmember object property computed)
  · intro o i hoi
    rw [hqualified] at hoi
    obtain ⟨o', rfl, heq⟩ := Option.map_eq_some_iff.mp hoi
    cases heq
    exact h.1 o rfl
  · have hunqualified : shape.unqualified = id :: parts := by
      rw [Shape.unqualified, hqualified, hchildren]
      cases owner <;> rfl
    rw [hunqualified]
    exact List.forall_mem_cons.mpr ⟨h.2, hparts⟩

end

end Parser

end SquirrelAnalyzer
