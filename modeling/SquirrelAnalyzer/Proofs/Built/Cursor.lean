import SquirrelAnalyzer.Arena.Parse
import SquirrelAnalyzer.Proofs.Store
import SquirrelAnalyzer.Proofs.Tree

namespace SquirrelAnalyzer

section Run

variable {α β σ : Type} {x y z : σ}

theorem run_bind {m : StateM σ α} {k : α → StateM σ β} {a : α} (h : m.run x = (a, y)) :
    (m >>= k).run x = (k a).run y := by
  rw [StateT.run_bind, h]
  rfl

theorem run_mapM_cons {s : α → StateM σ β} {a : α} {l : List α} {b : β} {l' : List β}
    (ha : (s a).run x = (b, y)) (hl : (l.mapM s).run y = (l', z)) :
    ((a :: l).mapM s).run x = (b :: l', z) := by
  rw [List.mapM_cons, run_bind ha, run_bind hl]
  rfl

theorem run_map_some {m : StateM σ β} {o : Option β} :
    (some <$> m).run x = (o, y) ↔ ∃ b, o = some b ∧ m.run x = (b, y) := by
  rw [StateT.run_map]
  constructor
  · intro h
    cases h
    exact ⟨_, rfl, rfl⟩
  · rintro ⟨b, rfl, h⟩
    rw [h]
    rfl

theorem run_mapM_some {s : α → StateM σ β} {a : α} {o : Option β} :
    ((some a).mapM s).run x = (o, y) ↔ ∃ b, o = some b ∧ (s a).run x = (b, y) := by
  rw [Option.mapM_some, run_map_some]

end Run

namespace Parser

open Arena

variable {α β γ δ : Type} {lines : LineMap} {first nodes : Array Node}

def Stores (lines : LineMap) (first nodes : Array Node) (p : Parser α) (d : Builder β)
    (s : α → StateM (Array Node) β) : Prop :=
  ∀ c, d c nodes lines =
    (p c).map fun x => ((((s x.1).run first).1, x.2), ((s x.1).run first).2)

def Built (lines : LineMap) (p : Parser α) (d : Builder β) (s : α → StateM (Array Node) β) :
    Prop := ∀ nodes, Stores lines nodes nodes p d s

def Bare (p : Parser α) (d : Builder α) : Prop :=
  ∀ c nodes lines, d c nodes lines = (p c).map (·, nodes)

namespace Bare

variable {p : Parser α} {d : Builder α} {k : α → Parser β} {k' : α → Builder β}

theorem pure (a : α) : Bare (Pure.pure a) (Pure.pure a) := fun _ _ _ => rfl

theorem bind (h : Bare p d) (hk : ∀ a, Bare (k a) (k' a)) : Bare (p >>= k) (d >>= k') := by
  intro c nodes lines
  show (d c nodes lines >>= fun x => k' x.1.1 x.1.2 x.2 lines) = (p c >>= fun x => k x.1 x.2).map _
  rw [h]
  cases p c with
  | error e => rfl
  | ok x => exact hk x.1 x.2 nodes lines

theorem peek : Bare peek peek := fun _ _ _ => rfl

theorem peekSecond : Bare peekSecond peekSecond := fun _ _ _ => rfl

theorem advance : Bare advance advance := fun _ _ _ => rfl

theorem skip (ps : List Punct) : Bare (skip ps) (skip ps) := fun _ _ _ => rfl

theorem fail (expected : Expected) : Bare (fail expected : Parser α) (fail expected) :=
  fun _ _ _ => rfl

theorem at? (k : Token.Kind) : Bare (at? k) (at? k) := peek.bind fun _ => pure _

theorem atTerminator : Bare atTerminator atTerminator := peek.bind fun _ => pure _

theorem eat (k : Token.Kind) : Bare (eat k) (eat k) := by
  refine (at? k).bind fun b => ?_
  cases b with
  | true => exact advance.bind fun _ => pure _
  | false => exact pure _

theorem expectPunct (p : Punct) : Bare (expectPunct p) (expectPunct p) := by
  refine (at? _).bind fun b => ?_
  cases b with
  | true => exact advance
  | false => exact fail _

theorem expectKeyword (k : Keyword) : Bare (expectKeyword k) (expectKeyword k) := by
  refine (at? _).bind fun b => ?_
  cases b with
  | true => exact advance
  | false => exact fail _

theorem stores {s : β → StateM (Array Node) γ} {k' : α → Builder γ} (h : Bare p d)
    (hk : ∀ a, Stores lines first nodes (k a) (k' a) s) :
    Stores lines first nodes (p >>= k) (d >>= k') s := by
  intro c
  show (d c nodes lines >>= fun x => k' x.1.1 x.1.2 x.2 lines) = (p c >>= fun x => k x.1 x.2).map _
  rw [h]
  cases p c with
  | error e => rfl
  | ok x => exact hk x.1 x.2

end Bare

namespace Stores

variable {p : Parser α} {d : Builder β} {s : α → StateM (Array Node) β} {k : α → Parser γ}
  {k' : β → Builder δ} {s' : γ → StateM (Array Node) δ}

theorem bind {before : Array Node} (h : Stores lines before nodes p d s)
    (hk : ∀ a b nodes', (s a).run before = (b, nodes') →
      Stores lines first nodes' (k a) (k' b) s') :
    Stores lines first nodes (p >>= k) (d >>= k') s' := by
  intro c
  show (d c nodes lines >>= fun x => k' x.1.1 x.1.2 x.2 lines) = (p c >>= fun x => k x.1 x.2).map _
  rw [h c]
  cases p c with
  | error e => rfl
  | ok x => exact hk x.1 _ _ rfl x.2

theorem pure {a : α} {b : β} (h : (s a).run first = (b, nodes)) :
    Stores lines first nodes (Pure.pure a) (Pure.pure b) s := by
  intro c
  show Except.ok ((b, c), nodes) = Except.ok ((((s a).run first).1, c), ((s a).run first).2)
  rw [h]

theorem fail {expected : Expected} :
    Stores lines first nodes (fail expected : Parser α) (fail expected) s := fun _ => rfl

theorem node {start : Nat} {shape : Shape Tree} {shape' : Shape NodeId}
    (h : (shape.traverse (store lines)).run first = (shape', nodes)) :
    Stores lines first nodes (node start shape) (node start shape') (store lines) := by
  intro c
  show Except.ok _ = Except.ok _
  dsimp only
  rw [store_node, StateT.run_bind, h]
  rfl

theorem start {t : Tree} {id : NodeId} {k : Nat → Parser γ} {k' : Nat → Builder δ}
    (h : StartsAt nodes t id) (hk : Stores lines first nodes (k t.start) (k' t.start) s') :
    Stores lines first nodes (Sink.start t >>= k) (Sink.start id >>= k') s' := by
  intro c
  show k' nodes[id.index]!.location.startOffset c nodes lines = _
  rw [h.2]
  exact hk c

end Stores

namespace Built

variable {p : Parser α} {d : Builder β} {s : α → StateM (Array Node) β} {k : α → Parser γ}
  {k' : β → Builder δ} {s' : γ → StateM (Array Node) δ}

theorem bind (h : Built lines p d s) (hk : ∀ a b nodes', (s a).run nodes = (b, nodes') →
    Stores lines first nodes' (k a) (k' b) s') :
    Stores lines first nodes (p >>= k) (d >>= k') s' := (h nodes).bind hk

theorem bind_pure {f : α → γ} {f' : β → δ} (h : Built lines p d s)
    (hs : ∀ a b nodes', (s a).run nodes = (b, nodes') → (s' (f a)).run first = (f' b, nodes')) :
    Stores lines first nodes (f <$> p) (f' <$> d) s' := by
  show Stores lines first nodes (p >>= fun a => Pure.pure (f a)) (d >>= fun b => Pure.pure (f' b)) s'
  exact h.bind fun a b nodes' hab => .pure (hs a b nodes' hab)

theorem map {f : α → γ} {f' : β → δ} (h : Built lines p d s) (hs : ∀ a, s' (f a) = f' <$> s a) :
    Built lines (f <$> p) (f' <$> d) s' := by
  refine fun nodes => h.bind_pure fun a b nodes' hab => ?_
  rw [hs, StateT.run_map, hab]
  rfl

theorem pure {a : α} {b : β} (h : s a = Pure.pure b) :
    Built lines (Pure.pure a) (Pure.pure b) s := fun _ => .pure (by rw [h]; rfl)

theorem some (h : Built lines p d s) :
    Built lines (do return Option.some (← p)) (do return Option.some (← d)) (Option.mapM s) :=
  h.map fun a => by rw [Option.mapM_some]

theorem none : Built lines (Pure.pure (Option.none : Option α)) (Pure.pure Option.none)
    (Option.mapM s) := pure rfl

theorem manyUpTo {item : Parser (Option α)} {item' : Builder (Option β)}
    (h : Built lines item item' (Option.mapM s)) (n : Nat) :
    Built lines (manyUpTo item n) (manyUpTo item' n) (List.mapM s) := by
  induction n with
  | zero => exact pure rfl
  | succ n ih =>
    intro nodes
    refine h.bind fun o o' nodes' ho => ?_
    cases o with
    | none =>
      cases ho
      exact .pure rfl
    | some a =>
      obtain ⟨b, rfl, ha⟩ := run_mapM_some.mp ho
      exact ih.bind fun l l' nodes'' hl => .pure (run_mapM_cons ha hl)

theorem separatedUpTo {stop : Parser Bool} {stop' : Builder Bool} (hstop : Bare stop stop')
    (h : Built lines p d s) (n : Nat) :
    Built lines (separatedUpTo stop p n) (separatedUpTo stop' d n) (List.mapM s) := by
  induction n with
  | zero => exact pure rfl
  | succ n ih =>
    intro nodes
    refine hstop.stores fun b => ?_
    cases b with
    | true => exact .pure rfl
    | false =>
      refine h.bind fun a a' nodes' ha => (Bare.eat _).stores fun b => ?_
      cases b with
      | true => exact ih.bind fun l l' nodes'' hl => .pure (run_mapM_cons ha hl)
      | false => exact .pure (run_mapM_cons ha rfl)

theorem of_left {p : Nat → Parser α} {d : Nat → Builder β} (h : ∀ n, Built lines (p n) (d n) s) :
    Built lines (do p ((← get).later.length + 1)) (do d ((← get).later.length + 1)) s :=
  fun nodes c => h (c.later.length + 1) nodes c

theorem many {item : Parser (Option α)} {item' : Builder (Option β)}
    (h : Built lines item item' (Option.mapM s)) :
    Built lines (many item) (many item') (List.mapM s) := of_left h.manyUpTo

theorem separated {stop : Parser Bool} {stop' : Builder Bool} (hstop : Bare stop stop')
    (h : Built lines p d s) : Built lines (separated stop p) (separated stop' d) (List.mapM s) :=
  of_left fun n => h.separatedUpTo hstop n

theorem listUntil {close : Punct} (h : Built lines p d s) :
    Built lines (listUntil close p) (listUntil close d) (List.mapM s) := fun _ =>
  (h.separated (Bare.at? _)).bind fun _ _ _ hl =>
    (Bare.expectPunct close).stores fun _ => .pure hl

theorem braced {separators : List Punct} (h : Built lines p d s) :
    Built lines (braced separators p) (braced separators d) (List.mapM s) := by
  refine many fun nodes => (Bare.skip _).stores fun _ => (Bare.eat _).stores fun b => ?_
  cases b with
  | true => exact .pure rfl
  | false => exact h.some nodes

end Built

def keep (s : α → StateM (Array Node) β) (a : α) : Option α → StateM (Array Node) (Option β)
  | some a' => some <$> s a'
  | none => s a >>= fun _ => return none

namespace Stores

variable {s : α → StateM (Array Node) β} {a : α} {b : β}

theorem kept (h : (s a).run first = (b, nodes)) :
    Stores lines first nodes (Pure.pure none) (Pure.pure none) (keep s a) := by
  refine pure ?_
  rw [keep, run_bind h]
  rfl

theorem grown {start : Nat} {t : Tree} {shape : Shape Tree} {shape' : Shape NodeId}
    (h : (shape.traverse (store lines)).run first = (shape', nodes)) :
    Stores lines first nodes (do return some (← Parser.node start shape))
      (do return some (← Parser.node start shape')) (keep (store lines) t) :=
  (Stores.node h).bind fun _ _ _ ht => pure (run_map_some.mpr ⟨_, rfl, ht⟩)

theorem step {o : Option α} {o' : Option β} {nodes' : Array Node}
    (h : (s a).run first = (b, nodes)) (ho : (keep s a o).run first = (o', nodes')) :
    o = none ∧ o' = none ∧ nodes' = nodes ∨
      ∃ a' b', o = some a' ∧ o' = some b' ∧ (s a').run first = (b', nodes') := by
  cases o with
  | none =>
    rw [keep, run_bind h] at ho
    cases ho
    exact .inl ⟨rfl, rfl, rfl⟩
  | some a' =>
    obtain ⟨b', rfl, hs⟩ := run_map_some.mp ho
    exact .inr ⟨a', b', rfl, rfl, hs⟩

theorem iterateUpTo {f : α → Parser (Option α)} {f' : β → Builder (Option β)}
    (h : ∀ a b nodes, (s a).run first = (b, nodes) →
      Stores lines first nodes (f a) (f' b) (keep s a)) (n : Nat)
    (hs : (s a).run first = (b, nodes)) :
    Stores lines first nodes (iterateUpTo f n a) (iterateUpTo f' n b) s := by
  induction n generalizing a b nodes with
  | zero => exact pure hs
  | succ n ih =>
    refine (h a b nodes hs).bind fun o o' nodes' ho => ?_
    obtain ⟨rfl, rfl, rfl⟩ | ⟨a', b', rfl, rfl, hs'⟩ := step hs ho
    · exact pure hs
    · exact ih hs'

theorem iterate {f : α → Parser (Option α)} {f' : β → Builder (Option β)}
    (h : ∀ a b nodes, (s a).run first = (b, nodes) →
      Stores lines first nodes (f a) (f' b) (keep s a)) (hs : (s a).run first = (b, nodes)) :
    Stores lines first nodes (iterate f a) (iterate f' b) s :=
  fun c => iterateUpTo h (c.later.length + 1) hs c

end Stores

variable (lines)

theorem name_built (start : Nat) (name : String) :
    Built lines (node start (.identifier name)) (node start (.identifier name)) (store lines) :=
  fun _ => .node rfl

theorem literal_built (start : Nat) (value : Literal) :
    Built lines (node start (.literal value)) (node start (.literal value)) (store lines) :=
  fun _ => .node rfl

theorem identifier_built : Built lines identifier identifier (store lines) := by
  refine fun nodes => Bare.peek.stores fun t => ?_
  split
  · exact Bare.advance.stores fun t => name_built lines _ _ nodes
  · exact .fail

theorem propertyName_built : Built lines propertyName propertyName (store lines) := by
  refine fun nodes => Bare.peek.stores fun t => ?_
  split
  · exact Bare.advance.stores fun t => name_built lines _ _ nodes
  · exact identifier_built lines nodes

def storeQualified (x : Option Tree × Tree) : StateM (Array Node) (Option NodeId × NodeId) := do
  let qualifier ← x.1.mapM (store lines)
  return (qualifier, ← store lines x.2)

variable {lines}

theorem run_storeQualified {qualifier : Option Tree} {id : Tree} {qualifier' : Option NodeId}
    {id' : NodeId} : (storeQualified lines (qualifier, id)).run first = ((qualifier', id'), nodes) ↔
      ∃ nodes', (qualifier.mapM (store lines)).run first = (qualifier', nodes') ∧
        (store lines id).run nodes' = (id', nodes) := by
  constructor
  · intro h
    cases h
    exact ⟨_, rfl, rfl⟩
  · rintro ⟨nodes', hqualifier, hid⟩
    rw [storeQualified, run_bind hqualifier, run_bind hid]
    rfl

theorem qualified_stores {owner : Tree} {owner' : NodeId} {x : Option Tree × Tree}
    (h : (store lines owner).run first = (owner', nodes)) :
    Stores lines first nodes (do return some (some owner, ← identifier))
      (do return some (some owner', ← identifier)) (keep (storeQualified lines) x) := by
  refine (identifier_built lines).bind fun id id' nodes' hid => .pure ?_
  have hstored := run_storeQualified.mpr ⟨_, run_mapM_some.mpr ⟨_, rfl, h⟩, hid⟩
  exact run_map_some.mpr ⟨_, rfl, hstored⟩

theorem qualifyStep_stores {separator : Punct} {x : Option Tree × Tree}
    {x' : Option NodeId × NodeId} (h : (storeQualified lines x).run first = (x', nodes)) :
    Stores lines first nodes (qualifyStep separator x) (qualifyStep separator x')
      (keep (storeQualified lines) x) := by
  obtain ⟨qualifier, id⟩ := x
  obtain ⟨qualifier', id'⟩ := x'
  obtain ⟨nodes', hqualifier, hid⟩ := run_storeQualified.mp h
  refine (Bare.eat _).stores fun b => ?_
  cases b with
  | false => exact .kept h
  | true =>
    cases qualifier with
    | none =>
      cases hqualifier
      exact (Stores.pure hid).bind fun _ _ _ => qualified_stores
    | some object =>
      obtain ⟨object', rfl, hobject⟩ := run_mapM_some.mp hqualifier
      have hstart := (startsAt_store hobject).grows (store_grows lines id) hid
      refine .start hstart ((Stores.node ?_).bind fun _ _ _ => qualified_stores)
      rw [Shape.traverse, run_bind hobject, run_bind hid]
      rfl

theorem qualifiedName_built (lines : LineMap) (separator : Punct) :
    Built lines (qualifiedName separator) (qualifiedName separator) (storeQualified lines) :=
  fun _ => (identifier_built lines).bind fun _ _ _ hfirst =>
    .iterate (fun _ _ _ h => qualifyStep_stores h) (run_storeQualified.mpr ⟨_, rfl, hfirst⟩)

end Parser

end SquirrelAnalyzer
