import SquirrelAnalyzer.Proofs.Slots

namespace SquirrelAnalyzer

namespace Arena

variable {a : Arena} {b b' x y : Branch} {n : Nat}

def Under (a : Arena) (b b' : Branch) : Prop :=
  ∃ c ∈ a.children .full b.target, a.Below (b.child c) b'

inductive Precedes (a : Arena) (x y : Branch) : Prop
  | under (h : a.Under x y)
  | apart {p : Branch} {c d : NodeId} (hcd : [c, d].Sublist (a.children .full p.target))
      (hx : a.Below (p.child c) x) (hy : a.Below (p.child d) y)

theorem Under.below (h : a.Under b b') : a.Below b b' := by
  obtain ⟨c, hc, h⟩ := h
  exact .child hc h

theorem Below.eq_or_under (h : a.Below b b') : b' = b ∨ a.Under b b' := by
  cases h with
  | refl => exact .inl rfl
  | child hc h => exact .inr ⟨_, hc, h⟩

theorem Ascending.index_le_of_below (ha : a.Ascending) (h : a.Below b b') :
    b'.target.index ≤ b.target.index := by
  induction h with
  | refl b => exact Nat.le_refl _
  | @child b b' c hc h ih => exact Nat.le_trans ih (Nat.le_of_lt (ha b.target c hc))

theorem Ascending.index_lt_of_under (ha : a.Ascending) (h : a.Under b b') :
    b'.target.index < b.target.index := by
  obtain ⟨c, hc, h⟩ := h
  exact Nat.lt_of_le_of_lt (ha.index_le_of_below h) (ha b.target c hc)

theorem Forest.before {lo hi : Nat} {ids : List NodeId} (h : a.Forest lo ids hi) {c d : NodeId}
    (hcd : [c, d].Sublist ids) : ∃ m low, a.Subtree low d m ∧ c.index < low := by
  induction h with
  | nil lo => cases hcd
  | @cons lo hi id n ids hn hspan inner rest _ ihr =>
    cases hcd with
    | cons _ hcd => exact ihr hcd
    | cons_cons _ hd =>
      obtain ⟨m, low, hm, hle, -⟩ := rest.subtree (List.singleton_sublist.mp hd)
      exact ⟨m, low, hm, hle⟩

theorem Extends.subtree {a' : Arena} (h : a.Extends a') {low : Nat} {id : NodeId} {node : Node}
    (hn : a.Subtree low id node) : a'.Subtree low id node where
  node := (h.kept id (lt_size_of_get? hn.node)).trans hn.node
  span c hc l hl := by
    have hlt := (hn.inner.bounds hc).2
    have hid := lt_size_of_get? hn.node
    refine hn.span c hc l ?_
    rw [← hl, location?, location?, h.kept c (by omega)]
  inner := h.forest hn.inner

structure Sequential (a : Arena) : Prop where
  ascending : a.Ascending
  behind : ∀ {id c d}, [c, d].Sublist (a.children .full id) →
    ∃ n low, a.Subtree low d n ∧ c.index < low

theorem Parsed.sequential (ha : a.Parsed) : a.Sequential where
  ascending := ha.ascending ha.whole
  behind {id c d} hcd := by
    obtain ⟨low, n, hn, -⟩ := ha.subtree_of_child (hcd.mem List.mem_cons_self)
    rw [hn.children_eq] at hcd
    exact hn.inner.before hcd

namespace Sequential

theorem index_lt_of_apart (ha : a.Sequential) {p : Branch} {c d : NodeId}
    (hcd : [c, d].Sublist (a.children .full p.target)) (hx : a.Below (p.child c) x)
    (hy : a.Below (p.child d) y) : x.target.index < y.target.index := by
  obtain ⟨n, low, hn, hlt⟩ := ha.behind hcd
  have hxup : x.target.index ≤ c.index := ha.ascending.index_le_of_below hx
  have hylow := (hy.within (b := p.child d) hn).1
  omega

theorem not_precedes (ha : a.Sequential) (h : a.Precedes x y) : ¬ a.Precedes y x := by
  intro h'
  cases h with
  | under h =>
    cases h' with
    | under h' =>
      exact Nat.lt_asymm (ha.ascending.index_lt_of_under h) (ha.ascending.index_lt_of_under h')
    | apart hcd hy hx => exact Nat.lt_irrefl _ (ha.index_lt_of_apart hcd hy (hx.trans h.below))
  | apart hcd hx hy =>
    cases h' with
    | under h' => exact Nat.lt_irrefl _ (ha.index_lt_of_apart hcd hx (hy.trans h'.below))
    | apart hcd' hy' hx' =>
      exact Nat.lt_asymm (ha.index_lt_of_apart hcd hx hy) (ha.index_lt_of_apart hcd' hy' hx')

end Sequential

end Arena

theorem SourceUnit.ReadFrom.sequential {u : SourceUnit} {config : Config} {base : Arena}
    (h : u.ReadFrom config base) (hascending : u.arena.Ascending) : u.arena.Sequential where
  ascending := hascending
  behind {id c d} hcd := by
    have harena := h.unit.arena
    by_cases hid : id.index < base.size
    · rw [harena.children_eq hid] at hcd
      obtain ⟨n, low, hn, hlt⟩ := h.parsed.sequential.behind hcd
      exact ⟨n, low, harena.subtree hn, hlt⟩
    · obtain ⟨s, hs⟩ : ∃ s, u.arena.shape? id = some s :=
        ⟨_, congrArg (Option.map Node.shape)
          (Array.getElem?_eq_getElem (Arena.index_lt_of_children (hcd.mem List.mem_cons_self)))⟩
      rw [Arena.children_of_shape? hs] at hcd
      rcases h.shape?_base hs with hbase | ⟨key, rfl⟩ | ⟨name, rfl⟩
      · exact absurd (Arena.lt_size_of_shape? hbase) hid
      · exact absurd hcd.length_le (by simp [Shape.children, Shape.kind, Kind.fields, Shape.field])
      · exact absurd hcd.length_le (by simp [Shape.children, Shape.kind, Kind.fields])

end SquirrelAnalyzer
