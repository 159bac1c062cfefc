import SquirrelAnalyzer.Proofs.PostOrder

namespace SquirrelAnalyzer

open Text

namespace Token.Chain

variable {tokens : List Token} {offset : Nat} {k e : Token}

theorem le_start (h : Chain offset tokens) (hk : k ∈ tokens) : offset ≤ k.span.start := by
  induction tokens generalizing offset with
  | nil => cases hk
  | cons t ts ih =>
    obtain ⟨hsits, -, hchain⟩ := h
    rcases List.mem_cons.mp hk with rfl | hk
    · exact hsits.behind
    · exact Nat.le_trans hsits.behind (Nat.le_trans hsits.proper (ih hchain hk))

theorem stop_le (h : Chain offset tokens) (he : e ∈ tokens) (hkind : e.kind = .endOfFile)
    (hk : k ∈ tokens) (hne : k.kind ≠ .endOfFile) : k.span.stop ≤ e.span.start := by
  induction tokens generalizing offset with
  | nil => cases he
  | cons t ts ih =>
    obtain ⟨-, hlast, hchain⟩ := h
    rcases List.mem_cons.mp he with rfl | he'
    · obtain rfl := hlast.mp hkind
      rw [List.mem_singleton.mp hk] at hne
      exact absurd hkind hne
    · rcases List.mem_cons.mp hk with rfl | hk
      · exact hchain.le_start he'
      · exact ih hchain he' hk

end Token.Chain

namespace Arena

structure Delimits (tokens : List Token) (l : Location) : Prop where
  proper : l.startOffset ≤ l.endOffset
  starts : ∃ k ∈ tokens, k.span.start = l.startOffset
  stops : ∃ k ∈ tokens, k.kind ≠ .endOfFile ∧ k.span.stop = l.endOffset

/-- The ranges of the nodes lie in each other as the nodes do, and between the tokens. They are not
empty as long as the size of the source is an offset. -/
structure Ranged (source : String) (tokens : List Token) (a : Arena) : Prop where
  delimits : ∀ id n, a.get? id = some n → id ≠ a.root → Delimits tokens n.location
  nonempty : byteLength source.toList ≤ maxOffset → ∀ id n, a.get? id = some n → id ≠ a.root →
    n.location.startOffset < n.location.endOffset ∧
      ∃ k ∈ tokens, k.kind ≠ .endOfFile ∧ k.span.start = n.location.startOffset
  inside : ∀ id n, a.get? id = some n → ∀ c ∈ n.children .full, ∃ m, a.get? c = some m ∧
    n.location.startOffset ≤ m.location.startOffset ∧ m.location.endOffset ≤ n.location.endOffset
  apart : ∀ id n, a.get? id = some n → (n.children .full).Pairwise fun c d =>
    ∀ m m', a.get? c = some m → a.get? d = some m' → m.location.endOffset ≤ m'.location.startOffset
  root : ∃ n, a.get? a.root = some n ∧ n.location.startOffset = 0 ∧
    n.location.endOffset = toOffset (byteLength source.toList)
  positions : ∀ id n, a.get? id = some n →
    n.location = (LineMap.ofText source.toList).location ⟨n.location.startOffset, n.location.endOffset⟩

variable {a : Arena} {source : String} {tokens : List Token} {body : List Tree} {lo : Nat}

theorem Ranged.withUnit (h : a.Ranged source tokens) (unit : UnitId) :
    ({ a with unit } : Arena).Ranged source tokens :=
  ⟨h.delimits, h.nonempty, h.inside, h.apart, h.root, h.positions⟩

theorem Subtree.tree_span {id : NodeId} {n : Node} (h : a.Subtree lo id n) :
    (a.tree id).span = n.location.span := by
  rw [h.tree_eq]
  rfl

theorem Reads.placed_tree (h : a.Reads source tokens body) {id : NodeId} (hid : id.index < a.size) :
    (a.tree id).Placed tokens := by
  have hlt : id.index < a.parsedSize := h.parsed.whole ▸ hid
  obtain ⟨b, -, -, hb, rfl, -⟩ := h.parsed.exists_below hlt
  obtain ⟨root, hroot, -⟩ := h.parsed.subtree
  refine hroot.tree_below (b := a.rootBranch) (fun t ht => ?_) hb ?_
  · cases ht with
    | node _ _ _ inner => exact inner
  · show (a.tree a.root).Placed tokens
    rw [h.tree_root]
    exact h.placed

theorem Reads.lines_eq (h : a.Reads source tokens body) :
    a.lines = LineMap.ofText source.toList := by
  obtain ⟨comments, -, rfl⟩ := h.arena
  rfl

theorem Reads.chain (h : a.Reads source tokens body) : Token.Chain 0 tokens := by
  obtain ⟨comments, htokens, -⟩ := h.arena
  exact (Token.chain_tokenize htokens).1

theorem Delimits.of_covers {t : Tree} {l : Location} (h : t.Covers tokens) (hspan : t.span = l.span) :
    Delimits tokens l := by
  obtain ⟨hstarts, hstops, hproper⟩ := h
  rw [hspan] at hstarts hstops hproper
  exact ⟨hproper.le, hstarts, hstops⟩

theorem Delimits.of_filled {t : Tree} (hchain : Token.Chain 0 tokens) (hfilled : Token.Filled tokens)
    (h : t.Covers tokens) : t.span.start < t.span.stop ∧
      ∃ k ∈ tokens, k.kind ≠ .endOfFile ∧ k.span.start = t.span.start := by
  obtain ⟨⟨k, hk, hstart⟩, ⟨k', hk', hkind', hstop⟩, hproper⟩ := h
  have hlt := hproper.lt hfilled
  refine ⟨hlt, k, hk, fun hkind => ?_, hstart⟩
  have hle := hchain.stop_le hk hkind hk' hkind'
  rw [hstart, hstop] at hle
  exact absurd hlt (Nat.not_lt_of_le hle)

theorem Reads.children_placed (h : a.Reads source tokens body) {id : NodeId} {n : Node}
    (hn : a.Subtree lo id n) :
    (∀ c ∈ n.children .full, n.location.startOffset ≤ (a.tree c).span.start ∧
      (a.tree c).span.stop ≤ n.location.endOffset) ∧
    (∀ c ∈ n.children .full, (a.tree c).Covers tokens) ∧
    (n.children .full).Pairwise fun c d => (a.tree c).span.stop ≤ (a.tree d).span.start := by
  have hplaced := h.placed_tree (lt_size_of_get? hn.node)
  rw [hn.tree_eq] at hplaced
  cases hplaced with
  | node hspan hcovers hapart inner =>
    rw [Shape.children_map] at hspan hcovers hapart
    exact ⟨fun c hc => hspan _ (List.mem_map_of_mem hc),
      fun c hc => hcovers _ (List.mem_map_of_mem hc),
      List.pairwise_map.mp hapart⟩

theorem Reads.ranged (h : a.Reads source tokens body) : a.Ranged source tokens := by
  have hparsed := h.parsed
  have hspan {id : NodeId} {n : Node} (hn : a.get? id = some n) :
      (a.tree id).span = n.location.span := by
    obtain ⟨low, hn⟩ := hparsed.subtree_of_get? hn
    exact hn.tree_span
  have hcovers {id : NodeId} {n : Node} (hn : a.get? id = some n) (hroot : id ≠ a.root) :
      (a.tree id).Covers tokens := by
    obtain ⟨p, hp⟩ := hparsed.exists_parent (lt_size_of_get? hn) hroot
    obtain ⟨low, m, hm, hc⟩ := hparsed.subtree_of_child hp
    exact (h.children_placed hm).2.1 id hc
  constructor
  · exact fun id n hn hroot => .of_covers (hcovers hn hroot) (hspan hn)
  · intro hsize id n hn hroot
    have hstrict := Delimits.of_filled h.chain (h.filled hsize) (hcovers hn hroot)
    rwa [hspan hn] at hstrict
  · intro id n hn c hc
    obtain ⟨low, hn⟩ := hparsed.subtree_of_get? hn
    obtain ⟨m, low', hm, -, -⟩ := hn.inner.subtree hc
    have hinside := (h.children_placed hn).1 c hc
    rw [hspan hm.node] at hinside
    exact ⟨m, hm.node, hinside⟩
  · intro id n hn
    obtain ⟨low, hn⟩ := hparsed.subtree_of_get? hn
    refine (h.children_placed hn).2.2.imp fun {c d} hapart m m' hm hm' => ?_
    rw [hspan hm, hspan hm'] at hapart
    exact hapart
  · obtain ⟨root, hroot, -⟩ := hparsed.subtree
    have hrange := hspan hroot.node
    rw [h.tree_root] at hrange
    exact ⟨root, hroot.node, congrArg Span.start hrange.symm, congrArg Span.stop hrange.symm⟩
  · intro id n hn
    obtain ⟨m, hm, -, hlocation⟩ := h.numbered (lt_size_of_get? hn)
    obtain rfl := Option.some.inj (hn.symm.trans hm)
    rwa [h.lines_eq] at hlocation

end Arena

end SquirrelAnalyzer
