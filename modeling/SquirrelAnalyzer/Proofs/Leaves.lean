import SquirrelAnalyzer.Proofs.Ranges
import SquirrelAnalyzer.Proofs.Tally.Statement

namespace SquirrelAnalyzer

namespace Token

variable {offset : Nat} {k : Token} {ks : List Token} {ls : List Leaf} {l : Leaf}

namespace Chain

theorem sits (h : Chain offset ks) (hk : k ∈ ks) : ∃ lo, k.Sits lo := by
  induction ks generalizing offset with
  | nil => cases hk
  | cons t ks ih =>
    rcases List.mem_cons.mp hk with rfl | hk
    · exact ⟨offset, h.1⟩
    · exact ih h.2.2 hk

theorem range_eq (h : Chain offset ks) (hk : k ∈ ks) : k.range = k.span := by
  obtain ⟨_, hsits⟩ := h.sits hk
  rw [range, Nat.max_eq_left hsits.proper]

theorem filter_span (h : Chain offset ks) (hk : k ∈ ks) (hne : k.span.start < k.span.stop) :
    ks.filter (fun t => t.span = k.span) = [k] := by
  induction ks generalizing offset with
  | nil => cases hk
  | cons t ks ih =>
    rcases List.mem_cons.mp hk with rfl | hk
    · rw [List.filter_cons_of_pos (by simp), List.filter_eq_nil_iff.mpr]
      intro t ht hspan
      have hle := h.2.2.le_start ht
      rw [of_decide_eq_true hspan] at hle
      omega
    · rw [List.filter_cons_of_neg, ih h.2.2 hk]
      intro hspan
      have hle := h.2.2.le_start hk
      rw [of_decide_eq_true hspan] at hle
      omega

end Chain

namespace Carries

theorem exists_token (h : Carries ks ls) (hl : l ∈ ls) :
    ∃ k ∈ ks, l.span = k.range ∧ k.kind.Bears l.content := by
  induction h with
  | nil => cases hl
  | skip _ _ ih =>
    obtain ⟨k, hk, hrest⟩ := ih hl
    exact ⟨k, List.mem_cons_of_mem _ hk, hrest⟩
  | @take k _ _ _ hbears _ ih =>
    rcases List.mem_cons.mp hl with rfl | hl
    · exact ⟨k, List.mem_cons_self, rfl, hbears⟩
    · obtain ⟨k, hk, hrest⟩ := ih hl
      exact ⟨k, List.mem_cons_of_mem _ hk, hrest⟩

theorem exists_leaf (h : Carries ks ls) (hk : k ∈ ks) (hcontent : k.kind.isContent = true) :
    ∃ l ∈ ls, l.span = k.range ∧ k.kind.Bears l.content := by
  induction h with
  | nil => cases hk
  | skip hskip _ ih =>
    rcases List.mem_cons.mp hk with rfl | hk
    · rw [hskip] at hcontent
      cases hcontent
    · exact ih hk
  | take hbears _ ih =>
    rcases List.mem_cons.mp hk with rfl | hk
    · exact ⟨_, List.mem_cons_self, rfl, hbears⟩
    · obtain ⟨l, hl, hrest⟩ := ih hk
      exact ⟨l, List.mem_cons_of_mem _ hl, hrest⟩

theorem apart (h : Carries ks ls) (hchain : Chain offset ks) :
    (∀ l ∈ ls, offset ≤ l.span.start) ∧ ls.Pairwise fun l l' => l.span.stop ≤ l'.span.start := by
  induction h generalizing offset with
  | nil => exact ⟨nofun, .nil⟩
  | skip _ _ ih =>
    obtain ⟨hsits, -, hchain⟩ := hchain
    obtain ⟨hbounds, hapart⟩ := ih hchain
    refine ⟨fun l hl => ?_, hapart⟩
    exact Nat.le_trans hsits.behind (Nat.le_trans hsits.proper (hbounds l hl))
  | @take k _ ls content hbears _ ih =>
    have hrange := hchain.range_eq List.mem_cons_self
    obtain ⟨hsits, -, hchain⟩ := hchain
    obtain ⟨hbounds, hapart⟩ := ih hchain
    rw [hrange]
    refine ⟨List.forall_mem_cons.mpr ⟨hsits.behind, fun l hl => ?_⟩,
      List.pairwise_cons.mpr ⟨hbounds, hapart⟩⟩
    exact Nat.le_trans hsits.behind (Nat.le_trans hsits.proper (hbounds l hl))

theorem passes (h : Carries ks ls) (hchain : Chain offset ks) (hl : l ∈ ls) :
    Passes ks l.span.start l.span.stop := by
  obtain ⟨k, hk, hspan, hbears⟩ := h.exists_token hl
  rw [hspan, hchain.range_eq hk]
  exact (hchain.sits hk).elim fun _ hsits => hsits.passes hk hbears.ne_endOfFile

end Carries

end Token

namespace Arena

def leaf? (a : Arena) (id : NodeId) : Option Leaf :=
  (a.get? id).bind fun n => n.shape.content?.map (Leaf.mk n.location.span)

def leaves (a : Arena) : List Leaf := (List.range a.size).filterMap fun i => a.leaf? ⟨i⟩

structure OneToOne (tokens : List Token) (a : Arena) : Prop where
  proper : ∀ id l, a.leaf? id = some l → l.span.start < l.span.stop
  exists_token : ∀ id l, a.leaf? id = some l → ∃ k, tokens.filter (fun t => t.span = l.span) = [k] ∧
    k.kind.Bears l.content
  exists_node : ∀ k ∈ tokens, k.kind.isContent = true → ∃ id l, a.leaf? id = some l ∧
    l.span = k.span ∧ k.kind.Bears l.content ∧
      ∀ id' l', a.leaf? id' = some l' → l'.span = k.span → id' = id

/-- The identifiers and literals of an arena are the tokens that say something, each once and in
their order, and some of the keywords between them. As long as the size of the source is an offset,
they are so one by one. -/
structure Accounted (source : String) (tokens : List Token) (a : Arena) : Prop where
  carries : Token.Carries tokens a.leaves
  range_eq : ∀ k ∈ tokens, k.range = k.span
  proper : ∀ id l, a.leaf? id = some l → l.span.start ≤ l.span.stop
  apart : ∀ id id' l l', id.index < id'.index → a.leaf? id = some l → a.leaf? id' = some l' →
    l.span.stop ≤ l'.span.start
  oneToOne : Text.byteLength source.toList ≤ maxOffset → a.OneToOne tokens

variable {a : Arena} {lo hi : Nat} {ids : List NodeId} {source : String} {tokens : List Token}
  {body : List Tree}

theorem lt_size_of_leaf? {id : NodeId} {l : Leaf} (h : a.leaf? id = some l) : id.index < a.size := by
  obtain ⟨n, hn, -⟩ := Option.bind_eq_some_iff.mp h
  exact lt_size_of_get? hn

theorem Accounted.withUnit (h : a.Accounted source tokens) (unit : UnitId) :
    ({ a with unit } : Arena).Accounted source tokens where
  carries := h.carries
  range_eq := h.range_eq
  proper := h.proper
  apart := h.apart
  oneToOne hsize := ⟨(h.oneToOne hsize).proper, (h.oneToOne hsize).exists_token,
    (h.oneToOne hsize).exists_node⟩

namespace Reads

end Reads

theorem mem_leaves {l : Leaf} : l ∈ a.leaves ↔ ∃ id, a.leaf? id = some l := by
  rw [leaves, List.mem_filterMap]
  constructor
  · rintro ⟨i, -, hi⟩
    exact ⟨⟨i⟩, hi⟩
  · rintro ⟨id, hid⟩
    exact ⟨id.index, List.mem_range.mpr (lt_size_of_leaf? hid), hid⟩

theorem apart_of_leaves (h : a.leaves.Pairwise fun l l' => l.span.stop ≤ l'.span.start)
    {id id' : NodeId} {l l' : Leaf} (hlt : id.index < id'.index) (hl : a.leaf? id = some l)
    (hl' : a.leaf? id' = some l') : l.span.stop ≤ l'.span.start := by
  rw [leaves, List.pairwise_filterMap] at h
  have hsize := lt_size_of_leaf? hl'
  have hpair := List.pairwise_iff_getElem.mp h id.index id'.index
    (by rw [List.length_range]; omega) (by rw [List.length_range]; omega) hlt
  simp only [List.getElem_range] at hpair
  exact hpair l hl l' hl'

theorem oneToOne_of_carries (hcarries : Token.Carries tokens a.leaves)
    (hchain : Token.Chain 0 tokens) (hfilled : Token.Filled tokens) : a.OneToOne tokens := by
  have hapart := (hcarries.apart hchain).2
  have hnonempty {id : NodeId} {l : Leaf} (hl : a.leaf? id = some l) : l.span.start < l.span.stop :=
    (hcarries.passes hchain (mem_leaves.mpr ⟨id, hl⟩)).lt hfilled
  refine ⟨fun _ _ => hnonempty, fun id l hl => ?_, fun k hk hcontent => ?_⟩
  · obtain ⟨k, hk, hspan, hbears⟩ := hcarries.exists_token (mem_leaves.mpr ⟨id, hl⟩)
    rw [hchain.range_eq hk] at hspan
    have hne := hnonempty hl
    rw [hspan] at hne ⊢
    exact ⟨k, hchain.filter_span hk hne, hbears⟩
  · obtain ⟨l, hl, hspan, hbears⟩ := hcarries.exists_leaf hk hcontent
    rw [hchain.range_eq hk] at hspan
    obtain ⟨id, hid⟩ := mem_leaves.mp hl
    refine ⟨id, l, hid, hspan, hbears, fun id' l' hid' hspan' => ?_⟩
    have hne := hnonempty hid
    rw [← hspan] at hspan'
    -- two leaves with one range would both be empty
    rcases Nat.lt_trichotomy id.index id'.index with hlt | heq | hlt
    · have hle := apart_of_leaves hapart hlt hid hid'
      rw [hspan'] at hle
      omega
    · exact congrArg NodeId.mk heq.symm
    · have hle := apart_of_leaves hapart hlt hid' hid
      rw [hspan'] at hle
      omega

theorem Reads.accounted (h : a.Reads source tokens body) (hcarries : Token.Carries tokens a.leaves) :
    a.Accounted source tokens where
  carries := hcarries
  range_eq _ hk := h.chain.range_eq hk
  proper _ _ hl := (hcarries.passes h.chain (mem_leaves.mpr ⟨_, hl⟩)).le
  apart _ _ _ _ hlt := apart_of_leaves (hcarries.apart h.chain).2 hlt
  oneToOne hsize := oneToOne_of_carries hcarries h.chain (h.filled hsize)

end Arena

end SquirrelAnalyzer
