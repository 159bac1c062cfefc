import Mathlib.Tactic.Common
import SquirrelAnalyzer.Arena.Search

namespace SquirrelAnalyzer

namespace Arena

inductive Forest (a : Arena) : Nat → List NodeId → Nat → Prop
  | nil (lo : Nat) : Forest a lo [] lo
  | cons {lo hi : Nat} {id : NodeId} {n : Node} {ids : List NodeId} (hn : a.get? id = some n)
      (hspan : ∀ c ∈ n.children .full, ∀ l, a.location? c = some l →
        n.location.contains l = true)
      (inner : Forest a lo (n.children .full) id.index) (rest : Forest a (id.index + 1) ids hi) :
      Forest a lo (id :: ids) hi

structure Subtree (a : Arena) (lo : Nat) (id : NodeId) (n : Node) : Prop where
  node : a.get? id = some n
  span : ∀ c ∈ n.children .full, ∀ l, a.location? c = some l → n.location.contains l = true
  inner : a.Forest lo (n.children .full) id.index

/-- A branch goes on, from child to child, to another one. -/
inductive Below (a : Arena) : Branch → Branch → Prop
  | refl (b : Branch) : Below a b b
  | child {b b' : Branch} {c : NodeId} (hc : c ∈ a.children .full b.target)
      (h : Below a (b.child c) b') : Below a b b'

variable {a : Arena} {lo hi : Nat} {ids : List NodeId}

theorem kind?_eq_map (a : Arena) (id : NodeId) : a.kind? id = (a.shape? id).map Shape.kind := by
  simp only [kind?, shape?, Option.map_map]
  rfl

theorem children_of_get? {id : NodeId} {n : Node} (h : a.get? id = some n) (table : FieldTable) :
    a.children table id = n.children table := by
  simp [children, h]

theorem children_of_shape? {id : NodeId} {s : Shape NodeId} (h : a.shape? id = some s)
    (table : FieldTable) : a.children table id = s.children table := by
  obtain ⟨n, hn, rfl⟩ := Option.map_eq_some_iff.mp h
  exact children_of_get? hn table

theorem lt_size_of_get? {id : NodeId} {n : Node} (h : a.get? id = some n) : id.index < a.size :=
  (Array.getElem?_eq_some_iff.mp h).1

namespace Forest

theorem le (h : a.Forest lo ids hi) : lo ≤ hi := by
  induction h with
  | nil lo => exact Nat.le_refl lo
  | cons hn hspan inner rest hi hr => omega

theorem withUnit (h : a.Forest lo ids hi) (id : UnitId) :
    ({ a with unit := id } : Arena).Forest lo ids hi := by
  induction h with
  | nil lo => exact .nil lo
  | cons hn hspan _ _ ihi ihr => exact .cons hn hspan ihi ihr

theorem bounds (h : a.Forest lo ids hi) {c : NodeId} (hc : c ∈ ids) :
    lo ≤ c.index ∧ c.index < hi := by
  induction h with
  | nil lo => cases hc
  | cons hn hspan inner rest ihi ihr =>
    have := inner.le
    have := rest.le
    rcases List.mem_cons.mp hc with rfl | hc
    · omega
    · have := ihr hc
      omega

theorem append {mid : Nat} {ids' : List NodeId} (h : a.Forest lo ids mid)
    (h' : a.Forest mid ids' hi) : a.Forest lo (ids ++ ids') hi := by
  induction h with
  | nil lo => exact h'
  | cons hn hspan inner rest _ ihr => exact .cons hn hspan inner (ihr h')

theorem nodup (h : a.Forest lo ids hi) : ids.Nodup := by
  induction h with
  | nil lo => exact List.nodup_nil
  | @cons lo hi id n ids hn hspan inner rest _ ihr =>
    refine List.nodup_cons.mpr ⟨fun hid => ?_, ihr⟩
    have := (rest.bounds hid).1
    omega

theorem subtree (h : a.Forest lo ids hi) {c : NodeId} (hc : c ∈ ids) :
    ∃ n low, a.Subtree low c n ∧ lo ≤ low ∧ ∀ d ∈ ids, d.index < c.index → d.index < low := by
  induction h with
  | nil lo => cases hc
  | @cons lo hi id n ids hn hspan inner rest _ ihr =>
    have := inner.le
    rcases List.mem_cons.mp hc with rfl | hc
    · refine ⟨n, lo, ⟨hn, hspan, inner⟩, Nat.le_refl lo, fun d hd hlt => ?_⟩
      rcases List.mem_cons.mp hd with rfl | hd
      · omega
      · have := (rest.bounds hd).1
        omega
    · obtain ⟨m, low, hm, hle, hlow⟩ := ihr hc
      refine ⟨m, low, hm, by omega, fun d hd hlt => ?_⟩
      rcases List.mem_cons.mp hd with rfl | hd
      · omega
      · exact hlow d hd hlt

theorem split (h : a.Forest lo ids hi) {i : Nat} (hlo : lo ≤ i) (hhi : i < hi) :
    ∃ id n low, id ∈ ids ∧ a.Subtree low id n ∧ low ≤ i ∧ i ≤ id.index := by
  induction h with
  | nil lo => omega
  | @cons lo hi id n ids hn hspan inner rest _ ihr =>
    by_cases hid : i ≤ id.index
    · exact ⟨id, n, lo, List.mem_cons_self, ⟨hn, hspan, inner⟩, hlo, hid⟩
    · obtain ⟨id', n', low, hid', hrest⟩ := ihr (by omega) hhi
      exact ⟨id', n', low, List.mem_cons_of_mem _ hid', hrest⟩

theorem find?_eq (h : a.Forest lo ids hi) {c : NodeId} (hc : c ∈ ids) {accept : NodeId → Bool}
    (hacc : accept c = true) (hrej : ∀ d ∈ ids, d.index < c.index → accept d = false) :
    ids.find? accept = some c := by
  induction h with
  | nil lo => cases hc
  | @cons lo hi id n ids hn hspan inner rest _ ihr =>
    rcases List.mem_cons.mp hc with rfl | hc
    · simp [hacc]
    · have := (rest.bounds hc).1
      rw [List.find?_cons_of_neg (by simp [hrej id List.mem_cons_self (by omega)])]
      exact ihr hc fun d hd => hrej d (List.mem_cons_of_mem _ hd)

end Forest

theorem Subtree.children_eq {id : NodeId} {n : Node} (h : a.Subtree lo id n) :
    a.children .full id = n.children .full := children_of_get? h.node .full

theorem Subtree.location?_eq {id : NodeId} {n : Node} (h : a.Subtree lo id n) :
    a.location? id = some n.location := by
  simp [location?, h.node]

namespace Below

variable {b b' b'' : Branch} {n : Node}

theorem trans (h : a.Below b b') (h' : a.Below b' b'') : a.Below b b'' := by
  induction h with
  | refl b => exact h'
  | child hc _ ih => exact .child hc (ih h')

theorem unit_eq (h : a.Below b b') : b'.unit = b.unit := by
  induction h with
  | refl b => rfl
  | child hc _ ih => exact ih

theorem within (h : a.Below b b') (hn : a.Subtree lo b.target n) :
    lo ≤ b'.target.index ∧ b'.target.index ≤ b.target.index ∧
      ∃ n', a.get? b'.target = some n' ∧ n.location.contains n'.location = true := by
  induction h generalizing lo n with
  | refl b =>
    exact ⟨hn.inner.le, Nat.le_refl _, n, hn.node, Location.contains_iff.mpr ⟨Nat.le_refl _, Nat.le_refl _⟩⟩
  | @child b b' c hc _ ih =>
    rw [hn.children_eq] at hc
    obtain ⟨m, low, hm, hle, -⟩ := hn.inner.subtree hc
    have hlt := (hn.inner.bounds hc).2
    obtain ⟨hlow, hup, n', hn', hcont⟩ := ih hm
    rw [Branch.target_child] at hup
    refine ⟨by omega, by omega, n', hn', ?_⟩
    exact Location.contains_trans (hn.span c hc _ hm.location?_eq) hcont

theorem find?_leadsTo {c : NodeId} (hn : a.Subtree lo b.target n) (hc : c ∈ n.children .full)
    (h : a.Below (b.child c) b') {goal : Location} (hgoal : a.location? b'.target = some goal) :
    (a.children .full b.target).find? (a.leadsTo b'.target goal) = some c := by
  obtain ⟨m, low, hm, hle, hbefore⟩ := hn.inner.subtree hc
  obtain ⟨hlow, hup, n', hn', hcont⟩ := h.within hm
  rw [Branch.target_child] at hup
  obtain rfl : n'.location = goal := by
    rw [location?, hn'] at hgoal
    exact Option.some.inj hgoal
  rw [hn.children_eq]
  apply hn.inner.find?_eq hc
  · by_cases he : c = b'.target
    · simp [leadsTo, he]
    · have hlt : b'.target.index < c.index := by
        rcases Nat.lt_or_eq_of_le hup with h | h
        · exact h
        · exact absurd (congrArg NodeId.mk h).symm he
      simp [leadsTo, hlt, hm.location?_eq, hcont]
  · intro d hd hdc
    have hd := hbefore d hd hdc
    have hne : d ≠ b'.target := by
      rintro rfl
      omega
    have hnlt : ¬ b'.target.index < d.index := by omega
    simp [leadsTo, hne, hnlt]

theorem descendTo_eq (h : a.Below b b') (hn : a.Subtree lo b.target n) {goal : Location}
    (hgoal : a.location? b'.target = some goal) {steps : Nat}
    (hsteps : b.target.index ≤ steps + b'.target.index) :
    a.descendTo b'.target goal steps b = some b' := by
  induction h generalizing lo n steps with
  | refl b => cases steps <;> simp [descendTo]
  | @child b b' c hc hb ih =>
    rw [hn.children_eq] at hc
    obtain ⟨m, low, hm, -, -⟩ := hn.inner.subtree hc
    have hlt := (hn.inner.bounds hc).2
    have hup := (hb.within hm).2.1
    rw [Branch.target_child] at hup
    have hne : b.target ≠ b'.target := by
      intro he
      rw [he] at hlt
      omega
    cases steps with
    | zero => omega
    | succ steps =>
      simp only [descendTo, hne, if_false, find?_leadsTo hn hc hb hgoal]
      exact ih hm hgoal (by rw [Branch.target_child]; omega)

end Below

theorem Subtree.exists_below {b : Branch} {n : Node} (h : a.Subtree lo b.target n) {i : Nat}
    (hlo : lo ≤ i) (hi : i ≤ b.target.index) :
    ∃ b' low n', a.Below b b' ∧ b'.target = ⟨i⟩ ∧ a.Subtree low b'.target n' := by
  induction hm : b.target.index using Nat.strongRecOn generalizing b lo n with
  | ind m ih =>
    subst hm
    rcases Nat.lt_or_eq_of_le hi with hlt | rfl
    · obtain ⟨c, nc, low, hc, hnc, hlow, hup⟩ := h.inner.split hlo hlt
      have hcb := (h.inner.bounds hc).2
      obtain ⟨b', low', n', hb', hrest⟩ := ih c.index hcb (b := b.child c) hnc hlow hup rfl
      refine ⟨b', low', n', .child ?_ hb', hrest⟩
      rw [h.children_eq]
      exact hc
    · exact ⟨b, lo, n, .refl b, rfl, h⟩

structure Rooted (a : Arena) : Prop where
  forest : a.Forest 0 [a.root] a.parsedSize
  parsedSize_le : a.parsedSize ≤ a.size

structure Parsed (a : Arena) : Prop extends a.Rooted where
  whole : a.parsedSize = a.size

namespace Rooted

theorem subtree (h : a.Rooted) : ∃ n, a.Subtree 0 a.root n ∧ a.root.index + 1 = a.parsedSize := by
  have hf := h.forest
  generalize a.parsedSize = size at hf
  cases hf with
  | cons hn hspan inner rest =>
    cases rest
    exact ⟨_, ⟨hn, hspan, inner⟩, rfl⟩

theorem branchTo_of_below (h : a.Rooted) {b : Branch} (hb : a.Below a.rootBranch b) :
    a.branchTo b.target = some b := by
  obtain ⟨n, hn, hsize⟩ := h.subtree
  obtain ⟨-, -, n', hn', -⟩ := hb.within (b := a.rootBranch) hn
  have hgoal : a.location? b.target = some n'.location := by simp [location?, hn']
  have := h.parsedSize_le
  simp only [branchTo, hgoal]
  exact hb.descendTo_eq (b := a.rootBranch) hn hgoal (by
    show a.root.index ≤ _
    omega)

theorem withUnit (h : a.Rooted) (id : UnitId) : ({ a with unit := id } : Arena).Rooted where
  forest := h.forest.withUnit id
  parsedSize_le := h.parsedSize_le

theorem exists_below (h : a.Rooted) {id : NodeId} (hid : id.index < a.parsedSize) :
    ∃ b low n, a.Below a.rootBranch b ∧ b.target = id ∧ a.Subtree low b.target n := by
  obtain ⟨n, hn, hsize⟩ := h.subtree
  exact Subtree.exists_below (b := a.rootBranch) hn (Nat.zero_le _) (by
    show id.index ≤ a.root.index
    omega)

theorem below_of_syntactic {unit : UnitId} {target : NodeId} {ancestors : List NodeId}
    (hu : unit = a.unit) (h : isSyntactic.go a target ancestors = true) :
    a.Below a.rootBranch ⟨unit, target, ancestors⟩ := by
  induction ancestors generalizing target with
  | nil =>
    obtain rfl : target = a.root := by simpa [isSyntactic.go] using h
    subst hu
    exact .refl _
  | cons parent above ih =>
    simp only [isSyntactic.go, Bool.and_eq_true, List.contains_iff_mem] at h
    exact (ih h.2).trans (.child (b := ⟨unit, parent, above⟩) h.1 (.refl _))

theorem anchor_eq (h : a.Rooted) {b b' : Branch} (hb : b.unit = a.unit)
    (hb' : a.branchTo b.target = some b') : a.anchor b = b' := by
  unfold anchor
  split
  · next hs =>
    rw [h.branchTo_of_below (below_of_syntactic hb hs)] at hb'
    exact Option.some.inj hb'
  · simp [hb']

theorem anchor_congr (h : a.Rooted) {b b' : Branch} (hb : b.unit = a.unit) (hb' : b'.unit = a.unit)
    (ht : b.target = b'.target) (hid : b.target.index < a.parsedSize) :
    a.anchor b = a.anchor b' := by
  obtain ⟨c, -, -, hc, htc, -⟩ := h.exists_below hid
  have hto := h.branchTo_of_below hc
  rw [htc] at hto
  rw [h.anchor_eq hb hto, h.anchor_eq hb' (ht ▸ hto)]

end Rooted

end Arena

end SquirrelAnalyzer
