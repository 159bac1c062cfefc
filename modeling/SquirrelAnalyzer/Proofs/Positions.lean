import SquirrelAnalyzer.Proofs.Ranges

namespace SquirrelAnalyzer

open Text

theorem find?_eq_of_pairwise {α : Type} {R : α → α → Prop} {l : List α} {p : α → Bool} {x : α}
    (h : l.Pairwise R) (hx : x ∈ l) (hp : p x = true) (hbefore : ∀ y ∈ l, R y x → p y = false) :
    l.find? p = some x := by
  obtain ⟨front, rest, rfl⟩ := List.append_of_mem hx
  refine List.find?_eq_some_iff_append.mpr ⟨hp, front, rest, rfl, fun y hy => ?_⟩
  have hR := (List.pairwise_append.mp h).2.2 y hy x List.mem_cons_self
  simp [hbefore y (List.mem_append_left _ hy) hR]

namespace Arena

/-- Offsets of a text and nodes of its arena find each other. -/
structure Positioned (a : Arena) (length : Nat) : Prop where
  branchTo_iff : ∀ id b, a.branchTo id = some b ↔ a.Below a.rootBranch b ∧ b.target = id
  exists_unique : ∀ id, id.index < a.size → ∃! b, a.Below a.rootBranch b ∧ b.target = id
  branchTo_none : ∀ id, a.size ≤ id.index → a.branchTo id = none
  branchAt_isSome : ∀ offset ≤ maxOffset, (a.branchAt offset).isSome = true ↔ offset ≤ length
  innermost : ∀ offset b, a.branchAt offset = some b → a.branchTo b.target = some b ∧
    ∀ c ∈ a.children .full b.target, ∀ l, a.location? c = some l → l.containsOffset offset = false
  branchTo_prefix : ∀ id n offset, a.get? id = some n → n.location.startOffset < offset →
    offset ≤ n.location.endOffset → ∃ b b', a.branchTo id = some b ∧
      a.branchAt offset = some b' ∧ b.path <+: b'.path
  leaf : ∀ id n offset, a.get? id = some n → n.children .full = [] →
    n.location.startOffset < offset → offset ≤ n.location.endOffset →
    a.branchAt offset = a.branchTo id

variable {a : Arena} {b b' : Branch} {offset : Nat}

theorem hits_of_location? {id : NodeId} {l : Location} (h : a.location? id = some l) :
    a.hits offset id = l.containsOffset offset := by
  simp [hits, h]

theorem hits_iff {id : NodeId} {n : Node} (h : a.get? id = some n) : a.hits offset id = true ↔
    n.location.startOffset ≤ offset ∧ offset ≤ n.location.endOffset := by
  rw [hits_of_location? (l := n.location) (by simp [location?, h]), Location.containsOffset_iff]

theorem Below.path_prefix (h : a.Below b b') : b.path <+: b'.path := by
  induction h with
  | refl b => exact List.prefix_rfl
  | @child b b' c _ _ ih =>
    rw [Branch.path_child] at ih
    exact (List.prefix_append _ _).trans ih

theorem Below.eq_of_leaf (h : a.Below b b') (hleaf : a.children .full b.target = []) : b' = b := by
  cases h with
  | refl => rfl
  | child hc =>
    rw [hleaf] at hc
    cases hc

theorem below_descend (a : Arena) (choose : NodeId → Bool) (steps : Nat) (b : Branch) :
    a.Below b (a.descend choose steps b) := by
  induction steps generalizing b with
  | zero => exact .refl b
  | succ steps ih =>
    unfold descend
    split
    · next c hc => exact .child (List.mem_of_find?_eq_some hc) (ih (b.child c))
    · exact .refl b

theorem descend_child {choose : NodeId → Bool} {c : NodeId} {steps : Nat} (hsteps : 0 < steps)
    (hfind : (a.children .full b.target).find? choose = some c)
    (hstop : ∀ d ∈ a.children .full c, choose d = false) :
    a.descend choose steps b = b.child c := by
  obtain ⟨steps, rfl⟩ : ∃ n, steps = n + 1 := ⟨steps - 1, by omega⟩
  simp only [descend, hfind]
  have hnone : (a.children .full (b.child c).target).find? choose = none := by
    refine List.find?_eq_none.mpr fun d hd => ?_
    simp [hstop d hd]
  cases steps with
  | zero => rfl
  | succ steps => simp only [descend, hnone]

namespace Parsed

theorem descend_stops (h : a.Parsed) {choose : NodeId → Bool} {steps : Nat}
    (hsteps : b.target.index < steps) {c : NodeId}
    (hc : c ∈ a.children .full (a.descend choose steps b).target) : choose c = false := by
  induction steps generalizing b with
  | zero => omega
  | succ steps ih =>
    unfold descend at hc
    split at hc
    · next d hd =>
      have hlt := h.child_lt (List.mem_of_find?_eq_some hd)
      exact ih (b := b.child d) (by rw [Branch.target_child]; omega) hc
    · next hnone => exact Bool.eq_false_iff.mpr (List.find?_eq_none.mp hnone c hc)

theorem branchTo_iff (h : a.Parsed) (id : NodeId) :
    a.branchTo id = some b ↔ a.Below a.rootBranch b ∧ b.target = id := by
  constructor
  · intro hto
    cases hn : a.get? id with
    | none => simp [branchTo, location?, hn] at hto
    | some n =>
      obtain ⟨b', -, -, hb', rfl, -⟩ := h.exists_below (h.whole ▸ lt_size_of_get? hn)
      rw [h.branchTo_of_below hb'] at hto
      obtain rfl := Option.some.inj hto
      exact ⟨hb', rfl⟩
  · rintro ⟨hb, rfl⟩
    exact h.branchTo_of_below hb

theorem branchTo_child (h : a.Parsed) {id c : NodeId} (hb : a.branchTo id = some b)
    (hc : c ∈ a.children .full id) : a.branchTo c = some (b.child c) := by
  obtain ⟨hbelow, rfl⟩ := (h.branchTo_iff id).mp hb
  exact (h.branchTo_iff c).mpr ⟨hbelow.trans (.child hc (.refl _)), rfl⟩

end Parsed

namespace Ranged

variable {source : String} {tokens : List Token}

theorem hits_root (h : a.Ranged source tokens) :
    a.hits offset a.root = true ↔ offset ≤ toOffset (byteLength source.toList) := by
  obtain ⟨n, hn, hstart, hend⟩ := h.root
  rw [hits_iff hn]
  omega

theorem find?_hits (h : a.Ranged source tokens) {id c : NodeId} {m : Node}
    (hc : c ∈ a.children .full id) (hm : a.get? c = some m) (hlo : m.location.startOffset < offset)
    (hhi : offset ≤ m.location.endOffset) :
    (a.children .full id).find? (a.hits offset) = some c := by
  cases hn : a.get? id with
  | none => simp [children, hn] at hc
  | some n =>
    rw [children_of_get? hn] at hc ⊢
    refine find?_eq_of_pairwise (h.apart id n hn) hc ?_ fun d hd hapart => ?_
    · rw [hits_iff hm]
      omega
    · obtain ⟨m', hm', -⟩ := h.inside id n hn d hd
      have hle := hapart m' m hm' hm
      refine Bool.eq_false_iff.mpr fun hhit => ?_
      rw [hits_iff hm'] at hhit
      omega

theorem descend_hits_eq (h : a.Ranged source tokens) (hparsed : a.Parsed) (hb : a.Below b b')
    {n n' : Node} (hn : a.get? b.target = some n) (hn' : a.get? b'.target = some n')
    (hlo : n'.location.startOffset < offset) (hhi : offset ≤ n'.location.endOffset) {steps : Nat}
    (hsteps : b.target.index < steps) : ∃ left, b'.target.index < left ∧
      a.descend (a.hits offset) steps b = a.descend (a.hits offset) left b' := by
  induction hb generalizing n steps with
  | refl b => exact ⟨steps, hsteps, rfl⟩
  | @child b b' c hc hb ih =>
    have hsize : c.index < a.size := Nat.lt_trans (hparsed.child_lt hc) (lt_size_of_get? hn)
    obtain ⟨low, m, hm⟩ := hparsed.subtree_of_lt hsize
    obtain ⟨-, -, n'', hn'', hcontains⟩ := hb.within hm
    obtain rfl := Option.some.inj (hn''.symm.trans hn')
    have hwithin := Location.contains_iff.mp hcontains
    have hfind : (a.children .full b.target).find? (a.hits offset) = some c :=
      h.find?_hits hc hm.node (by omega) (by omega)
    have hlt := hparsed.child_lt hc
    cases steps with
    | zero => omega
    | succ steps =>
      simp only [descend, hfind]
      exact ih (n := m) hm.node hn' (by rw [Branch.target_child]; omega)

theorem branchAt_eq_descend (h : a.Ranged source tokens) (hparsed : a.Parsed) {id : NodeId}
    {n : Node} (hn : a.get? id = some n) (hlo : n.location.startOffset < offset)
    (hhi : offset ≤ n.location.endOffset) :
    ∃ b left, a.branchTo id = some b ∧ id.index < left ∧
      a.branchAt offset = some (a.descend (a.hits offset) left b) := by
  obtain ⟨b, -, -, hb, rfl, -⟩ := hparsed.exists_below (hparsed.whole ▸ lt_size_of_get? hn)
  obtain ⟨root, hroot, hsize⟩ := hparsed.subtree
  obtain ⟨-, -, n', hn', hcontains⟩ := hb.within (b := a.rootBranch) hroot
  obtain rfl := Option.some.inj (hn'.symm.trans hn)
  obtain ⟨root', hroot', -, hend⟩ := h.root
  obtain rfl := Option.some.inj (hroot'.symm.trans hroot.node)
  have hwithin := Location.contains_iff.mp hcontains
  have hhit : a.hits offset a.root = true := h.hits_root.mpr (by omega)
  have hsteps : a.rootBranch.target.index < a.size := lt_size_of_get? hroot.node
  obtain ⟨left, hleft, heq⟩ := h.descend_hits_eq hparsed hb hroot.node hn hlo hhi hsteps
  exact ⟨b, left, hparsed.branchTo_of_below hb, hleft, by rw [branchAt, if_pos hhit, heq]⟩

theorem branchAt_eq_child (h : a.Ranged source tokens) (hparsed : a.Parsed) {id c : NodeId}
    {n : Node} (hn : a.get? id = some n) (hlo : n.location.startOffset < offset)
    (hhi : offset ≤ n.location.endOffset)
    (hfind : (a.children .full id).find? (a.hits offset) = some c)
    (hstop : ∀ d ∈ a.children .full c, a.hits offset d = false) :
    a.branchAt offset = a.branchTo c := by
  obtain ⟨b, left, hb, hleft, hat⟩ := h.branchAt_eq_descend hparsed hn hlo hhi
  rw [hat, hparsed.branchTo_child hb (List.mem_of_find?_eq_some hfind)]
  obtain ⟨-, rfl⟩ := (hparsed.branchTo_iff id).mp hb
  exact congrArg some (descend_child (by omega) hfind hstop)

theorem branchAt_below (h : a.Ranged source tokens) (hparsed : a.Parsed) {id : NodeId} {n : Node}
    (hn : a.get? id = some n) (hlo : n.location.startOffset < offset)
    (hhi : offset ≤ n.location.endOffset) :
    ∃ b b', a.branchTo id = some b ∧ a.branchAt offset = some b' ∧ a.Below b b' := by
  obtain ⟨b, left, hb, -, hat⟩ := h.branchAt_eq_descend hparsed hn hlo hhi
  exact ⟨b, _, hb, hat, a.below_descend _ _ _⟩

theorem positioned (h : a.Ranged source tokens) (hparsed : a.Parsed) :
    a.Positioned (byteLength source.toList) := by
  obtain ⟨root, hroot, -⟩ := hparsed.subtree
  constructor
  · exact fun id b => hparsed.branchTo_iff id
  · intro id hid
    obtain ⟨b, -, -, hb, rfl, -⟩ := hparsed.exists_below (hparsed.whole ▸ hid)
    refine ⟨b, ⟨hb, rfl⟩, fun b' hb' => ?_⟩
    have hto := (hparsed.branchTo_iff b.target).mpr hb'
    rw [hparsed.branchTo_of_below hb] at hto
    exact (Option.some.inj hto).symm
  · intro id hid
    have hnone : a.get? id = none := Array.getElem?_eq_none hid
    simp [branchTo, location?, hnone]
  · intro offset hoffset
    have hle : offset ≤ toOffset (byteLength source.toList) ↔ offset ≤ byteLength source.toList := by
      rw [toOffset, Nat.le_min, and_iff_left hoffset]
    rw [← hle, ← h.hits_root, branchAt]
    split
    · next hhit => simp [hhit]
    · next hhit => simp [hhit]
  · intro offset b hb
    unfold branchAt at hb
    split at hb
    · obtain rfl := Option.some.inj hb
      refine ⟨hparsed.branchTo_of_below (a.below_descend _ _ _), fun c hc l hl => ?_⟩
      have hfalse := hparsed.descend_stops (b := a.rootBranch) (lt_size_of_get? hroot.node) hc
      rwa [hits_of_location? hl] at hfalse
    · cases hb
  · intro id n offset hn hlo hhi
    obtain ⟨b, b', hb, hb', hbelow⟩ := h.branchAt_below hparsed hn hlo hhi
    exact ⟨b, b', hb, hb', hbelow.path_prefix⟩
  · intro id n offset hn hleaf hlo hhi
    obtain ⟨b, b', hb, hb', hbelow⟩ := h.branchAt_below hparsed hn hlo hhi
    obtain ⟨-, rfl⟩ := (hparsed.branchTo_iff id).mp hb
    rw [← children_of_get? hn] at hleaf
    rw [hb, hb', hbelow.eq_of_leaf hleaf]

end Ranged

/-- In a parsed source, offsets and nodes find each other. -/
theorem positioned_parse {source : String} (h : parse source = .ok a) :
    a.Positioned (byteLength source.toList) := by
  obtain ⟨tokens, body, hreads⟩ := reads_parse h
  exact hreads.ranged.positioned hreads.parsed

theorem positioned_parse_call : ∃ a, parse "local x = a.b(-1);" = .ok a ∧ a.size = 10 ∧
    a.Positioned 18 := by
  have hparsed : (parse "local x = a.b(-1);").toOption.any (fun a => a.size = 10) = true := by
    decide +kernel
  obtain ⟨a, ha, hsize⟩ := exists_ok hparsed
  exact ⟨a, ha, of_decide_eq_true hsize, positioned_parse ha⟩

end Arena

end SquirrelAnalyzer
