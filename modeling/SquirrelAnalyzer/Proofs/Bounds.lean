import SquirrelAnalyzer.Proofs.Facts
import SquirrelAnalyzer.Proofs.Progress

namespace SquirrelAnalyzer

namespace SourceUnit

variable {u : SourceUnit} {b : Branch}

theorem mem_of_scope {id : NodeId} {s : ScopedName} (h : s ∈ u.scope id) :
    ∃ names, u.facts.scopes.get? id = some names ∧ s ∈ names := by
  unfold scope at h
  cases hn : u.facts.scopes.get? id with
  | none =>
    rw [hn] at h
    cases h
  | some names =>
    rw [hn] at h
    exact ⟨names, rfl, h⟩

theorem Sound.of_mem_scope (h : u.Sound) {node : NodeId} {s : ScopedName} (hs : s ∈ u.scope node) :
    s.declaration.unit = u.id ∧ u.arena.Holds s.declaration := by
  obtain ⟨names, hn, hmem⟩ := mem_of_scope hs
  exact h.scopes node names hn s hmem

theorem mem_namedBelow {members : List NodeId} {m : String × Branch}
    (hm : m ∈ u.namedBelow b members) : ∃ c ∈ members, m.2 = b.child c := by
  obtain ⟨c, hc, hm⟩ := List.mem_filterMap.mp hm
  obtain ⟨name, -, rfl⟩ := Option.map_eq_some_iff.mp hm
  exact ⟨c, hc, rfl⟩

theorem mem_membersAt {m : String × Branch} (hm : m ∈ u.membersAt b) :
    (∃ body ∈ u.arena.children .full b.target, ∃ c ∈ u.arena.children .full body,
      m.2 = (b.child body).child c) ∨
    ∃ c, (c ∈ u.arena.children .full b.target ∨
      ∃ ids, u.facts.metas.get? b.target = some ids ∧ c ∈ ids) ∧ m.2 = b.child c := by
  unfold membersAt at hm
  split at hm
  · cases hm
  next s hs =>
  have hbelow {ids : List NodeId} (hids : ∀ c ∈ ids, c ∈ s.children .full)
      (hm : m ∈ u.namedBelow b ids) :
      ∃ c, c ∈ u.arena.children .full b.target ∧ m.2 = b.child c := by
    obtain ⟨c, hc, he⟩ := mem_namedBelow hm
    exact ⟨c, by rw [Arena.children_of_shape? hs]; exact hids c hc, he⟩
  split at hm
  · next superclass body hparts =>
    rcases List.mem_append.mp hm with hm | hm
    · obtain ⟨c, hc, he⟩ := mem_namedBelow hm
      refine .inl ⟨body, ?_, c, hc, he⟩
      rw [Arena.children_of_shape? hs]
      exact Shape.mem_children_of_classBody hparts
    · obtain ⟨c, hc, he⟩ := mem_namedBelow hm
      cases hmeta : u.facts.metas.get? b.target with
      | none =>
        rw [hmeta] at hc
        cases hc
      | some ids =>
        rw [hmeta] at hc
        exact .inr ⟨c, .inr ⟨ids, rfl, hc⟩, he⟩
  · obtain ⟨c, hc, he⟩ := hbelow (fun c hc => by
      simpa [Shape.children, Shape.kind, Kind.fields, Shape.field] using hc) hm
    exact .inr ⟨c, .inl hc, he⟩
  · obtain ⟨c, hc, he⟩ := hbelow (fun c hc => by
      simp [Shape.children, Shape.kind, Kind.fields, Shape.field, hc]) hm
    exact .inr ⟨c, .inl hc, he⟩
  · cases hm

theorem unit_of_mem_membersAt {m : String × Branch} (h : m ∈ u.membersAt b) :
    m.2.unit = b.unit := by
  rcases mem_membersAt h with ⟨body, -, c, -, he⟩ | ⟨c, -, he⟩
  · rw [he, Branch.unit_child, Branch.unit_child]
  · rw [he, Branch.unit_child]

end SourceUnit

namespace Program

def InBounds (p : Program) (b : Branch) : Prop := ∃ u, p.unit? b.unit = some u ∧ u.arena.Holds b

structure Sound (p : Program) : Prop where
  unit : ∀ id u, p.unit? id = some u → u.id = id ∧ u.Sound
  owner : ∀ id u, p.unit? id = some u → ∀ e ∈ u.namespaces,
    ∃ v, p.unit? e.owner.unit = some v ∧ e.owner.node.index < v.arena.size
  recorded : ∀ id u, p.unit? id = some u → (u.namespaces.map (·.declaration)).Sublist u.pending

variable {p : Program} {b : Branch} {u : SourceUnit}

theorem mem_liveUnits : u ∈ p.liveUnits ↔ ∃ id, p.unit? id = some u := by
  simp only [liveUnits, unit?, List.mem_filterMap, id_eq, exists_eq_right]
  constructor
  · intro h
    obtain ⟨i, hi⟩ := List.mem_iff_getElem?.mp h
    refine ⟨⟨i⟩, ?_⟩
    rw [← Array.getElem?_toList, hi]
    rfl
  · rintro ⟨id, h⟩
    refine List.mem_iff_getElem?.mpr ⟨id.index, ?_⟩
    rw [Array.getElem?_toList]
    exact Option.join_eq_some_iff.mp h

theorem sublist_ids {units : List (Option SourceUnit)} {k : Nat}
    (h : ∀ (i : Nat) (u : SourceUnit), units[i]? = some (some u) → u.id = ⟨k + i⟩) :
    ((units.filterMap id).map (·.id)).Sublist ((List.range' k units.length).map UnitId.mk) := by
  induction units generalizing k with
  | nil => exact List.Sublist.refl _
  | cons o units ih =>
    have hrest := ih (k := k + 1) fun i u hu => by
      rw [h (i + 1) u (by simpa using hu), Nat.add_right_comm, Nat.add_assoc]
    cases o with
    | none => exact hrest.cons _
    | some u =>
      have hu : u.id = ⟨k⟩ := h 0 u rfl
      show (u.id :: _).Sublist (⟨k⟩ :: _)
      rw [hu]
      exact hrest.cons_cons _

theorem sorted_liveIds (h : ∀ id u, p.unit? id = some u → u.id = id) :
    (p.liveUnits.map (·.id)).Pairwise (·.index < ·.index) := by
  have hids : (p.liveUnits.map (·.id)).Sublist
      ((List.range' 0 p.units.toList.length).map UnitId.mk) := by
    apply sublist_ids
    intro i u hu
    rw [h ⟨i⟩ u, Nat.zero_add]
    simp only [unit?]
    rw [← Array.getElem?_toList, hu]
    rfl
  exact List.Pairwise.sublist hids (List.pairwise_map.mpr List.pairwise_lt_range')

theorem nodup_liveIds (h : ∀ id u, p.unit? id = some u → u.id = id) :
    (p.liveUnits.map (·.id)).Nodup := by
  refine (sorted_liveIds h).imp ?_
  rintro id id' hlt rfl
  exact Nat.lt_irrefl _ hlt

namespace Sound

theorem inBounds_of_below (h : p.Sound) {id : UnitId} (hu : p.unit? id = some u)
    (hb : u.arena.Below u.arena.rootBranch b) : p.InBounds b := by
  obtain ⟨hid, hs⟩ := h.unit id u hu
  refine ⟨u, ?_, hs.rooted.holds_root.below hs.ascending hb⟩
  rw [hb.unit_eq]
  show p.unit? u.arena.unit = some u
  rw [hs.unit, hid, hu]

theorem inBounds_of_scope (h : p.Sound) {id : UnitId} (hu : p.unit? id = some u) {node : NodeId}
    {s : ScopedName} (hs : s ∈ u.scope node) : p.InBounds s.declaration := by
  obtain ⟨hid, hsound⟩ := h.unit id u hu
  obtain ⟨hunit, hholds⟩ := hsound.of_mem_scope hs
  exact ⟨u, by rw [hunit, hid, hu], hholds⟩

theorem inBounds_of_recorded (h : p.Sound) {id : UnitId} (hu : p.unit? id = some u)
    {e : NamespaceEntry} (he : e ∈ u.namespaces) : p.InBounds e.declaration := by
  have hmem := (h.recorded id u hu).subset (List.mem_map_of_mem he)
  exact h.inBounds_of_below hu ((h.unit id u hu).2.pending _ hmem).1

theorem inBounds_child (hu : p.unit? b.unit = some u) (hb : u.arena.Holds b) {c : NodeId}
    (hc : c.index < u.arena.size) : p.InBounds (b.child c) := by
  refine ⟨u, hu, hc, fun id hid => ?_⟩
  rcases List.mem_cons.mp hid with rfl | hid
  · exact hb.target
  · exact hb.ancestors id hid

theorem inBounds_of_membersAt (h : p.Sound) (hu : p.unit? b.unit = some u)
    (hb : u.arena.Holds b) {m : String × Branch} (hm : m ∈ u.membersAt b) : p.InBounds m.2 := by
  have hs := (h.unit b.unit u hu).2
  rcases SourceUnit.mem_membersAt hm with ⟨body, hbody, c, hc, he⟩ | ⟨c, hc | ⟨ids, hids, hc⟩, he⟩
  · rw [he]
    exact ⟨u, hu, (hb.child hs.ascending hbody).child hs.ascending hc⟩
  · rw [he]
    exact ⟨u, hu, hb.child hs.ascending hc⟩
  · rw [he]
    exact inBounds_child hu hb (hs.metas _ ids hids c hc)

theorem fullyClosed (h : p.Sound) : p.FullyClosed p.InBounds where
  child := by
    rintro b u c ⟨u', hu', hb⟩ hu hc
    obtain rfl := Option.some.inj (hu'.symm.trans hu)
    exact ⟨u', hu, hb.child (h.unit _ _ hu).2.ascending hc⟩
  enclosing := by
    rintro b e ⟨u, hu, hb⟩ he
    refine ⟨u, ?_, hb.of_enclosing he⟩
    rw [(Branch.mem_enclosing_go he).1, hu]
  branchTo := by
    rintro b b' u id - hu hb'
    exact h.inBounds_of_below hu (Arena.branchTo_below hb')
  scope := by
    rintro b u id s - hu hs
    exact h.inBounds_of_scope hu hs
  imported := by
    rintro b d name arity - hd
    obtain ⟨u, hu, hd⟩ := List.exists_of_findSome?_eq_some hd
    obtain ⟨id, -, hid⟩ := List.mem_filterMap.mp hu
    obtain ⟨s, hs, -, rfl⟩ := mem_of_scoped? hd
    exact h.inBounds_of_scope hid hs
  ownMember := by
    rintro b m ⟨u, hu, hb⟩ hm
    unfold ownMembers at hm
    split at hm
    · cases hm
    · next v hv =>
      obtain ⟨hv, -⟩ := Option.filter_eq_some_iff.mp hv
      obtain rfl := Option.some.inj (hu.symm.trans hv)
      rcases List.mem_append.mp hm with hm | hm
      · exact h.inBounds_of_membersAt hu hb hm
      · obtain ⟨w, hw, hm⟩ := List.mem_flatMap.mp hm
        obtain ⟨e, he, rfl⟩ := List.mem_map.mp hm
        obtain ⟨id, hid⟩ := mem_liveUnits.mp hw
        obtain ⟨x, hx, hholds⟩ := h.inBounds_of_recorded hid (List.mem_filter.mp he).1
        unfold memberBranch
        split
        · next hsame =>
          rw [hsame] at hx
          obtain rfl := Option.some.inj (hu.symm.trans hx)
          exact inBounds_child hu hb hholds.target
        · exact ⟨x, hx, hholds⟩
  aliased := by
    intro b name hb
    obtain ⟨u, hu, hb⟩ := List.exists_of_findSome?_eq_some hb
    obtain ⟨id, hid⟩ := mem_liveUnits.mp hu
    obtain ⟨e, -, hb⟩ := Option.bind_eq_some_iff.mp hb
    exact h.inBounds_of_below hid (Arena.branchTo_below hb)

theorem closed (h : p.Sound) : p.Closed p.InBounds := h.fullyClosed.closed

end Sound

end Program

abbrev Promise := (q : Query) → NodeRef → q.Answer → Prop

def Memo.Meets (A : Promise) (m : Memo) : Prop :=
  ∀ q ref x, m.get? q ref = some (some x) → A q ref x

def Memo.Holds (I : Branch → Prop) (m : Memo) : Prop :=
  ∀ q ref x, m.get? q ref = some (some x) → q.Holds I x

def Ask.Holds (I : Branch → Prop) (ask : Ask) : Prop :=
  ∀ q b s r s', I b → s.memo.Holds I → (ask q b).run.run s = (r, s') →
    (∀ x, r = some x → q.Holds I x) ∧ s'.memo.Holds I

namespace Memo

variable {A : Promise} {I : Branch → Prop} {m : Memo}

theorem meets_empty : (∅ : Memo).Meets A := by
  intro q ref x h
  simp at h

theorem Meets.insert (hm : m.Meets A) {q : Query} {ref : NodeRef} {r : Option q.Answer}
    (hr : ∀ x, r = some x → A q ref x) : (m.insert q ref r).Meets A := by
  intro q' ref' x h
  by_cases hf : (⟨q', ref'⟩ : Frame) = ⟨q, ref⟩
  · obtain ⟨rfl, rfl⟩ := Frame.mk.inj hf
    rw [get?_insert_self] at h
    cases h
    exact hr x rfl
  · rw [get?_insert_of_ne _ _ hf] at h
    exact hm q' ref' x h

theorem holds_empty : (∅ : Memo).Holds I := meets_empty

theorem Holds.insert (hm : m.Holds I) {q : Query} {ref : NodeRef} {r : Option q.Answer}
    (hr : ∀ x, r = some x → q.Holds I x) : (m.insert q ref r).Holds I := Meets.insert hm hr

end Memo

namespace Plan

variable {α : Type} {I : Branch → Prop} {Q : α → Prop} {ask : Ask}

theorem run_holds (hask : ask.Holds I) {t : Plan α} (ht : t.Keeps I Q) {s s' : Progress} {a : α}
    (hs : s.memo.Holds I) (h : (t.run ask).run s = (a, s')) : Q a ∧ s'.memo.Holds I := by
  induction t generalizing s with
  | done b =>
    cases h
    exact ⟨ht, hs⟩
  | ask q b next ih =>
    rw [run_ask] at h
    cases hr : (ask q b).run.run s with | mk r s₁
    rw [hr] at h
    obtain ⟨hx, hs₁⟩ := hask q b s r s₁ ht.1 hs hr
    exact ih r (ht.2 r hx) hs₁ h

end Plan

namespace Program

variable {p : Program} {I : Branch → Prop}

theorem holds_ready? (hp : p.Closed I) {q : Query} {b : Branch} (hb : I b) {x : q.Answer}
    (h : p.ready? q b = some (some x)) : q.Holds I x := by
  unfold ready? at h
  split at h
  · cases h
  · split at h
    · cases h
    · exact holds_direct? (hp.subject hb) (Option.some.inj h)

theorem remembered_holds (hp : p.Closed I) {ask : Ask} (hask : ask.Holds I) {q : Query} {b : Branch}
    (hb : I b) {s s' : Progress} {r : Option q.Answer} (hs : s.memo.Holds I)
    (h : (Resolve.remembered p.config.maxDepth q b.ref (p.step ask q b)).run.run s = (r, s')) :
    (∀ x, r = some x → q.Holds I x) ∧ s'.memo.Holds I := by
  cases hm : s.memo.get? q b.ref with
  | some answer =>
    rw [Resolve.run_remembered_of_get? hm] at h
    cases h
    exact ⟨fun x hx => hs q b.ref x (hx ▸ hm), hs⟩
  | none =>
    cases hf : s.walk.refuses p.config.maxDepth ⟨q, b.ref⟩ with
    | true =>
      rw [Resolve.run_remembered hm, Resolve.run_guarded_of_refuses hf] at h
      cases h
      exact ⟨nofun, hs⟩
    | false =>
      obtain ⟨t, ht, hkeeps⟩ := stepAt_finds hp (P := True) (q := q) fun _ => hb
      cases hr : (t.run ask).run (s.enter ⟨q, b.ref⟩) with | mk r₁ s₁
      obtain ⟨hr₁, hs₁⟩ := Plan.run_holds hask (hkeeps trivial) (s := s.enter ⟨q, b.ref⟩) hs hr
      have hstep : (p.step ask q b).run = t.run ask := by
        rw [step_eq_stepAt]
        exact ht ask
      rw [← hstep] at hr
      rw [Progress.run_remembered_of_run hm hf hr] at h
      cases h
      refine ⟨hr₁, ?_⟩
      simp only [Progress.leave]
      split
      · exact hs₁
      · exact hs₁.insert hr₁

theorem answerWithin_holds (hp : p.Closed I) (n : Nat) : Ask.Holds I (p.answerWithin n) := by
  induction n with
  | zero =>
    rintro q b s r s' - hs ⟨⟩
    exact ⟨nofun, hs⟩
  | succ n ih =>
    intro q b s r s' hb hs h
    cases hready : p.ready? q b with
    | some o =>
      rw [answerWithin_of_ready hready] at h
      cases h
      exact ⟨fun x hx => holds_ready? hp hb (hx ▸ hready), hs⟩
    | none =>
      rw [answerWithin_of_frame hready] at h
      exact remembered_holds hp ih (hp.subject hb) hs h

theorem answer_holds (hp : p.Closed I) : Ask.Holds I p.answer := answerWithin_holds hp _

end Program

end SquirrelAnalyzer
