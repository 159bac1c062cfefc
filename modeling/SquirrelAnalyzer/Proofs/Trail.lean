import SquirrelAnalyzer.Proofs.Fixpoint
import SquirrelAnalyzer.Proofs.Sight

namespace SquirrelAnalyzer

theorem Branch.enclosing_child (b : Branch) (c : NodeId) :
    (b.child c).enclosing = (b, c) :: b.enclosing :=
  congrArg ((b, c) :: ·) (enclosing_go_congr (b.child c) b rfl b.target b.ancestors)

namespace SourceUnit

def records (u : SourceUnit) (owner declaration : NodeId) : Bool :=
  (u.entriesOf ⟨u.id, owner⟩).any (·.declaration.target = declaration)

inductive GoesOn (u : SourceUnit) (m c : NodeId) : Prop
  | child (h : c ∈ u.arena.children .full m)
  | property {ids : List NodeId} (h : u.facts.metas.get? m = some ids) (hc : c ∈ ids)
  | recorded (h : u.records m c = true)

/-- A branch that goes on from the root, node by node. -/
inductive Trail (u : SourceUnit) : Branch → Prop
  | root : Trail u u.arena.rootBranch
  | step {b : Branch} {c : NodeId} (h : Trail u b) (hc : u.GoesOn b.target c) : Trail u (b.child c)

def detours (u : SourceUnit) (b : Branch) : Bool :=
  b.enclosing.any fun e => u.records e.1.target e.2

def isInPlace (u : SourceUnit) (b : Branch) : Bool :=
  go b.target b.ancestors
where
  go (target : NodeId) : List NodeId → Bool
    | [] => target = u.arena.root
    | parent :: above =>
      ((u.arena.children .full parent).contains target ||
        ((u.facts.metas.get? parent).getD []).contains target) && go parent above

variable {u : SourceUnit} {b b' : Branch} {m c key : NodeId}

theorem trail_below (h : u.Trail b) (hb : u.arena.Below b b') : u.Trail b' := by
  induction hb with
  | refl => exact h
  | child hc _ ih => exact ih (h.step (.child hc))

namespace Trail

theorem unit_eq (h : u.Trail b) : b.unit = u.arena.unit := by
  induction h with
  | root => rfl
  | step _ _ ih => exact ih

theorem enclosing (h : u.Trail b) {e : Branch × NodeId} (he : e ∈ b.enclosing) : u.Trail e.1 := by
  induction h generalizing e with
  | root => cases he
  | @step b c h _ ih =>
    rw [Branch.enclosing_child] at he
    rcases List.mem_cons.mp he with rfl | he
    · exact h
    · exact ih he

end Trail

theorem detours_child (b : Branch) (c : NodeId) :
    u.detours (b.child c) = (u.records b.target c || u.detours b) := by
  simp [detours, Branch.enclosing_child]

theorem Trail.isInPlace_or_detours (h : u.Trail b) : u.isInPlace b = true ∨ u.detours b = true := by
  induction h with
  | root => exact .inl (decide_eq_true rfl)
  | @step b c _ hc ih =>
    have hgo : u.isInPlace (b.child c) = (((u.arena.children .full b.target).contains c ||
        ((u.facts.metas.get? b.target).getD []).contains c) && u.isInPlace b) := rfl
    rw [detours_child, hgo]
    cases hc with
    | child hc => simpa [hc] using ih.imp_right .inr
    | property hids hc => simpa [hids, hc] using ih.imp_right .inr
    | recorded hc => exact .inr (by rw [hc, Bool.true_or])

def AddsProperties (u : SourceUnit) : Prop :=
  ∀ m key, u.arena.shape? m = some (.metaProperty key) →
    u.arena.isSynthetic m = true ∧ u.arena.isSynthetic key = true

theorem AddsProperties.addMeta (h : u.AddsProperties) (hsize : u.arena.parsedSize ≤ u.arena.size)
    (cls : NodeId) (name : String) (tag : Doc.Attribute) (location : Location) :
    (u.addMeta cls name tag location).2.AddsProperties := by
  intro m key hm
  rw [shape?_addMeta] at hm
  split at hm
  · next hindex =>
    cases hm
    exact ⟨decide_eq_true (hindex ▸ Nat.le_succ_of_le hsize), decide_eq_true hsize⟩
  · split at hm
    · cases hm
    · exact h m key hm

end SourceUnit

theorem Tree.Fits.kind_ne_metaProperty {t : Tree} {r : Role} (h : t.Fits r) :
    t.shape.kind ≠ .metaProperty := by
  induction h <;> first | assumption | nofun

theorem Arena.Grammatical.shape?_ne_metaProperty {a : Arena} (h : a.Grammatical) (m key : NodeId) :
    a.shape? m ≠ some (.metaProperty key) := by
  intro hs
  rcases h.fits hs with ⟨body, hbody⟩ | ⟨r, hfits⟩
  · cases hbody
  · apply hfits.kind_ne_metaProperty
    rw [h.shape_tree hs]
    rfl

namespace SourceUnit

variable {u : SourceUnit} {b : Branch}

theorem addsProperties_build {source : String} {a : Arena} (h : Analysis.parseArena source = .ok a)
    (config : Config) (id : UnitId) : (build config id a).AddsProperties := by
  obtain ⟨tokens, body, hreads⟩ := Analysis.reads_parseArena h
  have hbuilt : (build config id a).arena.parsedSize ≤ (build config id a).arena.size ∧
      (build config id a).AddsProperties := by
    refine attachComments_induction
      (motive := fun u => u.arena.parsedSize ≤ u.arena.size ∧ u.AddsProperties)
      (fun _ _ hu _ => hu) (fun u cls name tag location hu => ?_) ⟨?_, fun m key hm => ?_⟩ config
    · exact ⟨Nat.le_trans hu.1 (u.extends_addMeta cls name tag location).size,
        hu.2.addMeta hu.1 cls name tag location⟩
    · exact hreads.parsed.parsedSize_le
    · exact absurd hm (hreads.grammatical.shape?_ne_metaProperty m key)
  exact hbuilt.2

theorem isSyntactic_of_isInPlace (hd : u.Declaring) (hp : u.AddsProperties) (hu : u.Documents)
    {unit : UnitId} {target : NodeId} {ancestors : List NodeId}
    (h : u.isInPlace ⟨unit, target, ancestors⟩ = true)
    (hwritten : u.arena.isSynthetic target = false) :
    u.arena.isSyntactic ⟨unit, target, ancestors⟩ = true := by
  have hnot {m : NodeId} (hm : u.arena.isSynthetic m = false) (key : NodeId) :
      u.arena.shape? m ≠ some (.metaProperty key) := by
    intro hs
    rw [(hp m key hs).1] at hm
    cases hm
  induction ancestors generalizing target with
  | nil => exact h
  | cons parent above ih =>
    obtain ⟨hstep, habove⟩ := Bool.and_eq_true_iff.mp h
    rcases Bool.or_eq_true_iff.mp hstep with hchild | hmeta
    · refine Bool.and_eq_true_iff.mpr ⟨hchild, ih habove ?_⟩
      obtain ⟨t, ht, hmem⟩ := Arena.exists_shape?_of_child (List.contains_iff_mem.mp hchild)
      rw [← Bool.not_eq_true]
      intro hsynthetic
      rcases hu parent t hsynthetic ht with ⟨key, rfl⟩ | ⟨name, m, rfl, -⟩
      · obtain rfl : target = key := by
          simpa [Shape.children, Shape.kind, Kind.fields, Shape.field] using hmem
        rw [(hp parent target ht).2] at hwritten
        cases hwritten
      · cases hmem
    · cases hids : u.facts.metas.get? parent with
      | none =>
        rw [hids] at hmeta
        cases hmeta
      | some ids =>
        rw [hids] at hmeta
        obtain ⟨key, hkey⟩ := hd.metas hids (List.contains_iff_mem.mp hmeta)
        exact absurd hkey (hnot hwritten key)

end SourceUnit

def Program.Trail (p : Program) (b : Branch) : Prop := ∃ u, p.unit? b.unit = some u ∧ u.Trail b

def Program.Placed (p : Program) (b : Branch) : Prop :=
  ∃ u, p.unit? b.unit = some u ∧ u.isInPlace b = true ∧
    (u.arena.isSynthetic b.target = false → u.arena.branchTo b.target = some b)

def Program.Detours (p : Program) (b : Branch) : Prop :=
  ∃ u, p.unit? b.unit = some u ∧ u.detours b = true

namespace Program

variable {p : Program} {u : SourceUnit} {b : Branch}

theorem Sound.trail_of_below (h : p.Sound) {id : UnitId} (hu : p.unit? id = some u)
    (hb : u.arena.Below u.arena.rootBranch b) : p.Trail b := by
  obtain ⟨hid, hs⟩ := h.unit id u hu
  refine ⟨u, ?_, SourceUnit.trail_below .root hb⟩
  rw [hb.unit_eq]
  show p.unit? u.arena.unit = some u
  rw [hs.unit, hid, hu]

theorem trail_membersAt {m : String × Branch} (hb : u.Trail b) (hm : m ∈ u.membersAt b) :
    u.Trail m.2 := by
  rcases SourceUnit.mem_membersAt hm with
    ⟨body, hbody, c, hc, he⟩ | ⟨c, hc | ⟨ids, hids, hc⟩, he⟩
  · rw [he]
    exact (hb.step (.child hbody)).step (.child hc)
  · rw [he]
    exact hb.step (.child hc)
  · rw [he]
    exact hb.step (.property hids hc)

theorem Sound.trail_recordedMember (h : p.Sound) (hu : p.unit? b.unit = some u) (hb : u.Trail b)
    {m : String × Branch} (hm : m ∈ p.recordedMembers b) : p.Trail m.2 := by
  obtain ⟨w, hw, hm⟩ := List.mem_flatMap.mp hm
  obtain ⟨e, he, rfl⟩ := List.mem_map.mp hm
  obtain ⟨id, hid⟩ := mem_liveUnits.mp hw
  have hmem := (h.recorded id w hid).subset (List.mem_map_of_mem (List.mem_filter.mp he).1)
  have hbelow := ((h.unit id w hid).2.pending _ hmem).1
  unfold memberBranch
  split
  · next hsame =>
    obtain ⟨hidw, hsw⟩ := h.unit id w hid
    have hidb : id = b.unit := by
      rw [← hsame, hbelow.unit_eq, ← hidw, ← hsw.unit]
      rfl
    subst hidb
    obtain rfl := Option.some.inj (hu.symm.trans hid)
    refine ⟨u, hu, hb.step (.recorded (List.any_eq_true.mpr ⟨e, ?_, decide_eq_true rfl⟩))⟩
    rwa [hidw]
  · exact h.trail_of_below hid hbelow

theorem Sound.trail_ownMember (h : p.Sound) {m : String × Branch} (hb : p.Trail b)
    (hm : m ∈ p.ownMembers b) : p.Trail m.2 := by
  obtain ⟨u, hu, hb⟩ := hb
  unfold ownMembers at hm
  split at hm
  · cases hm
  · next v hv =>
    obtain ⟨hv, -⟩ := Option.filter_eq_some_iff.mp hv
    obtain rfl := Option.some.inj (hu.symm.trans hv)
    rcases List.mem_append.mp hm with hm | hm
    · have hunit : m.2.unit = b.unit := SourceUnit.unit_of_mem_membersAt hm
      exact ⟨u, hunit ▸ hu, trail_membersAt hb hm⟩
    · exact h.trail_recordedMember hu hb hm

theorem Sound.fullyClosed_trail (h : p.Sound)
    (hd : ∀ id u, p.unit? id = some u → u.Declaring) : p.FullyClosed p.Trail where
  child := by
    rintro b u c ⟨u', hu', hb⟩ hu hc
    obtain rfl := Option.some.inj (hu'.symm.trans hu)
    exact ⟨u', hu, hb.step (.child hc)⟩
  enclosing := by
    rintro b e ⟨u, hu, hb⟩ he
    refine ⟨u, ?_, hb.enclosing he⟩
    rw [(Branch.mem_enclosing_go he).1, hu]
  branchTo := by
    rintro b b' u id - hu hb'
    exact h.trail_of_below hu (Arena.branchTo_below hb')
  scope := by
    rintro b u id s - hu hs
    exact h.trail_of_below hu ((hd _ _ hu).scopes hs).1
  imported := by
    rintro b d name arity - hdeclared
    obtain ⟨u, hu, hdeclared⟩ := List.exists_of_findSome?_eq_some hdeclared
    obtain ⟨id, -, hid⟩ := List.mem_filterMap.mp hu
    obtain ⟨s, hs, -, rfl⟩ := mem_of_scoped? hdeclared
    exact h.trail_of_below hid ((hd _ _ hid).scopes hs).1
  ownMember := fun hb hm => h.trail_ownMember hb hm
  aliased := by
    intro b name hb
    obtain ⟨u, hu, hb⟩ := List.exists_of_findSome?_eq_some hb
    obtain ⟨id, hid⟩ := mem_liveUnits.mp hu
    obtain ⟨e, -, hb⟩ := Option.bind_eq_some_iff.mp hb
    exact h.trail_of_below hid (Arena.branchTo_below hb)

end Program

namespace Analysis

variable {a : Analysis} {asked : Program → Branch → Prop} {b : Branch}

theorem Reachable.addsProperties (h : a.Reachable asked) {id : UnitId} {u : SourceUnit}
    (hu : a.unit? id = some u) : u.AddsProperties := by
  obtain ⟨source, arena, ha, namespaces, outline, rfl⟩ := h.assembled.exists_build hu
  exact SourceUnit.addsProperties_build ha a.program.config id

theorem Reachable.placed_or_detours (h : a.Reachable asked) (hb : a.program.Trail b) :
    a.program.Placed b ∨ a.program.Detours b := by
  obtain ⟨u, hu, htrail⟩ := hb
  refine htrail.isInPlace_or_detours.imp (fun hplace => ⟨u, hu, hplace, fun hwritten => ?_⟩)
    fun hdetours => ⟨u, hu, hdetours⟩
  have hsyntactic := SourceUnit.isSyntactic_of_isInPlace (h.declaring hu) (h.addsProperties hu)
    (h.assembled.documents hu) hplace hwritten
  exact (h.sound.unit _ u hu).2.rooted.branchTo_of_below
    (Arena.Rooted.below_of_syntactic htrail.unit_eq hsyntactic)

theorem Reachable.closed_trail (h : a.Reachable asked) : a.program.Closed a.program.Trail :=
  (h.sound.fullyClosed_trail fun _ _ hu => h.declaring hu).closed

theorem Reachable.trail_ask (h : a.Reachable Program.Trail) {q : Question}
    (hq : a.program.Trail q.branch) : q.Holds a.program.Trail (q.ask.run a).1 :=
  (holds_ask h.closed_trail hq (h.holds_of_closed fun _ h => h.closed_trail)).1

end Analysis

end SquirrelAnalyzer
