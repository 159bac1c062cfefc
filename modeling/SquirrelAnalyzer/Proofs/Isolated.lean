import SquirrelAnalyzer.Proofs.Agree

namespace SquirrelAnalyzer

namespace Edit

def Elsewhere (id : UnitId) : Edit → Prop
  | add _ => True
  | replace id' _ | remove id' => id' ≠ id
  | setImports _ => False

def arena? (e : Edit) : Option Arena :=
  e.source?.bind fun source => (Analysis.parseArena source).toOption

def Untagged (e : Edit) : Prop := ∀ arena ∈ e.arena?, arena.Untagged

instance (id : UnitId) : DecidablePred (Elsewhere id)
  | add _ => .isTrue trivial
  | replace id' _ | remove id' => inferInstanceAs (Decidable (id' ≠ id))
  | setImports _ => .isFalse not_false

instance (e : Edit) : Decidable e.Untagged :=
  inferInstanceAs (Decidable (∀ arena ∈ e.arena?, arena.Untagged))

variable {e : Edit} {id : UnitId} {p : Program} {u : SourceUnit}

theorem Elsewhere.changed?_ne (h : e.Elsewhere id) (hu : p.unit? id = some u) :
    e.changed? p ≠ some id := by
  cases e with
  | add source =>
    rintro ⟨rfl⟩
    rw [Program.unit?_nextId] at hu
    cases hu
  | replace id' source => exact fun he => h (Option.some.inj he)
  | remove id' => exact fun he => h (Option.some.inj he)
  | setImports imports => exact h.elim

theorem Elsewhere.imports (h : e.Elsewhere id) (p : Program) : e.imports p = p.imports := by
  cases e with
  | setImports imports => exact h.elim
  | _ => rfl

end Edit

namespace Program

variable {p p' base : Program} {id : UnitId} {e : Edit}

theorem Separate.congr (h : p.Separate) (hs : p'.skeleton = p.skeleton)
    (hunit : ∀ id u, p'.unit? id = some u → u.id = id ∧ u.Sound) : p'.Separate where
  unit := hunit
  imports id := by
    rw [imports_of_skeleton hs, h.imports]
  aliases id u hu := by
    obtain ⟨namespaces, outline, hv⟩ := unit?_of_skeleton (congrArg (·.unit? id) hs) hu
    have ha := h.aliases id _ hv
    exact ha

theorem Edited.separate (h : p.Edited e base) (hp : p.Sound) (hs : p.Separate)
    (he : e.Elsewhere id) (ht : e.Untagged) : base.Separate where
  unit := h.unit hp
  imports id' := by rw [h.imports, he.imports, hs.imports]
  aliases id' u hu := by
    by_cases hc : e.changed? p = some id'
    · obtain ⟨source, arena, hsource, harena, rfl⟩ := h.built id' u hc hu
      refine SourceUnit.aliases_build _ _ (ht arena ?_)
      simp [Edit.arena?, hsource, harena, Except.toOption]
    · rw [h.kept id' hc] at hu
      exact hs.aliases id' u hu

theorem Assembled.separate (h : p.Assembled) (hp : p.Sound) (himports : ∀ id, p.imports.of id = [])
    (ht : ∀ id u, p.unit? id = some u → u.arena.Untagged) : p.Separate where
  unit := hp.unit
  imports := himports
  aliases id u hu := by
    obtain ⟨source, arena, harena, namespaces, outline, rfl⟩ := h.exists_build hu
    refine SourceUnit.aliases_build _ _ fun c hc => ht id _ hu c ?_
    rw [SourceUnit.comments_build]
    exact hc

end Program

namespace Analysis

variable {asked : Program → Branch → Prop} {a a' : Analysis} {id : UnitId} {u : SourceUnit}

theorem Reachable.refreshed (h : a.Reachable asked) : a.program.Refreshed := by
  induction h with
  | ofConfig config => exact ⟨none, fun id u hu => by simp [Analysis.ofConfig, Program.unit?] at hu⟩
  | ofSources h =>
    obtain ⟨arenas, hs, rfl⟩ := of_ofSources h
    exact ⟨none, (Program.recorded_ofArenas _ _ (parsed_of_mapM hs)).inOrder⟩
  | edit h he =>
    obtain ⟨base, -, hr, -⟩ := Program.recorded_apply h.sound h.within he
    exact ⟨_, hr.orderOf⟩
  | @ask a _ q _ ih =>
    rw [program_ask]
    exact ih

def applyAll (edits : List Edit) (a : Analysis) : Analysis :=
  edits.foldl (fun a e => (e.apply a).toOption.getD a) a

theorem apply_elsewhere (h : a.Reachable asked) (hs : a.program.Separate)
    (hu : a.unit? id = some u) {e : Edit} (he : e.Elsewhere id) (ht : e.Untagged)
    (ha : e.apply a = .ok a') :
    a'.program.Separate ∧ a'.unit? id = some u ∧ a'.program.config = a.program.config := by
  obtain ⟨base, hbase, hr, houtline⟩ := Program.recorded_apply h.sound h.within ha
  have hsep := (hbase.separate h.sound hs he ht).congr hr.skeleton (h.edit ha).sound.unit
  have hchanged := he.changed?_ne hu
  have hconfig := (Program.config_of_skeleton hr.skeleton).trans hbase.config
  refine ⟨hsep, ?_, hconfig⟩
  have hkept := hbase.kept id hchanged
  have halike : a'.program.Alike a.program id := by
    refine ⟨hconfig, ?_, hsep, hs⟩
    rw [hr.skeleton, Program.unit?_skeleton, hkept, Program.unit?_skeleton]
  rw [← hu]
  refine halike.unit? (h.edit ha).refreshed h.refreshed ?_
  rw [houtline id hchanged, Program.outline?, hkept, Program.outline?]

theorem ask_agree (h : a.program.Agree a'.program id) {q : Question} (hq : q.branch.unit = id)
    (hl : ∀ b, q ≠ .label b) :
    (q.ask.run { a with memo := ∅ }).1 = (q.ask.run { a' with memo := ∅ }).1 ∧
      q.Holds (InUnit id) (q.ask.run { a with memo := ∅ }).1 := by
  have hclosed := h.left.closed id
  constructor
  · rw [q.ask_eq_walk]
    exact congrArg (·.1) (h.matches.run_answer (q.resolve_follows hclosed fun _ => hq)
      (q.resolve_follows (h.right.closed id) fun _ => hq)
      (fun ask hask => h.matches.resolve hq hl hask) (s := {}) Memo.holds_empty)
  · obtain ⟨t, hkeeps, ht⟩ := exists_plan hclosed q hq
    rw [← (ht ∅).1]
    exact (Plan.run_holds (Program.answer_holds hclosed) hkeeps (s := { memo := ∅ })
      Memo.holds_empty rfl).1

/-- Without imports and aliases, edits of other units leave a unit as it is, and every answer about
its branches; all branches in these answers are its own. -/
theorem applyAll_elsewhere (h : a.Reachable asked) (himports : ∀ id, a.program.imports.of id = [])
    (htags : ∀ id u, a.unit? id = some u → u.arena.Untagged) (hu : a.unit? id = some u)
    {edits : List Edit} (hedits : ∀ e ∈ edits, e.Elsewhere id ∧ e.Untagged) :
    (applyAll edits a).unit? id = some u ∧
      ∀ q : Question, q.branch.unit = id → (∀ b, q ≠ .label b) →
        (q.ask.run { applyAll edits a with memo := ∅ }).1 = (q.ask.run { a with memo := ∅ }).1 ∧
        q.Holds (InUnit id) (q.ask.run { a with memo := ∅ }).1 := by
  have hs := h.assembled.separate h.sound himports htags
  have hlast : (applyAll edits a).Reachable asked ∧ (applyAll edits a).program.Separate ∧
      (applyAll edits a).unit? id = some u ∧
      (applyAll edits a).program.config = a.program.config := by
    refine List.foldlRecOn edits _ (motive := fun b : Analysis => b.Reachable asked ∧
      b.program.Separate ∧ b.unit? id = some u ∧ b.program.config = a.program.config)
      ⟨h, hs, hu, rfl⟩ ?_
    rintro b ⟨hb, hsep, hub, hconfig⟩ e hmem
    obtain ⟨he, ht⟩ := hedits e hmem
    cases hc : e.apply b with
    | error failure => exact ⟨hb, hsep, hub, hconfig⟩
    | ok b' =>
      obtain ⟨hsep', hub', hconfig'⟩ := apply_elsewhere hb hsep hub he ht hc
      exact ⟨hb.edit hc, hsep', hub', hconfig'.trans hconfig⟩
  obtain ⟨hreach, hsep, hunit, hconfig⟩ := hlast
  refine ⟨hunit, fun q hq hl => ?_⟩
  have hagree : a.program.Agree (applyAll edits a).program id :=
    ⟨hconfig.symm, hu.trans hunit.symm, h.refreshed.apart hs, hreach.refreshed.apart hsep⟩
  obtain ⟨hsame, hholds⟩ := ask_agree hagree hq hl
  exact ⟨hsame.symm, hholds⟩

theorem applyAll_elsewhere_same_names : ∃ a u b v edits,
    ofSources {} Imports.none ["class A {} function A::f() { return 1; } A.f;", "class B {}"] =
      .ok a ∧ a.unit? ⟨0⟩ = some u ∧ u.namespaces.length = 1 ∧
    edits = [.replace ⟨1⟩ "class A {} function A::f() {}", .add "A.f;", .remove ⟨1⟩] ∧
    (applyAll edits a).unit? ⟨1⟩ = none ∧ (applyAll edits a).unit? ⟨0⟩ = some u ∧
    ((value b).run { a with memo := ∅ }).1 = some v ∧
    ((value b).run { applyAll edits a with memo := ∅ }).1 = some v ∧
    Query.Holds (InUnit ⟨0⟩) .value v := by
  let b : Branch := ⟨⟨0⟩, ⟨11⟩, [⟨12⟩, ⟨13⟩]⟩
  let edits : List Edit :=
    [.replace ⟨1⟩ "class A {} function A::f() {}", .add "A.f;", .remove ⟨1⟩]
  have hbuilt : (ofSources {} Imports.none
      ["class A {} function A::f() { return 1; } A.f;", "class B {}"]).toOption.any (fun a =>
        decide (a.program.imports.edges = [] ∧ ∀ u ∈ a.program.liveUnits, u.arena.Untagged) &&
        decide (((value b).run { a with memo := ∅ }).1.isSome = true ∧
          ((applyAll edits a).unit? ⟨1⟩).isNone = true) &&
        (a.unit? ⟨0⟩).any (·.namespaces.length = 1)) = true := by decide +kernel
  have hedits : ∀ e ∈ edits, e.Elsewhere ⟨0⟩ ∧ e.Untagged := by decide +kernel
  obtain ⟨a, ha, h⟩ := exists_ok hbuilt
  obtain ⟨h, hunit⟩ := Bool.and_eq_true_iff.mp h
  obtain ⟨u, hu, hn⟩ := (Option.any_eq_true _ _).mp hunit
  obtain ⟨hprogram, hrun⟩ := Bool.and_eq_true_iff.mp h
  obtain ⟨hedges, htags⟩ := of_decide_eq_true hprogram
  obtain ⟨hvalue, hgone⟩ := of_decide_eq_true hrun
  obtain ⟨v, hv⟩ := Option.isSome_iff_exists.mp hvalue
  have hreachable : a.Reachable fun _ _ => True := .ofSources ha
  obtain ⟨hkept, hasked⟩ := applyAll_elsewhere hreachable
    (fun id => by simp [Imports.of, hedges])
    (fun id w hw => htags w (Program.mem_liveUnits.mpr ⟨id, hw⟩)) hu hedits
  obtain ⟨hsame, hholds⟩ := hasked (.value b) rfl fun _ h => by cases h
  exact ⟨a, u, b, v, edits, ha, hu, of_decide_eq_true hn, rfl, Option.isNone_iff_eq_none.mp hgone,
    hkept, hv, hsame.trans hv, hholds v hv⟩

end Analysis

end SquirrelAnalyzer
