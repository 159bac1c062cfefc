import SquirrelAnalyzer.Proofs.History
import SquirrelAnalyzer.Proofs.Replay

namespace SquirrelAnalyzer

namespace Program

/-- The program with another limit for the depth of walks and the same entries. It stands between two
programs of the same sources: the second is this one only if it has recorded the same. -/
def withDepth (p : Program) (limit : Nat) : Program :=
  { p with config := { p.config with maxDepth := limit } }

end Program

namespace Resolve

variable {p : Program} {limit : Nat} {ask : Ask}

theorem superclassesUpTo_withDepth {n : Nat} {seen : List NodeRef} {cls : Branch} :
    superclassesUpTo (p.withDepth limit) ask n seen cls = superclassesUpTo p ask n seen cls := by
  induction n generalizing seen cls with
  | zero => rfl
  | succ n ih =>
    simp only [superclassesUpTo, ih]
    rfl

theorem findMember_withDepth {name : String} {arity : Option Nat} :
    findMember (p.withDepth limit) ask name arity = findMember p ask name arity := by
  funext v
  cases v with
  | node b _ _ =>
    simp only [findMember, levels, Value.branch?, superclasses, superclassesUpTo_withDepth]
    rfl
  | nominal => rfl

theorem thisAmong_withDepth {path : List (Branch × NodeId)} :
    thisAmong (p.withDepth limit) ask path = thisAmong p ask path := by
  induction path with
  | nil => rfl
  | cons head rest ih =>
    simp only [thisAmong, ih]
    rfl

theorem nameAmong_withDepth {unit : UnitId} {name : String} {arity : Option Nat}
    {path : List (Branch × NodeId)} :
    nameAmong (p.withDepth limit) ask unit name arity path = nameAmong p ask unit name arity path := by
  induction path with
  | nil => rfl
  | cons head rest ih =>
    simp only [nameAmong, nameAt, findMember_withDepth, ih]
    rfl

theorem lookupType_withDepth {b : Branch} {type : String} :
    lookupType (p.withDepth limit) ask b type = lookupType p ask b type := by
  unfold lookupType typeRoot lookupName memberValue
  simp only [findMember_withDepth, nameAmong_withDepth]
  rfl

theorem definitionStep_withDepth {b : Branch} :
    definitionStep (p.withDepth limit) ask b = definitionStep p ask b := by
  simp only [definitionStep, memberOf, documentedValue, nameDefinition, lookupName, baseClass,
    thisValue, lookupType_withDepth, findMember_withDepth, nameAmong_withDepth, thisAmong_withDepth]
  rfl

theorem valueStep_withDepth {b : Branch} :
    valueStep (p.withDepth limit) ask b = valueStep p ask b := by
  simp only [valueStep, metaValue, callValue, returnValue, baseClass, thisValue,
    lookupType_withDepth, thisAmong_withDepth]
  rfl

end Resolve

namespace Program

variable {p : Program} {d d' : Nat} {q : Query} {b : Branch}

theorem step_withDepth (ask : Ask) : (p.withDepth d).step ask q b = p.step ask q b := by
  cases q with
  | definition => exact Resolve.definitionStep_withDepth
  | value => exact Resolve.valueStep_withDepth

theorem isStep_withDepth {t : Plan (Option q.Answer)} :
    (p.withDepth d).IsStep q b t ↔ p.IsStep q b t := by
  simp only [IsStep, step_withDepth]

end Program

theorem Walk.refuses_eq_false_iff {w : Walk} {limit : Nat} {f : Frame} :
    w.refuses limit f = false ↔ w.depth < limit ∧ f ∉ w.visited := by
  rw [← Bool.not_eq_true, Walk.refuses_iff, not_or, Nat.not_le]

namespace Plan.Runs

variable {p : Program} {α : Type} {t : Plan α} {s s' : Progress} {walks : List Walk} {a : α}
  {d d' : Nat}

theorem walk_mem (h : Runs p t s walks a s') : s.walk ∈ walks := by
  induction h with
  | done a s => exact List.mem_singleton_self _
  | known _ _ ih => exact ih
  | refused => exact List.mem_cons_self
  | frame => exact List.mem_cons_self

theorem aborted_eq_false (h : Runs p t s walks a s') (hclean : s'.walk.aborted = false) :
    s.walk.aborted = false := by
  rw [← Bool.not_eq_true]
  intro haborted
  rw [h.restores.2.2 haborted] at hclean
  cases hclean

theorem leave_visited {f : Frame} {s₁ : Progress} (h : Runs p t (s.enter f) walks a s₁)
    {r : Option f.query.Answer} {outer : Bool} :
    (s₁.leave f.query f.ref r outer).walk.visited = s.walk.visited := by
  simp [Progress.leave, Walk.leave, h.restores.1, Progress.enter, Walk.enter]

theorem deeper (h : Runs (p.withDepth d) t s walks a s') (hclean : s'.walk.aborted = false)
    {w : Walk} (hroom : w.depth + d ≤ d' + s.walk.depth)
    (hapart : ∀ v ∈ walks, ∀ f ∈ v.visited, f ∉ s.walk.visited → f ∉ w.visited) :
    ∃ walks', Runs (p.withDepth d') t ⟨w, s.memo⟩ walks' a ⟨w, s'.memo⟩ := by
  induction h generalizing w with
  | done a s => exact ⟨_, .done a _⟩
  | known hknown _ ih =>
    obtain ⟨walks', hrest⟩ := ih hclean hroom hapart
    exact ⟨walks', .known hknown hrest⟩
  | refused _ _ rest =>
    rw [rest.restores.2.2 rfl] at hclean
    cases hclean
  | @frame α q b next s s₁ s' inner walks t r a hknown henters hstep step rest ihstep ihrest =>
    have hdepth := step.restores.2.1
    obtain ⟨hdeep, hout⟩ := Walk.refuses_eq_false_iff.mp henters
    generalize href : ((p.withDepth d).subject q b).ref = ref at *
    -- neither the frame nor what was around it was given up
    have hinner := (Bool.or_eq_false_iff.mp (rest.aborted_eq_false hclean)).1
    have hback : (s₁.leave q ref r s.walk.aborted).walk.visited = s.walk.visited :=
      step.leave_visited
    have hlevel : (s₁.leave q ref r s.walk.aborted).walk.depth = s.walk.depth := by
      simp [Progress.leave, Walk.leave, hdepth, Progress.enter, Walk.enter]
    have hnew : (⟨q, ref⟩ : Frame) ∉ w.visited :=
      hapart _ (List.mem_cons_of_mem _ (List.mem_append_left _ step.walk_mem)) ⟨q, ref⟩
        List.mem_cons_self hout
    have henters' : w.refuses d' ⟨q, ref⟩ = false :=
      Walk.refuses_eq_false_iff.mpr ⟨by have : s.walk.depth < d := hdeep; omega, hnew⟩
    obtain ⟨inner', hstep'⟩ := ihstep (w := w.enter ⟨q, ref⟩) hinner
      (by simp only [Walk.enter, Progress.enter]; omega)
      (fun v hv f hf hfs => List.not_mem_cons_of_ne_of_not_mem
        (fun hne => hfs (hne ▸ List.mem_cons_self))
        (hapart v (List.mem_cons_of_mem _ (List.mem_append_left _ hv)) f hf
          fun h => hfs (List.mem_cons_of_mem _ h)))
    obtain ⟨walks', hrest'⟩ := ihrest hclean (hlevel ▸ hroom) fun v hv f hf hfs =>
      hapart v (List.mem_cons_of_mem _ (List.mem_append_right _ hv)) f hf (hback ▸ hfs)
    have hsame : (⟨w.enter ⟨q, ref⟩, s₁.memo⟩ : Progress).leave q ref r w.aborted =
        ⟨w, (s₁.leave q ref r s.walk.aborted).memo⟩ := by
      simp only [Progress.leave, hinner, w.leave_enter]
      rfl
    rw [← hsame] at hrest'
    subst href
    exact ⟨_, .frame hknown henters'
      (Program.isStep_withDepth.mpr (Program.isStep_withDepth.mp hstep)) hstep' hrest'⟩

theorem remembers (h : Runs p t s walks a s') (hclean : s'.walk.aborted = false) :
    ∀ v ∈ walks, ∀ f ∈ v.visited, f ∈ s.walk.visited ∨ s'.memo.get? f.query f.ref ≠ none := by
  induction h with
  | done a s => exact fun v hv f hf => .inl (List.mem_singleton.mp hv ▸ hf)
  | known _ _ ih => exact ih hclean
  | refused _ _ rest =>
    rw [rest.restores.2.2 rfl] at hclean
    cases hclean
  | @frame α q b next s s₁ s' inner walks t r a hknown henters hstep step rest ihstep ihrest =>
    have hinner := (Bool.or_eq_false_iff.mp (rest.aborted_eq_false hclean)).1
    have hmemo : (s₁.leave q (p.subject q b).ref r s.walk.aborted).memo =
        s₁.memo.insert q (p.subject q b).ref r := by
      simp [Progress.leave, hinner]
    have hframe : s'.memo.get? q (p.subject q b).ref = some r :=
      rest.advances.memo _ _ _ (hmemo ▸ Memo.get?_insert_self s₁.memo q _ r)
    intro v hv f hf
    rcases List.mem_cons.mp hv with rfl | hv
    · exact .inl hf
    rcases List.mem_append.mp hv with hv | hv
    · rcases ihstep hinner v hv f hf with hin | hsome
      · rcases List.mem_cons.mp hin with rfl | hin
        · exact .inr (by rw [hframe]; exact Option.some_ne_none _)
        · exact .inl hin
      · obtain ⟨o, ho⟩ := Option.ne_none_iff_exists'.mp hsome
        by_cases hf : f = ⟨q, (p.subject q b).ref⟩
        · exact .inr (by rw [hf, hframe]; exact Option.some_ne_none _)
        · have hkept := (Memo.get?_insert_of_ne s₁.memo r hf).trans ho
          have hlater := rest.advances.memo _ _ _ (hmemo ▸ hkept)
          exact .inr (by rw [hlater]; exact Option.some_ne_none _)
    · rcases ihrest hclean v hv f hf with hin | hsome
      · rw [step.leave_visited] at hin
        exact .inl hin
      · exact .inr hsome

end Plan.Runs

namespace Program

variable {p p' : Program} {q : Query} {b d : Branch} {ds : List Branch} {s : Sources} {limit : Nat}
  {f : Entries}

def OwnerSettled (p : Program) (d : Branch) : Prop :=
  ∀ owner name, p.qualifiedParts? d = some (owner, name) →
    ((p.answer .value owner).run.run {}).2.walk.aborted = false

def OwnersSettled (p : Program) (ds : List Branch) : Prop :=
  ∀ pre d post, ds = pre ++ d :: post → (p.recording (p.recordAll pre)).OwnerSettled d

theorem answer_withDepth (hle : p.config.maxDepth ≤ limit)
    (hclean : ((p.answer q b).run.run {}).2.walk.aborted = false) :
    (((p.withDepth limit).answer q b).run.run {}).1 = ((p.answer q b).run.run {}).1 := by
  obtain ⟨walks, hruns⟩ := p.runs_answer q b {}
  obtain ⟨walks', hdeeper⟩ : ∃ walks', Plan.Runs (p.withDepth limit) (.ask q b .done) {} walks' _
      ⟨{}, _⟩ :=
    Plan.Runs.deeper (d := p.config.maxDepth) hruns hclean (by simpa using hle) fun _ _ _ _ h => h
  have hrun : ((p.withDepth limit).answer q b).run.run {} = (_, ⟨{}, _⟩) :=
    hdeeper.run_eq (Nat.lt_succ_of_le (Program.unvisited_le _ {}))
  rw [hrun]

theorem qualifiedParts?_withDepth : (p.withDepth limit).qualifiedParts? d = p.qualifiedParts? d := by
  have hshape (b : Branch) : (p.withDepth limit).shape? b = p.shape? b := rfl
  simp only [qualifiedParts?, hshape]

theorem namespaceEntry?_withDepth (hle : p.config.maxDepth ≤ limit) (hd : p.OwnerSettled d) :
    Program.namespaceEntry? (p.withDepth limit) d = p.namespaceEntry? d := by
  have hunit : (p.withDepth limit).unit? d.unit = p.unit? d.unit := rfl
  rw [ Program.namespaceEntry?, Program.namespaceEntry?, hunit, qualifiedParts?_withDepth]
  cases hparts : p.qualifiedParts? d with
  | none => simp only [Option.bind_eq_bind, Option.bind_none]
  | some parts =>
    have hvalue : (p.withDepth limit).freshValue? parts.1 = p.freshValue? parts.1 := by
      rw [freshValue?, answer_withDepth hle (hd _ _ hparts), freshValue?]
    simp only [Option.bind_eq_bind, Option.bind_some, hvalue]

theorem recording_withDepth : (p.withDepth limit).recording f = (p.recording f).withDepth limit :=
  rfl

theorem recordAll_withDepth (hle : p.config.maxDepth ≤ limit) (h : p.OwnersSettled ds) :
    (p.withDepth limit).recordAll ds = p.recordAll ds := by
  induction ds using List.reverseRecOn with
  | nil => rw [recordAll_nil, recordAll_nil]
  | append_singleton ds d ih =>
    have hds : p.OwnersSettled ds := fun pre x post hx =>
      h pre x (post ++ [d]) (by rw [hx, List.append_assoc, List.cons_append])
    have hlast : (p.recording (p.recordAll ds)).OwnerSettled d := h ds d [] rfl
    have hentry := namespaceEntry?_withDepth (p := p.recording (p.recordAll ds)) hle hlast
    rw [recordAll_concat, recordAll_concat, ih hds, recording_withDepth, hentry]

theorem fresh?_withDepth (config : Config) (id : UnitId) (source : String) :
    fresh? { config with maxDepth := limit } id source = fresh? config id source := rfl

theorem BuiltBy.withDepth (h : p.BuiltBy s) (limit : Nat) : (p.withDepth limit).BuiltBy s := by
  refine ⟨h.loaded, fun id => ?_⟩
  have hunit : (p.withDepth limit).skeleton.unit? id = p.skeleton.unit? id := rfl
  have hfresh : fresh? (p.withDepth limit).config id = fresh? p.config id :=
    funext fun source => fresh?_withDepth p.config id source
  rw [hunit, hfresh, h.unit]

theorem PlainOf.sameEntries (h : p.plain.PlainOf p') : p.SameEntries p' := by
  intro id
  have hunit := congrArg (Option.map (·.namespaces)) (h.unit id)
  rwa [p.plainOf_plain.unit, Option.map_map, Option.map_map] at hunit

theorem SameEntries.plainOf (h : p.SameEntries p') (hb : p.BuiltBy s) (hb' : p'.BuiltBy s)
    (hc : p.config = p'.config) (hi : p.imports = p'.imports) : p.plain.PlainOf p' := by
  refine ⟨hc, hi, fun id => ?_⟩
  have hskel : p.skeleton.unit? id = p'.skeleton.unit? id := by rw [hb.unit, hb'.unit, hc]
  have hnames := h id
  rw [p.plainOf_plain.unit]
  cases hu : p.unit? id with
  | none =>
    have hloaded : ¬ (p'.unit? id).isSome = true := by rw [hb'.loaded, ← hb.loaded, hu]; nofun
    rw [Option.not_isSome_iff_eq_none.mp hloaded]
  | some u =>
    obtain ⟨namespaces, outline, hu'⟩ := unit?_of_skeleton hskel hu
    rw [hu, hu'] at hnames
    obtain rfl : u.namespaces = namespaces := Option.some.inj hnames
    rw [hu']
    rfl

end Program

namespace Analysis

/-- Two analyses of the same sources under the same imports, each with a limit of its own for the
depth of walks. -/
structure SameSources (a a' : Analysis) : Prop where
  sources : ∃ s, History s a ∧ History s a'
  config : a'.program.config = { a.program.config with maxDepth := a'.program.config.maxDepth }
  imports : a.program.imports = a'.program.imports

variable {a a' : Analysis}

theorem SameSources.plainOf (h : a.SameSources a') (hentries : a.program.SameEntries a'.program) :
    (a.program.withDepth a'.program.config.maxDepth).plain.PlainOf a'.program := by
  obtain ⟨sources, hbuilt, hbuilt'⟩ := h.sources
  have hsame : (a.program.withDepth a'.program.config.maxDepth).SameEntries a'.program := hentries
  exact hsame.plainOf (hbuilt.builtBy.withDepth _) hbuilt'.builtBy h.config.symm h.imports

theorem SameSources.sameEntries (h : a.SameSources a') (ho : a.program.InOrder)
    (ho' : a'.program.InOrder) (hle : a.program.config.maxDepth ≤ a'.program.config.maxDepth)
    (hsettled : a.program.OwnersSettled (a.program.orderOf none)) :
    a.program.SameEntries a'.program := by
  obtain ⟨sources, hbuilt, hbuilt'⟩ := h.sources
  have hskel := (hbuilt.builtBy.withDepth a'.program.config.maxDepth).plainOf hbuilt'.builtBy
    h.config.symm h.imports
  have hrecords : (a.program.withDepth a'.program.config.maxDepth).Records
      (a'.program.recordAll (a'.program.orderOf none)) := by
    rw [← Program.PlainOf.recordAll hskel, ← Program.PlainOf.orderOf hskel]
    exact (Program.recordAll_withDepth hle hsettled).symm ▸ ho
  exact Program.PlainOf.sameEntries (p := a.program.withDepth a'.program.config.maxDepth)
    (hrecords.plainOf ho' hskel)

/-- If two analyses of the same sources have recorded the same, a question that is settled in the
first, with nothing given up, has the same answer in the second, if that leaves as much room, and the
same is remembered. It may then be asked in the middle of another walk that is in none of the frames
entered for it. -/
theorem answer_deeper (h : a.SameSources a') (hentries : a.program.SameEntries a'.program)
    (q : Query) (b : Branch) (m : Memo) : ∃ walks r s,
    Plan.Runs a.program (.ask q b .done) ⟨{}, m⟩ walks r s ∧
    (a.program.answer q b).run.run ⟨{}, m⟩ = (r, s) ∧
    (s.walk.aborted = false → ∀ w,
      w.depth + a.program.config.maxDepth ≤ a'.program.config.maxDepth →
      (∀ v ∈ walks, ∀ f ∈ v.visited, f ∉ w.visited) →
      (a'.program.answer q b).run.run ⟨w, m⟩ = (r, ⟨w, s.memo⟩)) := by
  have hanswer : a'.program.answer = (a.program.withDepth a'.program.config.maxDepth).answer :=
    (h.plainOf hentries).answer.symm.trans (Program.plainOf_plain _).answer
  obtain ⟨walks, hruns⟩ := a.program.runs_answer q b ⟨{}, m⟩
  refine ⟨walks, _, _, hruns, rfl, fun hclean w hroom hapart => ?_⟩
  obtain ⟨walks', hdeeper⟩ : ∃ walks', Plan.Runs (a.program.withDepth a'.program.config.maxDepth)
      (.ask q b .done) ⟨w, m⟩ walks' _ ⟨w, _⟩ :=
    Plan.Runs.deeper (d := a.program.config.maxDepth) hruns hclean hroom
      fun v hv f hf _ => hapart v hv f hf
  rw [hanswer]
  exact hdeeper.run_eq (Nat.lt_succ_of_le (Program.unvisited_le _ w))

theorem answer_deeper_initializer : ∃ a a',
    ofSources { maxDepth := 5 } Imports.none ["class A {} function A::f() {} local x = A.f;"] =
      .ok a ∧
    ofSources { maxDepth := 6 } Imports.none ["class A {} function A::f() {} local x = A.f;"] =
      .ok a' ∧
    a.SameSources a' ∧ a.program.SameEntries a'.program ∧
      let b : Branch := ⟨⟨0⟩, ⟨10⟩, [⟨11⟩, ⟨12⟩, ⟨13⟩]⟩
      let f : Branch := ⟨⟨0⟩, ⟨6⟩, [⟨2⟩, ⟨13⟩]⟩
      let w : Walk := { visited := [⟨.value, ⟨⟨0⟩, ⟨11⟩⟩⟩], depth := 1 }
      ∃ s, (a.program.answer .value b).run.run {} = (some (.ofBranch f), s) ∧
        s.walk.aborted = false ∧
        (a'.program.answer .value b).run.run ⟨w, ∅⟩ = (some (.ofBranch f), ⟨w, s.memo⟩) := by
  let b : Branch := ⟨⟨0⟩, ⟨10⟩, [⟨11⟩, ⟨12⟩, ⟨13⟩]⟩
  let f : Branch := ⟨⟨0⟩, ⟨6⟩, [⟨2⟩, ⟨13⟩]⟩
  have hbuilt : (ofSources { maxDepth := 5 } Imports.none
      ["class A {} function A::f() {} local x = A.f;"]).toOption.any (fun a =>
      (ofSources { maxDepth := 6 } Imports.none
        ["class A {} function A::f() {} local x = A.f;"]).toOption.any fun a' =>
        let found := (a.program.answer .value b).run.run {}
        decide (a.program.config = { maxDepth := 5 } ∧ a'.program.config = { maxDepth := 6 } ∧
          a.program.imports.edges = a'.program.imports.edges ∧
          (a.program.unit? ⟨0⟩).map (·.namespaces) = (a'.program.unit? ⟨0⟩).map (·.namespaces) ∧
          found.1 = some (.ofBranch f) ∧ found.2.walk.aborted = false ∧
          found.2.memo.get? .value ⟨⟨0⟩, ⟨11⟩⟩ = none)) = true := by
    decide +kernel
  obtain ⟨a, ha, hbuilt⟩ := exists_ok hbuilt
  obtain ⟨a', ha', hbuilt⟩ := exists_ok hbuilt
  obtain ⟨hconfig, hconfig', himports, hentries, hfound, hclean, hapart⟩ := of_decide_eq_true hbuilt
  have hsame : a.SameSources a' :=
    ⟨⟨_, .ofSources ha, .ofSources ha'⟩, by rw [hconfig, hconfig'], congrArg Imports.mk himports⟩
  have hnames : a.program.SameEntries a'.program := by
    rintro ⟨_ | n⟩
    · exact hentries
    · have hnone {a : Analysis} (h : a.program.BuiltBy fun id =>
          ["class A {} function A::f() {} local x = A.f;"][id.index]?) :
          a.program.unit? ⟨n + 1⟩ = none :=
        Option.not_isSome_iff_eq_none.mp (by rw [h.loaded]; nofun)
      rw [hnone (History.ofSources ha).builtBy, hnone (History.ofSources ha').builtBy]
  obtain ⟨walks, r, s, hruns, hrun, hdeeper⟩ := answer_deeper hsame hnames .value b ∅
  have hstart : (⟨{}, ∅⟩ : Progress) = {} := rfl
  rw [hstart] at hrun
  rw [hrun] at hfound hclean hapart
  obtain rfl : r = _ := hfound
  refine ⟨a, a', ha, ha', hsame, hnames, s, hrun, hclean, hdeeper hclean _ ?_ fun v hv f hf hin => ?_⟩
  · rw [hconfig, hconfig']
    exact Nat.le_refl 6
  -- what is entered is remembered, and the declarator is not
  obtain rfl := List.mem_singleton.mp hin
  rcases hruns.remembers hclean v hv _ hf with hstart | hsome
  · cases hstart
  · exact hsome hapart

theorem answer_deeper_unrecorded : ∃ a a',
    ofSources { maxDepth := 5 } Imports.none
      ["class A {} local b = A; local c = b; function c::f() {} A.f;"] = .ok a ∧
    ofSources { maxDepth := 6 } Imports.none
      ["class A {} local b = A; local c = b; function c::f() {} A.f;"] = .ok a' ∧
    a.SameSources a' ∧ ¬ a.program.SameEntries a'.program ∧
      let b : Branch := ⟨⟨0⟩, ⟨16⟩, [⟨17⟩, ⟨18⟩, ⟨19⟩]⟩
      (∃ s, (a.program.answer .definition b).run.run {} = (none, s) ∧ s.walk.aborted = false) ∧
      ∃ s, (a'.program.answer .definition b).run.run {} = (some ⟨⟨0⟩, ⟨14⟩, [⟨2⟩, ⟨19⟩]⟩, s) := by
  let b : Branch := ⟨⟨0⟩, ⟨16⟩, [⟨17⟩, ⟨18⟩, ⟨19⟩]⟩
  have hbuilt : (ofSources { maxDepth := 5 } Imports.none
      ["class A {} local b = A; local c = b; function c::f() {} A.f;"]).toOption.any (fun a =>
      (ofSources { maxDepth := 6 } Imports.none
        ["class A {} local b = A; local c = b; function c::f() {} A.f;"]).toOption.any fun a' =>
        let found := (a.program.answer .definition b).run.run {}
        let found' := (a'.program.answer .definition b).run.run {}
        decide (a.program.config = { maxDepth := 5 } ∧ a'.program.config = { maxDepth := 6 } ∧
          a.program.imports.edges = a'.program.imports.edges ∧
          (a.program.unit? ⟨0⟩).map (·.namespaces) ≠ (a'.program.unit? ⟨0⟩).map (·.namespaces) ∧
          found.1 = none ∧ found.2.walk.aborted = false ∧
          found'.1 = some ⟨⟨0⟩, ⟨14⟩, [⟨2⟩, ⟨19⟩]⟩)) = true := by
    decide +kernel
  obtain ⟨a, ha, hbuilt⟩ := exists_ok hbuilt
  obtain ⟨a', ha', hbuilt⟩ := exists_ok hbuilt
  obtain ⟨hconfig, hconfig', himports, hentries, hnone, hclean, hsome⟩ := of_decide_eq_true hbuilt
  have hsame : a.SameSources a' :=
    ⟨⟨_, .ofSources ha, .ofSources ha'⟩, by rw [hconfig, hconfig'], congrArg Imports.mk himports⟩
  exact ⟨a, a', ha, ha', hsame, fun h => hentries (h ⟨0⟩), ⟨_, Prod.ext hnone rfl, hclean⟩,
    _, Prod.ext hsome rfl⟩

end Analysis

end SquirrelAnalyzer
