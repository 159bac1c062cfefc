import SquirrelAnalyzer.Proofs.Assembled
import SquirrelAnalyzer.Proofs.NameValue

namespace SquirrelAnalyzer

namespace SourceUnit

def isPlainProperty (u : SourceUnit) (id : NodeId) : Bool :=
  u.arena.isSynthetic id && u.arena.kind? id = some .metaProperty &&
    ((u.facts.accessors.get? id).bind (·.getter)).isNone

def isPropertyName (u : SourceUnit) (id : NodeId) : Bool :=
  u.arena.isSynthetic id && u.arena.kind? id = some .identifier

def declaredAbove? (u : SourceUnit) (b : Branch) : Option Branch :=
  b.upward.find? fun c => u.declaration? b.target = some c.target

end SourceUnit

namespace Program

def HasSlot (p : Program) (q : Query) (b : Branch) : Prop :=
  ∃ kind, p.kind? b = some kind ∧ q.isIndirect kind = true

variable {p : Program} {q : Query} {b b' : Branch} {u : SourceUnit}

theorem kind?_of_unit? (hu : p.unit? b.unit = some u) : p.kind? b = u.arena.kind? b.target := by
  simp only [kind?, shape?, hu, Option.bind_some, Arena.kind?, Arena.shape?, Option.map_map]
  rfl

theorem HasSlot.congr (h : p.HasSlot q b) (hr : b'.ref = b.ref) : p.HasSlot q b' := by
  obtain ⟨kind, hk, hi⟩ := h
  exact ⟨kind, (kind?_congr hr).trans hk, hi⟩

theorem HasSlot.of_ready? (h : p.ready? q b = none) : p.HasSlot q (p.subject q b) :=
  indirect_of_ready? h

theorem HasSlot.subject_eq (h : p.HasSlot q b) : p.subject q b = b := by
  obtain ⟨kind, hk, hi⟩ := h
  exact subject_of_indirect hk hi

theorem HasSlot.ready?_eq (h : p.HasSlot q b) : p.ready? q b = none := by
  have hs := h.subject_eq
  obtain ⟨kind, hk, hi⟩ := h
  simp [ready?, hs, hk, hi]

theorem HasSlot.answer_eq (h : p.HasSlot q b) :
    p.answer q b = Resolve.remembered p.config.maxDepth q b.ref
      (p.stepAt (p.answerWithin p.frameCount) q (p.anchor b)) := by
  unfold answer
  rw [answerWithin_of_frame h.ready?_eq, h.subject_eq, step_eq_stepAt]

theorem answer_value_self {kind : Kind} (hk : p.kind? b = some kind)
    (hi : Query.isIndirect .value kind = false) : p.answer .value b = pure (.ofBranch b) := by
  have hready : p.ready? .value b = some (some (.ofBranch b)) := by
    simp [ready?, subject, hk, hi, direct?]
  exact answerWithin_of_ready hready

theorem metaValue_getter {ask : Ask} {getter : NodeId} (hu : p.unit? b.unit = some u)
    (hget : (u.facts.accessors.get? b.target).bind (·.getter) = some getter) :
    Resolve.metaValue p ask b = (do
      let function ← ask .value (← Resolve.ofOption (u.arena.branchTo getter))
      Resolve.returnValue p ask (← Resolve.ofOption function.branch?)) := by
  rw [Resolve.metaValue, hu, Resolve.bind_ofOption_some, hget]

theorem metaValue_congr {ask : Ask} (hu : p.unit? b.unit = some u) (hr : b'.ref = b.ref)
    (hget : ((u.facts.accessors.get? b.target).bind (·.getter)).isSome) :
    Resolve.metaValue p ask b' = Resolve.metaValue p ask b := by
  obtain ⟨hunit, htarget⟩ := Branch.ref_eq_iff.mp hr
  obtain ⟨getter, hget⟩ := Option.isSome_iff_exists.mp hget
  rw [metaValue_getter hu hget, metaValue_getter (hunit ▸ hu) (htarget ▸ hget)]

theorem anchor_of_synthetic (hp : p.Sound) (hu : p.unit? b.unit = some u)
    (hid : u.arena.isSynthetic b.target = true) : p.anchor b = b := by
  rw [anchor_of_unit hu]
  exact Arena.anchor_of_synthetic (hp.unit b.unit u hu).2.rooted hid

theorem anchor_of_written (hp : p.Sound) (hu : p.unit? b.unit = some u) (hr : b'.ref = b.ref)
    (hid : u.arena.isSynthetic b.target = false) : p.anchor b' = p.anchor b := by
  obtain ⟨hunit, htarget⟩ := Branch.ref_eq_iff.mp hr
  obtain ⟨hid', hsound⟩ := hp.unit b.unit u hu
  have hb : b.unit = u.arena.unit := by rw [hsound.unit, hid']
  have hlt : b'.target.index < u.arena.parsedSize := by
    rw [htarget]
    simpa [Arena.isSynthetic] using hid
  rw [anchor_of_unit hu, anchor_of_unit (hunit ▸ hu)]
  exact hsound.rooted.anchor_congr (hunit.trans hb) hb htarget hlt

theorem valueStep_metaProperty {key : NodeId} (hs : p.shape? b = some (.metaProperty key))
    (ask : Ask) : Resolve.valueStep p ask b = Resolve.metaValue p ask b := by
  unfold Resolve.valueStep
  rw [hs]
  rfl

theorem stepAt_congr (hp : p.Sound) (ha : p.Assembled) (hu : p.unit? b.unit = some u)
    (hs : p.HasSlot q b) (hr : b'.ref = b.ref) (hname : u.isPropertyName b.target = false)
    (hplain : u.isPlainProperty b.target = false) (ask : Ask) :
    p.stepAt ask q (p.anchor b') = p.stepAt ask q (p.anchor b) := by
  cases hsyn : u.arena.isSynthetic b.target with
  | false => rw [anchor_of_written hp hu hr hsyn]
  | true =>
    obtain ⟨hunit, htarget⟩ := Branch.ref_eq_iff.mp hr
    have hsyn' : u.arena.isSynthetic b'.target = true := htarget ▸ hsyn
    rw [anchor_of_synthetic hp hu hsyn, anchor_of_synthetic hp (hunit ▸ hu) hsyn']
    obtain ⟨kind, hk, hi⟩ := hs
    obtain ⟨s, hshape, rfl⟩ := Option.map_eq_some_iff.mp hk
    obtain ⟨v, hv, hus⟩ := unit?_of_shape? hshape
    obtain rfl := Option.some.inj (hu.symm.trans hv)
    have hkind : u.arena.kind? b.target = some s.kind := by rw [← kind?_of_unit? hu, hk]
    rcases ha.documents hu b.target s hsyn hus with ⟨key, rfl⟩ | ⟨name, property, rfl, -⟩
    · cases q with
      | definition => cases hi
      | value =>
        have hget : ((u.facts.accessors.get? b.target).bind (·.getter)).isSome = true := by
          simpa [SourceUnit.isPlainProperty, hsyn, hkind, Shape.kind] using hplain
        have hshape' : p.shape? b' = some (.metaProperty key) := (shape?_congr hr).trans hshape
        show Resolve.valueStep p ask b' = Resolve.valueStep p ask b
        rw [valueStep_metaProperty hshape, valueStep_metaProperty hshape', metaValue_congr hu hr hget]
    · rw [SourceUnit.isPropertyName, hsyn, hkind] at hname
      cases hname

theorem metaValue_plain {ask : Ask} (hu : p.unit? b.unit = some u)
    (hget : (u.facts.accessors.get? b.target).bind (·.getter) = none) :
    Resolve.metaValue p ask b = pure (.ofBranch b) := by
  rw [Resolve.metaValue, hu, Resolve.bind_ofOption_some, hget]

theorem stepAt_plainProperty (hp : p.Sound) (hu : p.unit? b.unit = some u)
    (hplain : u.isPlainProperty b.target = true) (ask : Ask) :
    p.HasSlot .value b ∧ p.stepAt ask .value (p.anchor b) = pure (.ofBranch b) := by
  simp only [SourceUnit.isPlainProperty, Bool.and_eq_true, decide_eq_true_eq,
    Option.isNone_iff_eq_none] at hplain
  obtain ⟨⟨hsyn, hkind⟩, hget⟩ := hplain
  obtain ⟨s, hs, hkind'⟩ : ∃ s, p.shape? b = some s ∧ s.kind = .metaProperty := by
    rw [← kind?_of_unit? hu] at hkind
    exact Option.map_eq_some_iff.mp hkind
  refine ⟨⟨.metaProperty, by rw [kind?_of_unit? hu, hkind], rfl⟩, ?_⟩
  cases s with
  | metaProperty key =>
    rw [anchor_of_synthetic hp hu hsyn]
    exact (valueStep_metaProperty hs ask).trans (metaValue_plain hu hget)
  | _ => cases hkind'

theorem declared?_propertyName (hp : p.Sound) (ha : p.Assembled) (hu : p.unit? b.unit = some u)
    (hname : u.isPropertyName b.target = true) :
    (∃ name, u.arena.shape? b.target = some (.identifier name)) ∧ p.anchor b = b ∧
      Resolve.declared? u b = some (u.declaredAbove? b) := by
  simp only [SourceUnit.isPropertyName, Bool.and_eq_true, decide_eq_true_eq] at hname
  obtain ⟨hsyn, hkind⟩ := hname
  obtain ⟨s, hs, hkind'⟩ : ∃ s, u.arena.shape? b.target = some s ∧ s.kind = .identifier := by
    obtain ⟨n, hn, he⟩ := Option.map_eq_some_iff.mp hkind
    exact ⟨n.shape, by rw [Arena.shape?, hn]; rfl, he⟩
  rcases ha.documents hu b.target s hsyn hs with ⟨key, rfl⟩ | ⟨name, property, rfl, hdecl, hprop⟩
  · cases hkind'
  have hto := Arena.branchTo_of_synthetic (hp.unit b.unit u hu).2.rooted hprop
  refine ⟨⟨name, hs⟩, anchor_of_synthetic hp hu hsyn, ?_⟩
  simp only [Resolve.declared?, SourceUnit.declaredAbove?, hdecl, hto, Option.map_some,
    Option.or_none, Option.some.injEq]
  congr 2
  funext c
  exact decide_eq_decide.mpr eq_comm

theorem stepAt_propertyName (hp : p.Sound) (ha : p.Assembled) (hu : p.unit? b.unit = some u)
    (hname : u.isPropertyName b.target = true) (ask : Ask) :
    p.HasSlot .definition b ∧
      p.stepAt ask .definition (p.anchor b) = Resolve.ofOption (u.declaredAbove? b) := by
  obtain ⟨⟨name, hs⟩, hanchor, hdeclared⟩ := declared?_propertyName hp ha hu hname
  refine ⟨⟨.identifier, by rw [kind?, shape?_of_unit? hu hs]; rfl, rfl⟩, ?_⟩
  rw [hanchor]
  show Resolve.definitionStep p ask b = _
  rw [Resolve.definitionStep, hu, Resolve.bind_ofOption_some, hs, Resolve.bind_ofOption_some]
  dsimp only
  rw [hdeclared]

theorem run_answer_start (hs : p.HasSlot q b) (hd : 0 < p.config.maxDepth) {r : Option q.Answer}
    {s : Progress}
    (h : (p.stepAt (p.answerWithin p.frameCount) q (p.anchor b)).run.run
      (({} : Progress).enter ⟨q, b.ref⟩) = (r, s)) :
    (p.answer q b).run.run {} = (r, s.leave q b.ref r false) := by
  have hf : ({} : Walk).refuses p.config.maxDepth ⟨q, b.ref⟩ = false := by
    simpa [Walk.refuses] using Nat.ne_of_gt hd
  rw [hs.answer_eq]
  exact Progress.run_remembered_of_run (Memo.get?_empty q b.ref) hf h

theorem run_answer_plainProperty (hp : p.Sound) (hu : p.unit? b.unit = some u)
    (hplain : u.isPlainProperty b.target = true) (hd : 0 < p.config.maxDepth) :
    ((p.answer .value b).run.run {}).1 = some (.ofBranch b) := by
  obtain ⟨hslot, hstep⟩ := stepAt_plainProperty hp hu hplain (p.answerWithin p.frameCount)
  rw [run_answer_start hslot hd (by rw [hstep]; rfl)]

theorem run_answer_propertyName (hp : p.Sound) (ha : p.Assembled) (hu : p.unit? b.unit = some u)
    (hname : u.isPropertyName b.target = true) (hd : 0 < p.config.maxDepth) :
    (p.answer .definition b).run.run {} = (u.declaredAbove? b,
      (({} : Progress).enter ⟨.definition, b.ref⟩).leave .definition b.ref (u.declaredAbove? b)
        false) := by
  obtain ⟨hslot, hstep⟩ := stepAt_propertyName hp ha hu hname (p.answerWithin p.frameCount)
  rw [run_answer_start hslot hd (by rw [hstep]; rfl)]

theorem run_answer_depth_zero (hs : p.HasSlot q b) (hd : p.config.maxDepth = 0) :
    (p.answer q b).run.run {} = (none, { walk := ({} : Walk).abort }) := by
  have hf : ({} : Walk).refuses p.config.maxDepth ⟨q, b.ref⟩ = true := by simp [Walk.refuses, hd]
  have hrun := @Resolve.run_remembered p.config.maxDepth q b.ref {} (Memo.get?_empty q b.ref)
    (p.stepAt (p.answerWithin p.frameCount) q (p.anchor b))
  rw [Resolve.run_guarded_of_refuses hf] at hrun
  rw [hs.answer_eq]
  exact hrun

theorem HasSlot.isPlainProperty_eq_false (hs : p.HasSlot .definition b)
    (hu : p.unit? b.unit = some u) : u.isPlainProperty b.target = false := by
  obtain ⟨kind, hk, hi⟩ := hs
  rw [kind?_of_unit? hu] at hk
  have hne : kind ≠ .metaProperty := by
    rintro rfl
    cases hi
  simp [SourceUnit.isPlainProperty, hk, hne]

theorem HasSlot.answer_congr (hp : p.Sound) (ha : p.Assembled) (hu : p.unit? b.unit = some u)
    (hs : p.HasSlot q b) (hr : b'.ref = b.ref) (hname : u.isPropertyName b.target = false)
    (hplain : u.isPlainProperty b.target = false) : p.answer q b' = p.answer q b := by
  rw [hs.answer_eq, (hs.congr hr).answer_eq, hr, stepAt_congr hp ha hu hs hr hname hplain]

end Program

namespace Analysis

variable {asked : Program → Branch → Prop} {a : Analysis} {u : SourceUnit} {b b' : Branch}

theorem run_walk {α : Type} (resolve : Program → Resolving α) (a : Analysis) :
    (walk resolve).run a = (((resolve a.program).run { memo := a.memo }).1,
      { a with memo := ((resolve a.program).run { memo := a.memo }).2.memo }) := rfl

/-- What is found first about a node that has a memo entry, and what is remembered of it, is the
same for every path to the node, except for properties known from documentation: one without a
getter is its own value at the path it is reached by, and the name of one is declared on that
path. -/
theorem ask_routes (h : a.Reachable asked) (hu : a.unit? b.unit = some u) (hr : b'.ref = b.ref) :
    (a.program.HasSlot .definition b →
      ((definition b).run { a with memo := ∅ } = (definition b').run { a with memo := ∅ } ↔
        (0 < a.program.config.maxDepth → u.isPropertyName b.target = true →
          u.declaredAbove? b = u.declaredAbove? b'))) ∧
    (a.program.HasSlot .value b → u.isPropertyName b.target = false →
      ((value b).run { a with memo := ∅ } = (value b').run { a with memo := ∅ } ↔
        (0 < a.program.config.maxDepth → u.isPlainProperty b.target = true → b = b'))) := by
  obtain ⟨hunit, htarget⟩ := Branch.ref_eq_iff.mp hr
  have hp := h.sound
  have hu' : a.unit? b'.unit = some u := hunit ▸ hu
  unfold definition value
  simp only [run_walk]
  refine ⟨fun hs => ?_, fun hs hname => ?_⟩
  · cases hname : u.isPropertyName b.target with
    | false =>
      rw [hs.answer_congr hp h.assembled hu hr hname (hs.isPlainProperty_eq_false hu)]
      exact iff_of_true rfl fun _ hn => absurd hn Bool.false_ne_true
    | true =>
      have hname' : u.isPropertyName b'.target = true := htarget ▸ hname
      rcases Nat.eq_zero_or_pos a.program.config.maxDepth with hd | hd
      · rw [Program.run_answer_depth_zero hs hd, Program.run_answer_depth_zero (hs.congr hr) hd]
        exact iff_of_true rfl fun hlt => absurd hd (Nat.ne_of_gt hlt)
      · rw [Program.run_answer_propertyName hp h.assembled hu hname hd,
          Program.run_answer_propertyName hp h.assembled hu' hname' hd, hr]
        constructor
        · exact fun he _ _ => congrArg Prod.fst he
        · intro he
          rw [he hd rfl]
  · cases hplain : u.isPlainProperty b.target with
    | false =>
      rw [hs.answer_congr hp h.assembled hu hr hname hplain]
      exact iff_of_true rfl fun _ hn => absurd hn Bool.false_ne_true
    | true =>
      have hplain' : u.isPlainProperty b'.target = true := htarget ▸ hplain
      rcases Nat.eq_zero_or_pos a.program.config.maxDepth with hd | hd
      · rw [Program.run_answer_depth_zero hs hd, Program.run_answer_depth_zero (hs.congr hr) hd]
        exact iff_of_true rfl fun hlt => absurd hd (Nat.ne_of_gt hlt)
      · constructor
        · intro he _ _
          have hvalue := congrArg Prod.fst he
          simp only [Program.run_answer_plainProperty hp hu hplain hd,
            Program.run_answer_plainProperty hp hu' hplain' hd, Option.some.injEq] at hvalue
          exact congrArg (fun v : Value => v.branch?.getD b) hvalue
        · intro he
          rw [he hd rfl]

theorem ask_routes_method : ∃ a b b',
    ofSources {} Imports.none ["class N {} class N.A { function f() { return 1; } }"] = .ok a ∧
    a.program.HasSlot .value b ∧ b'.ref = b.ref ∧ b ≠ b' ∧
    (value b).run { a with memo := ∅ } = (value b').run { a with memo := ∅ } := by
  let b : Branch := ⟨⟨0⟩, ⟨10⟩, [⟨11⟩, ⟨12⟩, ⟨13⟩]⟩
  let b' : Branch := ⟨⟨0⟩, ⟨10⟩, [⟨11⟩, ⟨12⟩, ⟨2⟩, ⟨13⟩]⟩
  have hbuilt : (ofSources {} Imports.none
      ["class N {} class N.A { function f() { return 1; } }"]).toOption.any (fun a =>
        a.program.kind? b = some .methodDefinition && (a.unit? b.unit).any fun u =>
          !u.isPropertyName b.target && !u.isPlainProperty b.target) = true := by decide +kernel
  obtain ⟨a, ha, h⟩ := exists_ok hbuilt
  obtain ⟨hk, h⟩ := Bool.and_eq_true_iff.mp h
  obtain ⟨u, hu, h⟩ := (Option.any_eq_true _ _).mp h
  obtain ⟨hname, hplain⟩ := Bool.and_eq_true_iff.mp h
  have hs : a.program.HasSlot .value b := ⟨.methodDefinition, of_decide_eq_true hk, rfl⟩
  have hreachable : a.Reachable fun _ _ => True := .ofSources ha
  have hroutes := (@ask_routes _ a u b b' hreachable hu rfl).2 hs (by simpa using hname)
  refine ⟨a, b, b', ha, hs, rfl, by decide, hroutes.mpr fun _ h => ?_⟩
  rw [h] at hplain
  cases hplain

theorem ask_routes_property : ∃ a this other b b',
    ofSources {} Imports.none ["class N {}\n/** @property foo */\nclass N.A { function f() { return this.foo; } }\nN.A.foo;"] = .ok a ∧
    ((definition this).run { a with memo := ∅ }).1 = some b ∧
    ((definition other).run { a with memo := ∅ }).1 = some b' ∧
    a.program.HasSlot .value b ∧ b'.ref = b.ref ∧
    ((value b).run { a with memo := ∅ }).1 ≠ ((value b').run { a with memo := ∅ }).1 := by
  let this : Branch := ⟨⟨0⟩, ⟨8⟩, [⟨9⟩, ⟨10⟩, ⟨11⟩, ⟨12⟩, ⟨13⟩, ⟨14⟩, ⟨21⟩]⟩
  let other : Branch := ⟨⟨0⟩, ⟨19⟩, [⟨20⟩, ⟨21⟩]⟩
  let b : Branch := ⟨⟨0⟩, ⟨23⟩, [⟨14⟩, ⟨21⟩]⟩
  let b' : Branch := ⟨⟨0⟩, ⟨23⟩, [⟨14⟩, ⟨2⟩, ⟨21⟩]⟩
  have hbuilt : (ofSources {} Imports.none ["class N {}\n/** @property foo */\nclass N.A { function f() { return this.foo; } }\nN.A.foo;"]).toOption.any
      (fun a => decide (((definition this).run { a with memo := ∅ }).1 = some b ∧
        ((definition other).run { a with memo := ∅ }).1 = some b' ∧
        a.program.kind? b = some .metaProperty ∧
        ((value b).run { a with memo := ∅ }).1 ≠ ((value b').run { a with memo := ∅ }).1)) = true := by
    decide +kernel
  obtain ⟨a, ha, h⟩ := exists_ok hbuilt
  obtain ⟨hthis, hother, hk, hvalue⟩ := of_decide_eq_true h
  exact ⟨a, this, other, b, b', ha, hthis, hother, ⟨.metaProperty, hk, rfl⟩, rfl, hvalue⟩

end Analysis

end SquirrelAnalyzer
