import SquirrelAnalyzer.Proofs.Forgotten
import SquirrelAnalyzer.Proofs.Shallow

namespace SquirrelAnalyzer

namespace Arena

variable {a : Arena} {b b' : Branch}

theorem anchor_anchor (a : Arena) (b : Branch) : a.anchor (a.anchor b) = a.anchor b := by
  by_cases hs : a.isSyntactic b = true
  · simp only [anchor, if_pos hs]
  · cases hto : a.branchTo b.target with
    | none => simp only [anchor, if_neg hs, hto, Option.getD_none]
    | some b' =>
      have hb' := isSyntactic_of_below a.isSyntactic_root (branchTo_below hto)
      simp only [anchor, if_neg hs, hto, Option.getD_some, if_pos hb']

end Arena

namespace Program

variable {p : Program} {b : Branch} {q : Query}

theorem Sound.ref_anchor (h : p.Sound) (b : Branch) : (p.anchor b).ref = b.ref := by
  unfold anchor
  split
  · next u hu =>
    obtain ⟨hid, hs⟩ := h.unit b.unit u hu
    exact Arena.ref_anchor (by rw [hs.unit, hid])
  · rfl

theorem Sound.anchor_anchor (h : p.Sound) (b : Branch) : p.anchor (p.anchor b) = p.anchor b := by
  cases hu : p.unit? b.unit with
  | none =>
    have hb : p.anchor b = b := by simp only [anchor, hu]
    rw [hb, hb]
  | some u =>
    have hunit : (p.anchor b).unit = b.unit := congrArg NodeRef.unit (h.ref_anchor b)
    rw [anchor_of_unit (hunit ▸ hu), anchor_of_unit hu, Arena.anchor_anchor]

theorem answerWithin_anchor (h : p.Sound) (hb : p.ready? q b = none) (hs : p.subject q b = b)
    (n : Nat) : p.answerWithin (n + 1) q (p.anchor b) = p.answerWithin (n + 1) q b := by
  have hr : (p.anchor b).ref = (p.subject q b).ref := by rw [hs, h.ref_anchor]
  obtain ⟨hs', hb'⟩ := ready?_of_ref hb hr
  rw [answerWithin_of_frame hb, answerWithin_of_frame hb', hs', hs, h.ref_anchor,
    step_eq_stepAt, step_eq_stepAt, h.anchor_anchor]

end Program

def Ask.ofKnown (known : (q : Query) → Branch → Option (Option q.Answer)) : Ask := fun q b =>
  match known q b with
  | some answer => Resolve.ofOption answer
  | none => Resolve.abort

theorem Plan.run_ofKnown {α : Type} {known : (q : Query) → Branch → Option (Option q.Answer)}
    {t : Plan α} {a : α} (h : t.eval known = some a) (s : Progress) :
    (t.run (Ask.ofKnown known)).run s = (a, s) := by
  induction t with
  | done a =>
    cases h
    rfl
  | ask q b next ih =>
    obtain ⟨r, hr, hn⟩ := Option.bind_eq_some_iff.mp h
    rw [run_ask]
    simp only [Ask.ofKnown, hr]
    exact ih r hn

namespace Resolve

variable {p : Program} {b : Branch} {name : String}

theorem run_valueStep_identifier (ask : Ask) (hs : p.shape? b = some (.identifier name)) (s : Progress) :
    (valueStep p ask b).run.run s =
      match (ask .definition b).run.run s with
      | (none, t) => (none, t)
      | (some d, t) => if d.target = b.target then (none, t) else (ask .value d).run.run t := by
  have hstep : valueStep p ask b = (do
      let d ← ask .definition b
      if d.target = b.target then failure else ask .value d) := by
    unfold valueStep
    rw [hs]
    rfl
  rw [hstep, OptionT.run_bind, Option.elimM, StateT.run_bind]
  cases hd : (ask .definition b).run.run s with
  | mk o t =>
    cases o with
    | none => rfl
    | some d =>
      show (if d.target = b.target then failure else ask .value d : Resolve Value).run.run t =
        if d.target = b.target then (none, t) else (ask .value d).run.run t
      by_cases ht : d.target = b.target
      · rw [if_pos ht, if_pos ht]
        rfl
      · rw [if_neg ht, if_neg ht]

end Resolve

namespace Program

variable {p : Program} {b : Branch}

theorem exists_identifier (hk : p.kind? b = some .identifier) :
    ∃ name, p.shape? b = some (.identifier name) := by
  obtain ⟨s, hs, hk⟩ := Option.map_eq_some_iff.mp hk
  cases s with
  | identifier name => exact ⟨name, hs⟩
  | _ => cases hk

theorem ready?_identifier (hk : p.kind? b = some .identifier) (q : Query) :
    p.ready? q b = none ∧ p.subject q b = b := by
  have hi : q.isIndirect .identifier = true := by cases q <;> rfl
  have hs := subject_of_indirect (q := q) hk hi
  refine ⟨?_, hs⟩
  simp [ready?, hs, hk, hi]

inductive NamedBy (b : Branch) (stands : Branch → Option Value → Prop) :
    Option Branch → Option Value → Prop
  | undefined : NamedBy b stands none none
  | itself {d : Branch} (ht : d.target = b.target) : NamedBy b stands (some d) none
  | defined {d : Branch} {v : Option Value} (ht : d.target ≠ b.target) (h : stands d v) :
      NamedBy b stands (some d) v

theorem NamedBy.mono {stands stands' : Branch → Option Value → Prop} {b b' : Branch}
    {o : Option Branch} {v : Option Value} (h : NamedBy b stands o v) (hb : b.ref = b'.ref)
    (hs : ∀ d v, stands d v → stands' d v) : NamedBy b' stands' o v := by
  have ht : b.target = b'.target := congrArg NodeRef.node hb
  cases h with
  | undefined => exact .undefined
  | itself h => exact .itself (h.trans ht)
  | defined hne h => exact .defined (fun he => hne (he.trans ht.symm)) (hs _ _ h)

theorem eval_identifier (h : p.Sound) (hk : p.kind? b = some .identifier)
    {known : (q : Query) → Branch → Option (Option q.Answer)} {v : Option Value}
    (hv : (p.plan .value b).eval known = some v) :
    ∃ o, known .definition (p.anchor b) = some o ∧
      NamedBy b (fun d v => known .value d = some v) o v := by
  obtain ⟨name, hs⟩ := exists_identifier hk
  have hr := h.ref_anchor b
  have hrun := Plan.run_ofKnown hv {}
  rw [← run_plan] at hrun
  rw [← shape?_congr hr] at hs
  have hstep := (Resolve.run_valueStep_identifier (Ask.ofKnown known) hs {}).symm.trans hrun
  cases hd : known .definition (p.anchor b) with
  | none =>
    simp only [Ask.ofKnown, hd] at hstep
    cases hstep
  | some o =>
    refine ⟨o, rfl, NamedBy.mono ?_ hr fun _ _ h => h⟩
    cases o with
    | none =>
      simp only [Ask.ofKnown, hd] at hstep
      cases hstep
      exact .undefined
    | some d =>
      simp only [Ask.ofKnown, hd] at hstep
      have hstep : (if d.target = (p.anchor b).target then (none, {})
          else (Ask.ofKnown known .value d).run.run {}) = (v, ({} : Progress)) := hstep
      split at hstep
      · next he =>
        cases hstep
        exact .itself he
      · next he =>
        refine .defined he ?_
        cases hv : known .value d with
        | none =>
          simp only [Ask.ofKnown, hv] at hstep
          cases hstep
        | some v' =>
          simp only [Ask.ofKnown, hv] at hstep
          cases hstep
          rfl

theorem Grown.identifier (h : p.Sound) {m : Memo} (hm : p.Grown m)
    (hk : p.kind? b = some .identifier) {v : Option Value} (hv : m.get? .value b.ref = some v) :
    ∃ o, m.get? .definition b.ref = some o ∧
      NamedBy b (fun d v => p.known m .value d = some v) o v := by
  induction hm with
  | empty => simp at hv
  | @insert m q b' r hm hready hnew heval ih =>
    have hle := Memo.le_insert (r := r) hnew
    by_cases hf : (⟨.value, b.ref⟩ : Frame) = ⟨q, (p.subject q b').ref⟩
    · obtain ⟨rfl, hr⟩ := Frame.mk.inj hf
      rw [hr, Memo.get?_insert_self] at hv
      cases hv
      have hk' : p.kind? b' = some .identifier := by
        rw [← hk]
        simp only [kind?, shape?_congr hr, subject]
      obtain ⟨o, ho, hnamed⟩ := eval_identifier h hk' heval
      have hra : (p.anchor b').ref = b.ref := (h.ref_anchor b').trans hr.symm
      have hka : p.kind? (p.anchor b') = some .identifier := by
        rw [← hk]
        simp only [kind?, shape?_congr hra]
      obtain ⟨hna, hsa⟩ := ready?_identifier hka .definition
      simp only [known, hna, Option.none_or, hsa, hra] at ho
      exact ⟨o, hle _ _ _ ho, hnamed.mono hr.symm fun d v => hle.known⟩
    · rw [Memo.get?_insert_of_ne _ _ hf] at hv
      obtain ⟨o, ho, hnamed⟩ := ih hv
      exact ⟨o, hle _ _ _ ho, hnamed.mono rfl fun d v => hle.known⟩

theorem run_of_known {m : Memo} {q : Query} {b : Branch} {r : Option q.Answer}
    (h : p.known m q b = some r) (w : Walk) (n : Nat) :
    (p.answerWithin (n + 1) q b).run.run ⟨w, m⟩ = (r, ⟨w, m⟩) := by
  rcases Option.or_eq_some_iff.mp h with hb | ⟨hb, hm⟩
  · rw [answerWithin_of_ready hb]
    rfl
  · rw [answerWithin_of_frame hb]
    exact Resolve.run_remembered_of_get? (s := ⟨w, m⟩) hm _

theorem run_frame {q : Query} (hb : p.ready? q b = none) {s t : Progress}
    (hm : s.memo.get? q (p.subject q b).ref = none) {r : Option q.Answer}
    (h : (p.answer q b).run.run s = (r, t)) (ht : t.walk.aborted = false) :
    ∃ s₁, (p.step (p.answerWithin p.frameCount) q (p.subject q b)).run.run
      (s.enter ⟨q, (p.subject q b).ref⟩) = (r, s₁) ∧ s₁.walk.aborted = false ∧
      t = s₁.leave q (p.subject q b).ref r s.walk.aborted := by
  unfold answer at h
  rw [answerWithin_of_frame hb] at h
  cases hf : s.walk.refuses p.config.maxDepth ⟨q, (p.subject q b).ref⟩ with
  | true =>
    rw [Resolve.run_remembered hm, Resolve.run_guarded_of_refuses hf] at h
    cases h
    cases ht
  | false =>
    cases hr : (p.step (p.answerWithin p.frameCount) q (p.subject q b)).run.run
        (s.enter ⟨q, (p.subject q b).ref⟩) with | mk r₁ s₁
    rw [Progress.run_remembered_of_run hm hf hr] at h
    cases h
    simp only [Progress.leave, Walk.leave, Bool.or_eq_false_iff] at ht
    exact ⟨s₁, rfl, ht.1, rfl⟩

theorem run_identifier (h : p.Sound) {m : Memo} (hm : p.Grown m)
    (hk : p.kind? b = some .identifier) {v : Option Value} {t : Progress}
    (hv : (p.answer .value b).run.run ⟨{}, m⟩ = (v, t)) (ht : t.walk.aborted = false) :
    ∃ o m₁, (p.answer .definition b).run.run ⟨{}, m⟩ = (o, ⟨{}, m₁⟩) ∧
      NamedBy b (fun d v => ∃ m₂, (p.answer .value d).run.run ⟨{}, m₁⟩ = (v, ⟨{}, m₂⟩)) o v := by
  obtain ⟨hready, hs⟩ := ready?_identifier hk .value
  obtain ⟨hdef, hsd⟩ := ready?_identifier hk .definition
  cases hmem : m.get? .value b.ref with
  | some answer =>
    obtain ⟨o, ho, hnamed⟩ := hm.identifier h hk hmem
    have hknown : p.known m .value b = some answer := by simp [known, hready, hs, hmem]
    obtain ⟨rfl, rfl⟩ := Prod.mk.inj ((run_of_known hknown {} p.frameCount).symm.trans hv)
    have hdo : p.known m .definition b = some o := by simp [known, hdef, hsd, ho]
    exact ⟨o, m, run_of_known hdo {} p.frameCount,
      hnamed.mono rfl fun d v hd => ⟨m, run_of_known hd {} p.frameCount⟩⟩
  | none =>
    obtain ⟨s₁, hrun, hclean, -⟩ := run_frame hready (s := ⟨{}, m⟩) hmem hv ht
    rw [hs] at hrun
    obtain ⟨name, hshape⟩ := exists_identifier hk
    rw [← shape?_congr (h.ref_anchor b)] at hshape
    have hstep := (Resolve.run_valueStep_identifier _ hshape _).symm.trans hrun
    have hlift := answerWithin_lifts (p := p) (Nat.le_succ p.frameCount)
    cases hd : (p.answerWithin p.frameCount .definition (p.anchor b)).run.run
        (Progress.enter ⟨{}, m⟩ ⟨.value, b.ref⟩) with | mk o s₂
    have hfirst (hs₂ : s₂.walk.aborted = false) :
        (p.answer .definition b).run.run ⟨{}, m⟩ = (o, ⟨{}, s₂.memo⟩) := by
      unfold answer
      rw [← answerWithin_anchor h hdef hsd]
      exact hlift _ _ _ _ _ hd hs₂ {} (Walk.shallower_start _)
    rw [hd] at hstep
    cases o with
    | none =>
      cases hstep
      exact ⟨none, s₁.memo, hfirst hclean, .undefined⟩
    | some d =>
      have hstep : (if d.target = (p.anchor b).target then (none, s₂)
          else (p.answerWithin p.frameCount .value d).run.run s₂) = (v, s₁) := hstep
      split at hstep
      · next he =>
        cases hstep
        exact ⟨some d, s₁.memo, hfirst hclean, (NamedBy.itself he).mono (h.ref_anchor b) fun _ _ => id⟩
      · next he =>
        have hs₂ := ((p.answerWithin_sound p.frameCount) _ _ _ _ _ hstep).1.aborted hclean
        refine ⟨some d, s₂.memo, hfirst hs₂, (NamedBy.defined he ?_).mono (h.ref_anchor b) fun _ _ => id⟩
        exact ⟨s₁.memo, hlift _ _ _ _ _ hstep hclean {} (Walk.shallower_start _)⟩

theorem settled_of_run (hp : p.Rooted) {m : Memo} (hm : p.Grown m) {q : Query}
    {r : Option q.Answer} {t : Progress} (h : (p.answer q b).run.run ⟨{}, m⟩ = (r, t))
    (ht : t.walk.aborted = false) : ∃ n, p.settled n q b = some r := by
  obtain ⟨hadv, hknown⟩ := p.answer_sound q b _ r t h
  exact (hadv.grown hm).settled hp (hknown ht)

end Program

namespace Analysis

def Clean (a : Analysis) (q : Query) (b : Branch) : Prop :=
  ((a.program.answer q b).run.run { memo := a.memo }).2.walk.aborted = false

instance (a : Analysis) (q : Query) (b : Branch) : Decidable (a.Clean q b) :=
  inferInstanceAs (Decidable (_ = false))

variable {asked : Program → Branch → Prop} {a : Analysis} {r d : Branch}

/-- A name stands for what its definition stands for, unless the nodes of both have the same
number: then the name stands for nothing, even if they are nodes of different units. -/
theorem value_identifier (h : a.Reachable asked) (hk : a.program.kind? r = some .identifier)
    (hd : ((definition r).run a).1 = some d) (hr : a.Clean .value r) (hdc : a.Clean .value d) :
    ((value r).run a).1 =
        (if d.target = r.target then none else ((value d).run ((definition r).run a).2).1) ∧
      (a.program.Written → ((value r).run a).1 =
        if d.target = r.target then none else ((value d).run a).1) := by
  cases hrun : (a.program.answer .value r).run.run { memo := a.memo } with | mk v t
  have ht : t.walk.aborted = false := by
    unfold Clean at hr
    rwa [hrun] at hr
  have hv : ((value r).run a).1 = v := congrArg Prod.fst hrun
  obtain ⟨o, m, hfirst, hnamed⟩ := Program.run_identifier h.sound h.grown hk hrun ht
  have ho : ((definition r).run a).1 = o := congrArg Prod.fst hfirst
  have hm : ((definition r).run a).2 = { a with memo := m } := by
    show { a with memo := ((a.program.answer .definition r).run.run ⟨{}, a.memo⟩).2.memo } = _
    rw [hfirst]
  obtain rfl := ho.symm.trans hd
  rw [hv, hm]
  cases hnamed with
  | itself ht => exact ⟨by rw [if_pos ht], fun _ => by rw [if_pos ht]⟩
  | defined ht hsecond =>
    obtain ⟨m', hsecond⟩ := hsecond
    have hw : ((value d).run { a with memo := m }).1 = v := congrArg Prod.fst hsecond
    rw [if_neg ht, if_neg ht, hw]
    refine ⟨rfl, fun hwritten => ?_⟩
    have hp := h.sound.rooted hwritten
    have hgrown := (a.program.answer_sound .definition r _ _ _ hfirst).1.grown h.grown
    obtain ⟨n, hn⟩ := Program.settled_of_run hp hgrown hsecond rfl
    obtain ⟨n', hn'⟩ := Program.settled_of_run hp h.grown rfl hdc
    exact Program.settled_unique hn hn'

theorem value_identifier_imported : ∃ a r d,
    ofSources {} (Imports.ofList [(⟨1⟩, ⟨0⟩)]) ["local x = 1;", "x;"] = .ok a ∧
    a.program.kind? r = some .identifier ∧ ((definition r).run a).1 = some d ∧
    a.Clean .value r ∧ a.Clean .value d ∧
    ((value r).run a).1 =
        (if d.target = r.target then none else ((value d).run ((definition r).run a).2).1) ∧
      (a.program.Written → ((value r).run a).1 =
        if d.target = r.target then none else ((value d).run a).1) := by
  let r : Branch := ⟨⟨1⟩, ⟨0⟩, [⟨1⟩, ⟨2⟩]⟩
  let d : Branch := ⟨⟨0⟩, ⟨2⟩, [⟨3⟩, ⟨4⟩]⟩
  have hbuilt : (ofSources {} (Imports.ofList [(⟨1⟩, ⟨0⟩)]) ["local x = 1;", "x;"]).toOption.any
      (fun a => decide (a.program.kind? r = some .identifier ∧
        ((definition r).run a).1 = some d ∧ a.Clean .value r ∧ a.Clean .value d)) = true := by
    decide +kernel
  obtain ⟨a, ha, h⟩ := exists_ok hbuilt
  obtain ⟨hk, hd, hr, hdc⟩ := of_decide_eq_true h
  have hreach : a.Reachable fun _ _ => True := .ofSources ha
  exact ⟨a, r, d, ha, hk, hd, hr, hdc, value_identifier hreach hk hd hr hdc⟩

theorem value_identifier_same_number : ∃ a r d l,
    ofSources {} (Imports.ofList [(⟨1⟩, ⟨0⟩)]) ["local x = 1;", "1; x;"] = .ok a ∧
    a.program.kind? r = some .identifier ∧ ((definition r).run a).1 = some d ∧ d.ref ≠ r.ref ∧
    a.Clean .value r ∧ a.Clean .value d ∧ ((value r).run a).1 = none ∧
    ((value d).run a).1 = some (.ofBranch l) ∧ a.program.kind? l = some .literal := by
  let r : Branch := ⟨⟨1⟩, ⟨2⟩, [⟨3⟩, ⟨4⟩]⟩
  let d : Branch := ⟨⟨0⟩, ⟨2⟩, [⟨3⟩, ⟨4⟩]⟩
  let l : Branch := ⟨⟨0⟩, ⟨1⟩, [⟨2⟩, ⟨3⟩, ⟨4⟩]⟩
  have hbuilt : (ofSources {} (Imports.ofList [(⟨1⟩, ⟨0⟩)])
      ["local x = 1;", "1; x;"]).toOption.any (fun a => decide (
        a.program.kind? r = some .identifier ∧ ((definition r).run a).1 = some d ∧
        d.ref ≠ r.ref ∧ a.Clean .value r ∧ a.Clean .value d ∧ ((value r).run a).1 = none ∧
        ((value d).run a).1 = some (.ofBranch l) ∧ a.program.kind? l = some .literal)) = true := by
    decide +kernel
  obtain ⟨a, ha, h⟩ := exists_ok hbuilt
  exact ⟨a, r, d, l, ha, of_decide_eq_true h⟩

end Analysis

end SquirrelAnalyzer
