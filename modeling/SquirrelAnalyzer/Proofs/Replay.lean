import SquirrelAnalyzer.Proofs.Routes
import SquirrelAnalyzer.Proofs.Runs

namespace SquirrelAnalyzer

namespace Plan

variable {p : Program} {α : Type} {t t' : Plan α} {s s' : Progress} {walks : List Walk} {a : α}
  {known : (q : Query) → Branch → Option (Option q.Answer)}

theorem Runs.run_eq (h : Runs p t s walks a s') {k : Nat} (hk : p.unvisited s.walk < k) :
    (t.run (p.answerWithin k)).run s = (a, s') := by
  induction h generalizing k with
  | done a s => rfl
  | @known α q b next s s' walks o a hknown rest ih =>
    cases k with
    | zero => exact absurd hk (Nat.not_lt_zero _)
    | succ k =>
      rw [run_ask, Program.run_of_known hknown]
      exact ih hk
  | @refused α q b next s s' walks a hknown hrefuses rest ih =>
    cases k with
    | zero => exact absurd hk (Nat.not_lt_zero _)
    | succ k =>
      have hrun := @Resolve.run_remembered p.config.maxDepth q (p.subject q b).ref s
        (Program.get?_of_known hknown) (p.step (p.answerWithin k) q (p.subject q b))
      rw [Resolve.run_guarded_of_refuses hrefuses] at hrun
      rw [run_ask, Program.answerWithin_of_frame (Program.ready?_of_known hknown), hrun]
      exact ih hk
  | @frame α q b next s s₁ s' inner walks t r a hknown henters hstep step rest ihstep ihrest =>
    cases k with
    | zero => exact absurd hk (Nat.not_lt_zero _)
    | succ k =>
      have hready := Program.ready?_of_known hknown
      have hnew : (⟨q, (p.subject q b).ref⟩ : Frame) ∉ s.walk.visited := fun h => by
        rw [Walk.refuses_iff.mpr (.inr h)] at henters
        cases henters
      have hless := Program.unvisited_enter
        (Program.mem_frames (Program.shape?_subject hready) q) hnew
      have hinner := ihstep (Nat.lt_of_lt_of_le hless (Nat.le_of_lt_succ hk))
      rw [← hstep] at hinner
      have hleave := step.restores.1
      rw [run_ask, Program.answerWithin_of_frame hready,
        Progress.run_remembered_of_run (Program.get?_of_known hknown) henters hinner]
      refine ihrest ?_
      rw [Program.unvisited_congr]
      · exact hk
      · simp [Progress.leave, Walk.leave, hleave, Progress.enter, Walk.enter]

theorem Runs.advances (h : Runs p t s walks a s') : s.Advances p s' :=
  (run_advances (p.answerWithin_sound _) (h.run_eq (Nat.lt_succ_self _))).1

theorem eval_of_run_ofKnown (h : (t.run (Ask.ofKnown known)).run s = (a, s'))
    (ha : s'.walk.aborted = false) : s.walk.aborted = false ∧ t.eval known = some a := by
  induction t generalizing s with
  | done a =>
    cases h
    exact ⟨ha, rfl⟩
  | ask q b next ih =>
    rw [run_ask] at h
    cases hk : known q b with
    | some r =>
      simp only [Ask.ofKnown, hk] at h
      obtain ⟨hs, he⟩ := ih r h
      exact ⟨hs, by simp only [eval, hk, Option.bind_some, he]⟩
    | none =>
      simp only [Ask.ofKnown, hk] at h
      cases (ih none h).1

theorem eval_eq_of_run (h : t.run (Ask.ofKnown known) = t'.run (Ask.ofKnown known)) :
    t.eval known = t'.eval known := by
  apply Option.ext
  intro a
  constructor
  · intro he
    have hrun := run_ofKnown he {}
    rw [h] at hrun
    exact (eval_of_run_ofKnown hrun rfl).2
  · intro he
    have hrun := run_ofKnown he {}
    rw [← h] at hrun
    exact (eval_of_run_ofKnown hrun rfl).2

theorem eq_done_of_run {c : α} (h : ∀ ask, t.run ask = (Plan.done c).run ask) : t = .done c := by
  have he := eval_eq_of_run (h (Ask.ofKnown fun _ _ => none))
  cases t with
  | done a => exact congrArg Plan.done (Option.some.inj he)
  | ask q b next => cases he

end Plan

namespace Program

def Steady (p : Program) : Prop :=
  ∀ {q : Query} {b b' : Branch}, p.HasSlot q b → b'.ref = b.ref →
    (∃ c, p.IsStep q b' (.done c)) ∨
      ∀ m, (p.plan q b').eval (p.known m) = (p.plan q b).eval (p.known m)

variable {p : Program} {q : Query} {b b' : Branch} {u : SourceUnit}

theorem get?_of_known_eq_some {m : Memo} {o : Option q.Answer} (hready : p.ready? q b = none)
    (h : p.known m q b = some o) : m.get? q (p.subject q b).ref = some o := by
  rw [Program.known, hready] at h
  exact h

theorem HasSlot.known (h : p.HasSlot q b) (m : Memo) : p.known m q b = m.get? q b.ref := by
  rw [Program.known, h.ready?_eq, h.subject_eq, Option.none_or]

theorem eval_plan_congr {known : (q : Query) → Branch → Option (Option q.Answer)}
    (h : (p.stepAt (Ask.ofKnown known) q (p.anchor b')).run =
      (p.stepAt (Ask.ofKnown known) q (p.anchor b)).run) :
    (p.plan q b').eval known = (p.plan q b).eval known := by
  apply Plan.eval_eq_of_run
  rw [← run_plan, ← run_plan, step_eq_stepAt, step_eq_stepAt]
  exact h

theorem eval_propertyName (hp : p.Sound) (hu : p.unit? b.unit = some u) (hr : b'.ref = b.ref)
    (hname : u.isPropertyName b.target = true) (m : Memo) :
    (p.plan .value b').eval (p.known m) = (p.plan .value b).eval (p.known m) := by
  obtain ⟨hunit, htarget⟩ := Branch.ref_eq_iff.mp hr
  simp only [SourceUnit.isPropertyName, Bool.and_eq_true, decide_eq_true_eq] at hname
  obtain ⟨hsyn, hkind⟩ := hname
  have hslot : p.HasSlot .definition b := ⟨.identifier, by rw [kind?_of_unit? hu, hkind], rfl⟩
  obtain ⟨name, hs⟩ := exists_identifier (b := b) (by rw [kind?_of_unit? hu, hkind])
  have hs' : p.shape? b' = some (.identifier name) := (shape?_congr hr).trans hs
  have hasked : Ask.ofKnown (p.known m) .definition b' = Ask.ofKnown (p.known m) .definition b := by
    simp only [Ask.ofKnown, hslot.known, (hslot.congr hr).known, hr]
  apply eval_plan_congr
  rw [anchor_of_synthetic hp hu hsyn,
    anchor_of_synthetic hp (hunit ▸ hu) (by rw [htarget]; exact hsyn)]
  apply StateT.ext
  intro s
  show (Resolve.valueStep p _ b').run.run s = (Resolve.valueStep p _ b).run.run s
  rw [Resolve.run_valueStep_identifier _ hs, Resolve.run_valueStep_identifier _ hs', hasked, htarget]

theorem steady (hp : p.Sound) (ha : p.Assembled) : p.Steady := by
  intro q b b' hs hr
  obtain ⟨hunit, htarget⟩ := Branch.ref_eq_iff.mp hr
  obtain ⟨kind, hk, -⟩ := id hs
  obtain ⟨s, hshape, -⟩ := Option.map_eq_some_iff.mp hk
  obtain ⟨u, hu, -⟩ := unit?_of_shape? hshape
  have hu' : p.unit? b'.unit = some u := hunit ▸ hu
  have hdone {c : Option q.Answer}
      (h : ∀ ask, (p.stepAt ask q (p.anchor b')).run = pure c) : ∃ c, p.IsStep q b' (.done c) :=
    ⟨c, fun ask => by rw [step_eq_stepAt, h]; rfl⟩
  cases hname : u.isPropertyName b.target with
  | true =>
    cases q with
    | value => exact .inr (eval_propertyName hp hu hr hname)
    | definition =>
      refine .inl (hdone (c := u.declaredAbove? b') fun ask => ?_)
      rw [(stepAt_propertyName hp ha hu' (by rw [htarget]; exact hname) ask).2]
      rfl
  | false =>
    cases hplain : u.isPlainProperty b.target with
    | true =>
      cases q with
      | definition =>
        rw [hs.isPlainProperty_eq_false hu] at hplain
        cases hplain
      | value =>
        refine .inl (hdone (c := some (.ofBranch b')) fun ask => ?_)
        rw [(stepAt_plainProperty hp hu' (by rw [htarget]; exact hplain) ask).2]
        rfl
    | false =>
      refine .inr fun m => eval_plan_congr ?_
      rw [stepAt_congr hp ha hu hs hr hname hplain]

end Program

def Memo.Firm (p : Program) (m later : Memo) : Prop :=
  ∀ {q : Query} {ref : NodeRef} {r : Option q.Answer}, m.get? q ref = some r →
    ∀ {b : Branch} {t : Plan (Option q.Answer)} {s s' : Progress} {walks : List Walk}
      {a : Option q.Answer}, p.HasSlot q b → b.ref = ref → p.IsStep q b t →
      Plan.Runs p t (s.enter ⟨q, ref⟩) walks a s' → s.memo.get? q ref = none →
      (s'.leave q ref a s.walk.aborted).memo.Le later →
      (∀ w ∈ walks, w.depth < p.config.maxDepth) →
      (∀ f ∈ s.walk.visited, m.get? f.query f.ref = none) →
      a = r ∧ s'.walk = s.walk.enter ⟨q, ref⟩

theorem Progress.memo_le_leave {s : Progress} {q : Query} {ref : NodeRef} {r : Option q.Answer}
    {outer : Bool} (h : s.memo.get? q ref = none) : s.memo.Le (s.leave q ref r outer).memo := by
  unfold leave
  split
  · exact .refl _
  · exact Memo.le_insert h

namespace Plan

variable {p : Program} {later m : Memo} {α : Type} {t : Plan α} {s s' : Progress}
  {walks : List Walk} {a : α}

theorem Runs.refused_visited {w : Walk} {f : Frame}
    (hrefuses : w.refuses p.config.maxDepth f = true) (hdepth : w.depth < p.config.maxDepth) :
    f ∈ w.visited :=
  (Walk.refuses_iff.mp hrefuses).resolve_left (Nat.not_le_of_lt hdepth)

theorem Runs.firm (hfirm : m.Firm p later) (hm : m.Le later) (h : Runs p t s walks a s')
    (hle : s'.memo.Le later) (hdepth : ∀ w ∈ walks, w.depth < p.config.maxDepth)
    (hvisited : ∀ f ∈ s.walk.visited, m.get? f.query f.ref = none) {a' : α}
    (heval : t.eval (p.known m) = some a') : a = a' ∧ s'.walk = s.walk := by
  induction h with
  | done a s =>
    cases heval
    exact ⟨rfl, rfl⟩
  | @known α q b next s s' walks o a hknown rest ih =>
    obtain ⟨o', ho', hnext⟩ := Option.bind_eq_some_iff.mp heval
    have ho : o = o' := by
      have h₁ := (rest.advances.memo.trans hle).known hknown
      exact Option.some.inj (h₁.symm.trans (hm.known ho'))
    exact ih hle hdepth hvisited (ho ▸ hnext)
  | @refused α q b next s s' walks a hknown hrefuses rest ih =>
    obtain ⟨o', ho', hnext⟩ := Option.bind_eq_some_iff.mp heval
    have hin := refused_visited hrefuses (hdepth _ List.mem_cons_self)
    have hsome := Program.get?_of_known_eq_some (Program.ready?_of_known hknown) ho'
    cases (hvisited _ hin).symm.trans hsome
  | @frame α q b next s s₁ s' inner walks t r a hknown henters hstep step rest ihstep ihrest =>
    obtain ⟨o', ho', hnext⟩ := Option.bind_eq_some_iff.mp heval
    have hready := Program.ready?_of_known hknown
    have hsome := Program.get?_of_known_eq_some hready ho'
    obtain ⟨rfl, hwalk⟩ := hfirm hsome (.of_ready? hready) rfl hstep step
      (Program.get?_of_known hknown) (rest.advances.memo.trans hle)
      (fun w hw => hdepth w (List.mem_cons_of_mem _ (List.mem_append_left _ hw))) hvisited
    have hleave : (s₁.leave q (p.subject q b).ref r s.walk.aborted).walk = s.walk := by
      rw [Progress.leave, hwalk]
      exact s.walk.leave_enter _
    obtain ⟨ha, hw⟩ := ihrest hle
      (fun w hw => hdepth w (List.mem_cons_of_mem _ (List.mem_append_right _ hw)))
      (by rw [hleave]; exact hvisited) hnext
    exact ⟨ha, hw.trans hleave⟩

theorem Runs.of_done {c : α} (h : Runs p (.done c) s walks a s') : a = c ∧ s' = s := by
  cases h
  exact ⟨rfl, rfl⟩

end Plan

theorem Program.Grown.firm {p : Program} (hp : p.Steady) {later m : Memo} (hm : p.Grown m)
    (hle : m.Le later) : m.Firm p later := by
  induction hm with
  | empty =>
    intro q ref r hr
    rw [Memo.get?_empty] at hr
    cases hr
  | @insert m q₁ b₁ r₁ hm hready hnew heval ih =>
    have hgrows : m.Le (m.insert q₁ (p.subject q₁ b₁).ref r₁) := Memo.le_insert hnew
    have hold : m.Firm p later := ih (hgrows.trans hle)
    have hbefore {f : Frame}
        (hf : (m.insert q₁ (p.subject q₁ b₁).ref r₁).get? f.query f.ref = none) :
        m.get? f.query f.ref = none := by
      cases hmf : m.get? f.query f.ref with
      | none => rfl
      | some o => rw [hgrows _ _ _ hmf] at hf; cases hf
    intro q ref r hr b t s s' walks a hslot href hstep hrun hs hlater hdepth hvisited
    by_cases hf : (⟨q, ref⟩ : Frame) = ⟨q₁, (p.subject q₁ b₁).ref⟩
    · obtain ⟨rfl, rfl⟩ := Frame.mk.inj hf
      obtain rfl : r₁ = r := by
        rw [Memo.get?_insert_self] at hr
        exact Option.some.inj hr
      rcases hp (.of_ready? hready) href with ⟨c, hdone⟩ | hsame
      · -- the frame asks nothing, so it was left with its answer remembered
        obtain rfl : t = .done c := Plan.eq_done_of_run fun ask => by rw [← hstep, hdone]
        obtain ⟨rfl, rfl⟩ := hrun.of_done
        have ha : later.get? q (p.subject q b₁).ref = some a :=
          hlater _ _ _ (Memo.get?_insert_self s.memo q _ a)
        have hr₁ := hle _ _ _ (Memo.get?_insert_self m q _ r₁)
        exact ⟨Option.some.inj (ha.symm.trans hr₁), rfl⟩
      · have hknown : t.eval (p.known m) = some r₁ := by
          have hplan : t.run (Ask.ofKnown (p.known m)) = (p.plan q b).run (Ask.ofKnown (p.known m)) := by
            rw [← hstep, run_plan]
          rw [Plan.eval_eq_of_run hplan, hsame, heval]
        have hnone := (hrun.advances.inFrame _ List.mem_cons_self).trans hs
        refine hrun.firm hold (hgrows.trans hle) ((Progress.memo_le_leave hnone).trans hlater) hdepth
          (fun f hf => ?_) hknown
        rcases List.mem_cons.mp hf with rfl | hf
        · exact hnew
        · exact hbefore (hvisited f hf)
    · rw [Memo.get?_insert_of_ne _ _ hf] at hr
      exact hold hr hslot href hstep hrun hs hlater hdepth fun f hf => hbefore (hvisited f hf)

namespace Plan

variable {p : Program} {later : Memo} {α : Type} {t : Plan α} {s s' : Progress}
  {walks : List Walk} {a : α}

theorem Runs.replay (hp : p.Steady) (hlater : p.Grown later) (h : Runs p t s walks a s')
    (hle : s'.memo.Le later) (hdepth : ∀ w ∈ walks, w.depth < p.config.maxDepth)
    (hvisited : ∀ f ∈ s.walk.visited, later.get? f.query f.ref = none) :
    ∃ walks', Runs p t ⟨s.walk, later⟩ walks' a ⟨s'.walk, later⟩ := by
  induction h with
  | done a s => exact ⟨_, .done a _⟩
  | @known α q b next s s' walks o a hknown rest ih =>
    obtain ⟨walks', hrest⟩ := ih hle hdepth hvisited
    exact ⟨walks', .known ((rest.advances.memo.trans hle).known hknown) hrest⟩
  | @refused α q b next s s' walks a hknown hrefuses rest ih =>
    obtain ⟨walks', hrest⟩ := ih hle (fun w hw => hdepth w (List.mem_cons_of_mem _ hw)) hvisited
    have hin := refused_visited hrefuses (hdepth _ List.mem_cons_self)
    have hnone : p.known later q b = none :=
      Option.or_eq_none_iff.mpr ⟨Program.ready?_of_known hknown, hvisited _ hin⟩
    exact ⟨_, .refused hnone hrefuses hrest⟩
  | @frame α q b next s s₁ s' inner walks t r a hknown henters hstep step rest ihstep ihrest =>
    have hready := Program.ready?_of_known hknown
    have hleft : (s₁.leave q (p.subject q b).ref r s.walk.aborted).memo.Le later :=
      rest.advances.memo.trans hle
    have hinner : ∀ w ∈ inner, w.depth < p.config.maxDepth := fun w hw =>
      hdepth w (List.mem_cons_of_mem _ (List.mem_append_left _ hw))
    have houter : ∀ w ∈ walks, w.depth < p.config.maxDepth := fun w hw =>
      hdepth w (List.mem_cons_of_mem _ (List.mem_append_right _ hw))
    have hback : (s₁.leave q (p.subject q b).ref r s.walk.aborted).walk.visited =
        s.walk.visited := by
      simp [Progress.leave, Walk.leave, step.restores.1, Progress.enter, Walk.enter]
    obtain ⟨walks', hrest⟩ := ihrest hle houter (by rw [hback]; exact hvisited)
    cases hl : later.get? q (p.subject q b).ref with
    | some r' =>
      have hsome : p.known later q b = some r' := Option.or_eq_some_iff.mpr (.inr ⟨hready, hl⟩)
      obtain ⟨rfl, hwalk⟩ := hlater.firm hp (.refl later) hl (.of_ready? hready) rfl hstep step
        (Program.get?_of_known hknown) hleft hinner hvisited
      have hleave : (s₁.leave q (p.subject q b).ref r s.walk.aborted).walk = s.walk := by
        rw [Progress.leave, hwalk]
        exact s.walk.leave_enter _
      rw [hleave] at hrest
      exact ⟨walks', .known hsome hrest⟩
    | none =>
      have hnone : p.known later q b = none := Option.or_eq_none_iff.mpr ⟨hready, hl⟩
      have haborted : s₁.walk.aborted = true := by
        by_contra hclean
        rw [Bool.not_eq_true] at hclean
        have hmem := hleft q (p.subject q b).ref r (by
          simp only [Progress.leave, hclean, Bool.false_eq_true, if_false, Memo.get?_insert_self])
        rw [hl] at hmem
        cases hmem
      have hmemo : s₁.memo.Le later := by
        simpa only [Progress.leave, haborted, if_true] using hleft
      obtain ⟨inner', hagain⟩ := ihstep hmemo hinner fun f hf => by
        rcases List.mem_cons.mp hf with rfl | hf
        · exact hl
        · exact hvisited f hf
      have hsame : (⟨s₁.walk, later⟩ : Progress).leave q (p.subject q b).ref r s.walk.aborted =
          ⟨(s₁.leave q (p.subject q b).ref r s.walk.aborted).walk, later⟩ := by
        simp only [Progress.leave, haborted, if_true]
      rw [← hsame] at hrest
      exact ⟨_, .frame hnone henters hstep hagain hrest⟩

end Plan

namespace Analysis

variable {asked : Program → Branch → Prop} {a : Analysis}

/-- A query that is asked twice in a row finds the same and remembers nothing more, unless it was
given up at first and the walk got as deep as it may. It never gets so deep when the limit is above
the number of frames. -/
theorem ask_again (h : a.Reachable asked) (q : Query) (b : Branch) : ∃ walks r s,
    Plan.Runs a.program (.ask q b .done) ⟨{}, a.memo⟩ walks r s ∧
    (walk fun p => (p.answer q b).run).run a = (r, { a with memo := s.memo }) ∧
    (s.walk.aborted = false ∨ (∀ w ∈ walks, w.depth < a.program.config.maxDepth) →
      (walk fun p => (p.answer q b).run).run { a with memo := s.memo } =
        (r, { a with memo := s.memo })) ∧
    (2 * a.program.size < a.program.config.maxDepth →
      ∀ w ∈ walks, w.depth < a.program.config.maxDepth) := by
  obtain ⟨walks, hruns⟩ := a.program.runs_answer q b ⟨{}, a.memo⟩
  cases hrun : (a.program.answer q b).run.run ⟨{}, a.memo⟩ with | mk r s
  rw [hrun] at hruns
  have hagain {w : Walk} (h : (a.program.answer q b).run.run ⟨{}, s.memo⟩ = (r, ⟨w, s.memo⟩)) :
      (walk fun p => (p.answer q b).run).run { a with memo := s.memo } =
        (r, { a with memo := s.memo }) := by
    rw [run_walk, h]
  refine ⟨walks, r, s, hruns, by rw [run_walk, hrun], fun hcond => ?_, fun hlimit w hw => ?_⟩
  · rcases hcond with hclean | hdepth
    · have hknown := (a.program.answer_sound q b _ r s hrun).2 hclean
      exact hagain (Program.run_of_known hknown {} a.program.frameCount)
    · have hgrown := hruns.advances.grown h.grown
      obtain ⟨walks', hreplay⟩ := hruns.replay (Program.steady h.sound h.assembled) hgrown
        (.refl s.memo) hdepth nofun
      exact hagain (hreplay.run_eq (Nat.lt_succ_of_le (a.program.unvisited_le _)))
  · have hbounded := hruns.bounded (Walk.Bounded.of_visited rfl rfl) w hw
    exact Nat.lt_of_le_of_lt hbounded.depth_le_frameCount hlimit

theorem ask_again_cycle : ∃ a, ofSources {} Imports.none ["local a = b; local b = a; a;"] = .ok a ∧
    ∀ q b, ∃ r m, (walk fun p => (p.answer q b).run).run a = (r, { a with memo := m }) ∧
      (walk fun p => (p.answer q b).run).run { a with memo := m } = (r, { a with memo := m }) := by
  have hsmall : ((ofSources {} Imports.none ["local a = b; local b = a; a;"]).toOption.any fun a =>
      decide (2 * a.program.size < a.program.config.maxDepth)) = true := by decide +kernel
  obtain ⟨a, ha, hlimit⟩ := exists_ok hsmall
  have hreachable : a.Reachable fun _ _ => True := .ofSources ha
  refine ⟨a, ha, fun q b => ?_⟩
  obtain ⟨walks, r, s, -, hfirst, hagain, hdepth⟩ := ask_again hreachable q b
  exact ⟨r, s.memo, hfirst, hagain (.inr (hdepth (of_decide_eq_true hlimit)))⟩

theorem ask_again_too_deep : ∃ a b, ofSources { maxDepth := 6 } Imports.none
      ["class B {} local c = B; local d = c; class K extends c { x = 5 } local r = true ? d : K.x; r;"] =
        .ok a ∧
    ((value b).run a).1 = none ∧ ((value b).run ((value b).run a).2).1 ≠ none := by
  let b : Branch := ⟨⟨0⟩, ⟨27⟩, [⟨28⟩, ⟨29⟩]⟩
  have hbuilt : ((ofSources { maxDepth := 6 } Imports.none
      ["class B {} local c = B; local d = c; class K extends c { x = 5 } local r = true ? d : K.x; r;"]).toOption.any
        fun a => decide (((value b).run a).1 = none ∧
          ((value b).run ((value b).run a).2).1 ≠ none)) = true := by decide +kernel
  obtain ⟨a, ha, h⟩ := exists_ok hbuilt
  exact ⟨a, b, ha, of_decide_eq_true h⟩

end Analysis

end SquirrelAnalyzer
