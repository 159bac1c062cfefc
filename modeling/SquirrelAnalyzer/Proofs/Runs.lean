import SquirrelAnalyzer.Proofs.Transparency

namespace SquirrelAnalyzer

namespace Program

variable (p : Program)

def IsStep (q : Query) (b : Branch) (t : Plan (Option q.Answer)) : Prop :=
  ∀ ask, (p.step ask q b).run = t.run ask

theorem isStep_plan (q : Query) (b : Branch) : p.IsStep q b (p.plan q b) :=
  fun ask => p.run_plan ask q b

def unvisited (w : Walk) : Nat := (p.frames.filter (· ∉ w.visited)).length

theorem unvisited_le (w : Walk) : p.unvisited w ≤ p.frameCount := by
  rw [← p.length_frames]
  exact List.length_filter_le _ _

variable {p}

theorem unvisited_enter {w : Walk} {f : Frame} (hf : f ∈ p.frames) (hn : f ∉ w.visited) :
    p.unvisited (w.enter f) < p.unvisited w := by
  have henter : p.frames.filter (· ∉ (w.enter f).visited) =
      (p.frames.filter (· ∉ w.visited)).filter (· ≠ f) := by
    rw [List.filter_filter]
    apply List.filter_congr
    intro g _
    simp [Walk.enter]
  unfold unvisited
  rw [henter]
  apply List.length_filter_lt_length_iff_exists.mpr
  refine ⟨f, ?_, by simp⟩
  simp [hf, hn]

theorem unvisited_congr {w w' : Walk} (h : w'.visited = w.visited) :
    p.unvisited w' = p.unvisited w := by
  unfold unvisited
  rw [h]

theorem ready?_of_known {m : Memo} {q : Query} {b : Branch} (h : p.known m q b = none) :
    p.ready? q b = none := (Option.or_eq_none_iff.mp h).1

theorem get?_of_known {m : Memo} {q : Query} {b : Branch} (h : p.known m q b = none) :
    m.get? q (p.subject q b).ref = none := (Option.or_eq_none_iff.mp h).2

end Program

namespace Plan

/-- A computation runs to its end: from one progress to another one, through the walks that are
listed, with no bound but the guards of the walk. A question is answered by what is known, given up
by the walk, or answered by running a step in a frame of its own. -/
inductive Runs (p : Program) :
    {α : Type} → Plan α → Progress → List Walk → α → Progress → Prop
  | done {α : Type} (a : α) (s : Progress) : Runs p (.done a) s [s.walk] a s
  | known {α : Type} {q : Query} {b : Branch} {next : Option q.Answer → Plan α}
      {s s' : Progress} {walks : List Walk} {o : Option q.Answer} {a : α}
      (hknown : p.known s.memo q b = some o) (rest : Runs p (next o) s walks a s') :
      Runs p (.ask q b next) s walks a s'
  | refused {α : Type} {q : Query} {b : Branch} {next : Option q.Answer → Plan α}
      {s s' : Progress} {walks : List Walk} {a : α}
      (hknown : p.known s.memo q b = none)
      (hrefuses : s.walk.refuses p.config.maxDepth ⟨q, (p.subject q b).ref⟩ = true)
      (rest : Runs p (next none) { s with walk := s.walk.abort } walks a s') :
      Runs p (.ask q b next) s (s.walk :: walks) a s'
  | frame {α : Type} {q : Query} {b : Branch} {next : Option q.Answer → Plan α}
      {s s₁ s' : Progress} {inner walks : List Walk} {t : Plan (Option q.Answer)}
      {r : Option q.Answer} {a : α}
      (hknown : p.known s.memo q b = none)
      (henters : s.walk.refuses p.config.maxDepth ⟨q, (p.subject q b).ref⟩ = false)
      (hstep : p.IsStep q (p.subject q b) t)
      (step : Runs p t (s.enter ⟨q, (p.subject q b).ref⟩) inner r s₁)
      (rest : Runs p (next r) (s₁.leave q (p.subject q b).ref r s.walk.aborted) walks a s') :
      Runs p (.ask q b next) s (s.walk :: (inner ++ walks)) a s'

namespace Runs

variable {p : Program} {α : Type} {t : Plan α} {s s' : Progress} {walks : List Walk} {a : α}

theorem restores (h : Runs p t s walks a s') :
    s'.walk.visited = s.walk.visited ∧ s'.walk.depth = s.walk.depth ∧
      (s.walk.aborted = true → s'.walk.aborted = true) := by
  induction h with
  | done a s => exact ⟨rfl, rfl, id⟩
  | known _ _ ih => exact ih
  | refused _ _ _ ih => exact ⟨ih.1, ih.2.1, fun _ => ih.2.2 rfl⟩
  | frame _ _ _ _ _ ihstep ihrest =>
    obtain ⟨hvisited, hdepth, -⟩ := ihstep
    obtain ⟨hvisited', hdepth', haborted⟩ := ihrest
    refine ⟨?_, ?_, fun h => haborted ?_⟩
    · simp [hvisited', Progress.leave, Walk.leave, hvisited, Progress.enter, Walk.enter]
    · simp [hdepth', Progress.leave, Walk.leave, hdepth, Progress.enter, Walk.enter]
    · simp [Progress.leave, Walk.leave, h]

end Runs

end Plan

structure Walk.Bounded (p : Program) (w : Walk) : Prop extends w.Balanced p where
  depth_le : w.depth ≤ p.config.maxDepth

namespace Walk.Bounded

variable {p : Program} {w w' : Walk}

theorem congr (h : w.Bounded p) (hv : w'.visited = w.visited) (hd : w'.depth = w.depth) :
    w'.Bounded p where
  toBalanced := h.toBalanced.congr hv hd
  depth_le := hd ▸ h.depth_le

theorem of_visited (hv : w.visited = []) (hd : w.depth = 0) : w.Bounded p where
  toBalanced := (balanced_start p).congr hv hd
  depth_le := hd ▸ Nat.zero_le _

theorem depth_le_frameCount (h : w.Bounded p) : w.depth ≤ p.frameCount := by
  rw [h.depth]
  exact h.toBalanced.length_le

theorem enter (h : w.Bounded p) {f : Frame} (hf : f ∈ p.frames)
    (hr : w.refuses p.config.maxDepth f = false) : (w.enter f).Bounded p := by
  have hn : ¬ (p.config.maxDepth ≤ w.depth ∨ f ∈ w.visited) := by
    rw [← Walk.refuses_iff, hr]
    exact Bool.false_ne_true
  obtain ⟨hlimit, hnew⟩ := not_or.mp hn
  exact ⟨h.toBalanced.enter hf hnew, Nat.lt_of_not_le hlimit⟩

end Walk.Bounded

namespace Plan

namespace Runs

variable {p : Program} {α : Type} {t : Plan α} {s s' : Progress} {walks : List Walk} {a : α}

theorem bounded (h : Runs p t s walks a s') (hs : s.walk.Bounded p) :
    ∀ w ∈ walks, w.Bounded p := by
  induction h with
  | done a s => exact fun w hw => List.mem_singleton.mp hw ▸ hs
  | known _ _ ih => exact ih hs
  | refused _ _ _ ih =>
    intro w hw
    rcases List.mem_cons.mp hw with rfl | hw
    · exact hs
    · exact ih (hs.congr rfl rfl) w hw
  | @frame α q b next s s₁ s' inner walks t r a hknown henters hstep step rest ihstep ihrest =>
    have hframe := Program.mem_frames (Program.shape?_subject (Program.ready?_of_known hknown)) q
    have hinner := hs.enter hframe henters
    obtain ⟨hvisited, hdepth, -⟩ := step.restores
    intro w hw
    rcases List.mem_cons.mp hw with rfl | hw
    · exact hs
    rcases List.mem_append.mp hw with hw | hw
    · exact ihstep hinner w hw
    · refine ihrest (hs.congr ?_ ?_) w hw
      · simp [Progress.leave, Walk.leave, hvisited, Progress.enter, Walk.enter]
      · simp [Progress.leave, Walk.leave, hdepth, Progress.enter, Walk.enter]

end Runs

variable {p : Program} {α : Type}

theorem Runs.ask {q : Query} {b : Branch} {next : Option q.Answer → Plan α} {s s₁ s' : Progress}
    {walks walks' : List Walk} {r : Option q.Answer} {a : α}
    (h : Runs p (.ask q b .done) s walks r s₁) (hnext : Runs p (next r) s₁ walks' a s') :
    ∃ walks, Runs p (.ask q b next) s walks a s' ∧ ∀ w ∈ walks', w ∈ walks := by
  cases h with
  | known hknown rest =>
    cases rest
    exact ⟨_, .known hknown hnext, fun _ hw => hw⟩
  | refused hknown hrefuses rest =>
    cases rest
    exact ⟨_, .refused hknown hrefuses hnext, fun _ hw => List.mem_cons_of_mem _ hw⟩
  | frame hknown henters hstep step rest =>
    cases rest
    exact ⟨_, .frame hknown henters hstep step hnext,
      fun _ hw => List.mem_cons_of_mem _ (List.mem_append_right _ hw)⟩

theorem exists_runs {k : Nat} (t : Plan α) {s : Progress} (hs : p.unvisited s.walk < k)
    (hask : ∀ q b s, p.unvisited s.walk < k → ∃ walks,
      Runs p (.ask q b .done) s walks ((p.answerWithin k q b).run.run s).1
        ((p.answerWithin k q b).run.run s).2) :
    ∃ walks, Runs p t s walks ((t.run (p.answerWithin k)).run s).1
      ((t.run (p.answerWithin k)).run s).2 := by
  induction t generalizing s with
  | done a => exact ⟨_, .done a s⟩
  | ask q b next ih =>
    obtain ⟨walks, hfirst⟩ := hask q b s hs
    have hvisited := hfirst.restores.1
    obtain ⟨walks', hrest⟩ := ih ((p.answerWithin k q b).run.run s).1
      (s := ((p.answerWithin k q b).run.run s).2)
      (by rw [Program.unvisited_congr hvisited]; exact hs)
    obtain ⟨walks, hruns, -⟩ := hfirst.ask hrest
    exact ⟨walks, hruns⟩

end Plan

namespace Program

variable {p : Program}

theorem runs_answerWithin {k : Nat} {q : Query} {b : Branch} {s : Progress}
    (hk : p.unvisited s.walk < k) : ∃ walks,
      Plan.Runs p (.ask q b .done) s walks ((p.answerWithin k q b).run.run s).1
        ((p.answerWithin k q b).run.run s).2 := by
  induction k generalizing q b s with
  | zero => exact absurd hk (Nat.not_lt_zero _)
  | succ k ih =>
    cases hknown : p.known s.memo q b with
    | some o =>
      have hrun : (p.answerWithin (k + 1) q b).run.run s = (o, s) := by
        rcases Option.or_eq_some_iff.mp hknown with hb | ⟨hb, hm⟩
        · rw [answerWithin_of_ready hb]
          rfl
        · rw [answerWithin_of_frame hb, Resolve.run_remembered_of_get? hm]
      rw [hrun]
      exact ⟨_, .known hknown (.done o s)⟩
    | none =>
      have hb := ready?_of_known hknown
      have hm := get?_of_known hknown
      rw [answerWithin_of_frame hb]
      cases hf : s.walk.refuses p.config.maxDepth ⟨q, (p.subject q b).ref⟩ with
      | true =>
        rw [Resolve.run_remembered hm, Resolve.run_guarded_of_refuses hf]
        exact ⟨_, .refused hknown hf (.done none _)⟩
      | false =>
        -- the walk was not in this frame, so inside it one frame less is left
        have hnew : (⟨q, (p.subject q b).ref⟩ : Frame) ∉ s.walk.visited := fun h => by
          rw [Walk.refuses_iff.mpr (.inr h)] at hf
          cases hf
        have hless := unvisited_enter (mem_frames (shape?_subject hb) q) hnew
        obtain ⟨inner, hstep⟩ := Plan.exists_runs (p.plan q (p.subject q b))
          (s := s.enter ⟨q, (p.subject q b).ref⟩) (Nat.lt_of_lt_of_le hless (Nat.le_of_lt_succ hk))
          fun q b s => ih
        cases hrun : ((p.plan q (p.subject q b)).run (p.answerWithin k)).run
          (s.enter ⟨q, (p.subject q b).ref⟩) with | mk r s₁
        rw [hrun] at hstep
        rw [← run_plan] at hrun
        rw [Progress.run_remembered_of_run hm hf hrun]
        exact ⟨_, .frame hknown hf (p.isStep_plan q (p.subject q b)) hstep (.done r _)⟩

theorem runs_answer (q : Query) (b : Branch) (s : Progress) : ∃ walks,
    Plan.Runs p (.ask q b .done) s walks ((p.answer q b).run.run s).1
      ((p.answer q b).run.run s).2 :=
  runs_answerWithin (Nat.lt_succ_of_le (p.unvisited_le s.walk))

end Program

end SquirrelAnalyzer
