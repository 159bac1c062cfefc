import SquirrelAnalyzer.Proofs.Progress

namespace SquirrelAnalyzer

namespace Walk

structure Shallower (w w' : Walk) : Prop where
  visited : ∀ f ∈ w.visited, f ∈ w'.visited
  depth : w.depth ≤ w'.depth

variable {w w' : Walk}

theorem shallower_start (w : Walk) : Shallower {} w := ⟨fun _ h => (nomatch h), Nat.zero_le _⟩

theorem Shallower.enter (h : w.Shallower w') (f : Frame) : (w.enter f).Shallower (w'.enter f) where
  visited g hg := by
    rcases List.mem_cons.mp hg with rfl | hg
    · exact List.mem_cons_self
    · exact List.mem_cons_of_mem f (h.visited g hg)
  depth := Nat.succ_le_succ h.depth

theorem Shallower.refuses (h : w.Shallower w') {limit : Nat} {f : Frame}
    (hf : w'.refuses limit f = false) : w.refuses limit f = false := by
  rw [Bool.eq_false_iff] at hf ⊢
  intro hw
  apply hf
  rw [refuses_iff] at hw ⊢
  rcases hw with hd | hv
  · exact .inl (Nat.le_trans hd h.depth)
  · exact .inr (h.visited f hv)

theorem Shallower.congr {w'' : Walk} (h : w.Shallower w') (hv : w''.visited = w'.visited)
    (hd : w''.depth = w'.depth) : w.Shallower w'' where
  visited f hf := hv ▸ h.visited f hf
  depth := hd ▸ h.depth

end Walk

def Ask.Lifts (ask ask' : Ask) : Prop :=
  ∀ q b s r t, (ask q b).run.run s = (r, t) → t.walk.aborted = false →
    ∀ w : Walk, w.Shallower s.walk → (ask' q b).run.run ⟨w, s.memo⟩ = (r, ⟨w, t.memo⟩)

namespace Plan

variable {p : Program} {α : Type}

theorem run_lifts {ask ask' : Ask} (hask : ask.Sound p) (hlift : ask.Lifts ask') {t : Plan α}
    {s s' : Progress} {a : α} (h : (t.run ask).run s = (a, s')) (ha : s'.walk.aborted = false)
    {w : Walk} (hw : w.Shallower s.walk) : (t.run ask').run ⟨w, s.memo⟩ = (a, ⟨w, s'.memo⟩) := by
  induction t generalizing s with
  | done a =>
    cases h
    rfl
  | ask q b next ih =>
    rw [run_ask] at h
    cases hr : (ask q b).run.run s with | mk r s₁
    rw [hr] at h
    have hadv := (hask q b s r s₁ hr).1
    have hclean := (run_advances hask h).1.aborted ha
    rw [run_ask, hlift q b s r s₁ hr hclean w hw]
    exact ih r h (hw.congr hadv.visited hadv.depth)

end Plan

namespace Program

variable {p : Program}

theorem answerWithin_lifts {k k' : Nat} (hk : k ≤ k') :
    Ask.Lifts (p.answerWithin k) (p.answerWithin k') := by
  induction k generalizing k' with
  | zero =>
    rintro q b s r t ⟨⟩ ha
    cases ha
  | succ k ih =>
    obtain ⟨k', rfl⟩ : ∃ n, k' = n + 1 := ⟨k' - 1, by omega⟩
    intro q b s r t h ha w hw
    cases hb : p.ready? q b with
    | some o =>
      rw [answerWithin_of_ready hb] at h ⊢
      cases h
      rfl
    | none =>
      rw [answerWithin_of_frame hb] at h ⊢
      cases hm : s.memo.get? q (p.subject q b).ref with
      | some answer =>
        rw [Resolve.run_remembered_of_get? hm] at h
        cases h
        exact Resolve.run_remembered_of_get? (s := ⟨w, s.memo⟩) hm _
      | none =>
        cases hf : s.walk.refuses p.config.maxDepth ⟨q, (p.subject q b).ref⟩ with
        | true =>
          rw [Resolve.run_remembered hm, Resolve.run_guarded_of_refuses hf] at h
          cases h
          cases ha
        | false =>
          cases hr : ((p.plan q (p.subject q b)).run (p.answerWithin k)).run
              (s.enter ⟨q, (p.subject q b).ref⟩) with | mk r₁ s₁
          have hrun := hr
          rw [← run_plan] at hr
          rw [Progress.run_remembered_of_run hm hf hr] at h
          cases h
          simp only [Progress.leave, Walk.leave, Bool.or_eq_false_iff] at ha
          have hdeep := Plan.run_lifts (p.answerWithin_sound k) (ih (Nat.le_of_succ_le_succ hk))
            hrun ha.1 (w := w.enter ⟨q, (p.subject q b).ref⟩) (hw.enter _)
          rw [← run_plan] at hdeep
          rw [Progress.run_remembered_of_run (s := ⟨w, s.memo⟩) hm (hw.refuses hf) hdeep]
          simp only [Progress.leave, ha.1, Walk.leave_enter]
          rfl

end Program

end SquirrelAnalyzer
