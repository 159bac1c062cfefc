import SquirrelAnalyzer.Proofs.NameValue
import SquirrelAnalyzer.Proofs.Promise
import SquirrelAnalyzer.Proofs.Replay

namespace SquirrelAnalyzer

def Progress.marked (s : Progress) (aborted : Bool) : Progress :=
  { s with walk := { s.walk with aborted } }

namespace Plan

variable {p : Program} {α : Type} {t : Plan α} {s s' : Progress} {walks : List Walk} {a : α}

theorem leave_marked (s : Progress) (q : Query) (ref : NodeRef) (r : Option q.Answer)
    (outer outer' : Bool) :
    s.leave q ref r outer' = (s.leave q ref r outer).marked (s.walk.aborted || outer') := rfl

theorem Runs.marked (h : Runs p t s walks a s') (aborted : Bool) :
    ∃ walks' aborted', Runs p t (s.marked aborted) walks' a (s'.marked aborted') := by
  induction h generalizing aborted with
  | done a s => exact ⟨_, aborted, .done a _⟩
  | known hknown _ ih =>
    obtain ⟨walks', aborted', hrest⟩ := ih aborted
    exact ⟨walks', aborted', .known hknown hrest⟩
  | refused hknown hrefuses _ ih =>
    obtain ⟨walks', aborted', hrest⟩ := ih true
    exact ⟨_, aborted', .refused hknown hrefuses hrest⟩
  | @frame α q b next s s₁ s' inner walks t r a hknown henters hstep step rest _ ih =>
    obtain ⟨walks', aborted', hrest⟩ := ih (s₁.walk.aborted || aborted)
    rw [← leave_marked] at hrest
    exact ⟨_, aborted', .frame hknown henters hstep step hrest⟩

theorem exists_runs_answer (p : Program) (t : Plan α) (s : Progress) : ∃ walks,
    Runs p t s walks ((t.run p.answer).run s).1 ((t.run p.answer).run s).2 :=
  exists_runs t (Nat.lt_succ_of_le (p.unvisited_le s.walk)) fun _ _ _ => Program.runs_answerWithin

theorem run_answer_marked (p : Program) (t : Plan α) (s : Progress) (aborted : Bool) :
    ∃ aborted', (t.run p.answer).run (s.marked aborted) =
      (((t.run p.answer).run s).1, ((t.run p.answer).run s).2.marked aborted') := by
  obtain ⟨walks, hruns⟩ := exists_runs_answer p t s
  obtain ⟨walks', aborted', hmarked⟩ := hruns.marked aborted
  exact ⟨aborted', hmarked.run_eq (Nat.lt_succ_of_le (p.unvisited_le _))⟩

end Plan

namespace Analysis

variable {α β : Type} {a : Analysis}

theorem run_walk_bind {first : Program → Resolving α} {second : Program → α → Resolving β}
    {t : Plan α} {k : Plan β} (hfirst : first a.program = t.run a.program.answer)
    (hsecond : second a.program ((walk first).run a).1 = k.run a.program.answer) :
    (walk fun p => first p >>= second p).run a =
      (walk fun p => second p ((walk first).run a).1).run ((walk first).run a).2 := by
  obtain ⟨walks, hruns⟩ := t.exists_runs_answer a.program { memo := a.memo }
  obtain ⟨hvisited, hdepth, -⟩ := hruns.restores
  rw [run_walk, run_walk, run_walk, StateT.run_bind]
  rw [run_walk] at hsecond
  rw [hfirst] at hsecond ⊢
  cases hs : (t.run a.program.answer).run { memo := a.memo } with | mk x s
  rw [hs] at hvisited hdepth hsecond
  obtain ⟨⟨visited, depth, aborted⟩, memo⟩ := s
  cases hvisited
  cases hdepth
  replace hsecond : second a.program x = k.run a.program.answer := hsecond
  obtain ⟨aborted', hmarked⟩ := k.run_answer_marked a.program ⟨{}, memo⟩ aborted
  show (((second a.program x).run (Progress.marked ⟨{}, memo⟩ aborted)).1,
      { a with memo := ((second a.program x).run (Progress.marked ⟨{}, memo⟩ aborted)).2.memo }) =
    (((second a.program x).run ⟨{}, memo⟩).1,
      { a with memo := ((second a.program x).run ⟨{}, memo⟩).2.memo })
  rw [hsecond, hmarked]
  rfl

theorem run_walk_then {F : Program → Ask → Resolving α} {G : Program → Ask → α → Resolving β}
    {Q : α → Prop} {R : β → Prop} {x : α}
    (hF : Follows (fun _ => True) True (fun ask => F a.program ask) Q)
    (hx : ((walk fun p => F p p.answer).run a).1 = x)
    (hG : Follows (fun _ => True) True (fun ask => G a.program ask x) R) :
    (walk fun p => F p p.answer >>= G p p.answer).run a =
      (walk fun p => G p p.answer x).run ((walk fun p => F p p.answer).run a).2 := by
  obtain ⟨t, ht, -⟩ := hF
  obtain ⟨k, hk, -⟩ := hG
  subst hx
  exact run_walk_bind (t := t) (k := k) (ht a.program.answer) (hk a.program.answer)

theorem run_walk_some {F : Program → Ask → Resolve α} {G : Program → Ask → α → Resolve β}
    {Q : α → Prop} {R : β → Prop} {x : α}
    (hF : Finds (fun _ => True) True (fun ask => F a.program ask) Q)
    (hx : ((walk fun p => (F p p.answer).run).run a).1 = some x)
    (hG : Finds (fun _ => True) True (fun ask => G a.program ask x) R) :
    (walk fun p => (F p p.answer >>= G p p.answer).run).run a =
      (walk fun p => (G p p.answer x).run).run ((walk fun p => (F p p.answer).run).run a).2 := by
  have hsplit (p : Program) : (F p p.answer >>= G p p.answer).run =
      (F p p.answer).run >>= fun o => o.elim (pure none) fun x => (G p p.answer x).run :=
    OptionT.run_bind (G p p.answer)
  simp only [hsplit]
  exact run_walk_then (F := fun p ask => (F p ask).run)
    (G := fun p ask o => o.elim (pure none) fun x => (G p ask x).run) hF hx hG

end Analysis

def Memo.Gives {α : Type} (m : Memo) (compute : Resolving α) (x : α) (m' : Memo) : Prop :=
  compute.run ⟨{}, m⟩ = (x, ⟨{}, m'⟩)

namespace Memo.Gives

variable {α β : Type} {p : Program} {m m' : Memo} {x : α} {y : Option β} {t : Plan α}

theorem of_bind {first : Resolve α} {second : α → Resolve β} {k : Plan (Option β)}
    (h : m.Gives (first >>= second).run y m') (hfirst : (first.run.run ⟨{}, m⟩).1 = some x)
    (hsecond : (second x).run = k.run p.answer) :
    ∃ m₁, m.Gives first.run (some x) m₁ ∧ m₁.Gives (second x).run y m' := by
  unfold Gives at h
  rw [OptionT.run_bind, Option.elimM, StateT.run_bind] at h
  cases hs : first.run.run ⟨{}, m⟩ with | mk o s
  rw [hs] at h hfirst
  obtain rfl : o = some x := hfirst
  have hrest : (second x).run.run s = (y, ⟨{}, m'⟩) := h
  have hadv := (Plan.run_advances p.answer_sound (hsecond ▸ hrest)).1
  obtain ⟨walk, m₁⟩ := s
  obtain rfl : walk = {} := hadv.walk_eq rfl
  exact ⟨m₁, hs, hrest⟩

theorem split {first : Resolve α} {second : α → Resolve β}
    (h : m.Gives (first >>= second).run y m')
    (hsecond : ∀ x, ∃ k : Plan (Option β), (second x).run = k.run p.answer) :
    (m.Gives first.run none m' ∧ y = none) ∨
      ∃ x m₁, m.Gives first.run (some x) m₁ ∧ m₁.Gives (second x).run y m' := by
  cases hfirst : first.run.run ⟨{}, m⟩ with | mk o s
  cases o with
  | none =>
    unfold Gives at h ⊢
    rw [OptionT.run_bind, Option.elimM, StateT.run_bind, hfirst] at h
    cases h
    exact .inl ⟨hfirst, rfl⟩
  | some x =>
    obtain ⟨k, hk⟩ := hsecond x
    exact .inr ⟨x, h.of_bind (congrArg Prod.fst hfirst) hk⟩

theorem le (h : m.Gives (t.run p.answer) x m') : m.Le m' :=
  (Plan.run_advances p.answer_sound h).1.memo

theorem grown (h : m.Gives (t.run p.answer) x m') (hm : p.Grown m) : p.Grown m' :=
  (Plan.run_advances p.answer_sound h).1.grown hm

theorem settled (h : m.Gives (t.run p.answer) x m') (hp : p.Rooted) (hm : p.Grown m) :
    ∃ n, t.eval (p.settled n) = some x := by
  have heval := (Plan.run_advances p.answer_sound h).2 rfl
  exact Program.eval_settled (fun q b r => (h.grown hm).settled hp) heval

end Memo.Gives

theorem Plan.gives_of_eval {α : Type} {p : Program} {m : Memo} {t : Plan α} {x : α}
    (h : t.eval (p.known m) = some x) : m.Gives (t.run p.answer) x m := by
  induction t with
  | done a =>
    cases h
    rfl
  | ask q b next ih =>
    obtain ⟨r, hr, hn⟩ := Option.bind_eq_some_iff.mp h
    unfold Memo.Gives
    have hknown : (p.answer q b).run.run ⟨{}, m⟩ = _ := Program.run_of_known hr {} p.frameCount
    rw [run_ask, hknown]
    exact ih r hn

theorem Program.gives_step {p : Program} {q : Query} {b : Branch} {m : Memo} (hm : p.Grown m)
    (hs : p.HasSlot q b) {r : Option q.Answer} {s : Progress}
    (h : (p.answer q b).run.run ⟨{}, m⟩ = (r, s)) (hclean : s.walk.aborted = false) :
    ∃ b' m', b'.ref = b.ref ∧ m.Gives (p.step p.answer q b').run r m' ∧ m'.Le s.memo := by
  have hready := hs.ready?_eq
  have hsubject := hs.subject_eq
  cases hmem : m.get? q b.ref with
  | some answer =>
    obtain ⟨b', href, heval⟩ := hm.exists_eval hmem
    have hknown : p.known m q b = some answer := by simp [known, hready, hsubject, hmem]
    obtain ⟨rfl, rfl⟩ := Prod.mk.inj ((run_of_known hknown {} p.frameCount).symm.trans h)
    refine ⟨b', m, href, ?_, .refl m⟩
    rw [run_plan]
    exact Plan.gives_of_eval heval
  | none =>
    obtain ⟨s₁, hrun, hinner, rfl⟩ :=
      run_frame hready (s := ⟨{}, m⟩) (hsubject.symm ▸ hmem) h hclean
    rw [hsubject, run_plan] at hrun
    have hadv := (Plan.run_advances (p.answerWithin_sound p.frameCount) hrun).1
    refine ⟨b, s₁.memo, rfl, ?_, ?_⟩
    · rw [run_plan]
      exact Plan.run_lifts (p.answerWithin_sound p.frameCount)
        (answerWithin_lifts (Nat.le_succ p.frameCount)) hrun hinner (Walk.shallower_start _)
    · refine Progress.memo_le_leave ?_
      rw [hsubject]
      exact (hadv.inFrame _ List.mem_cons_self).trans hmem

end SquirrelAnalyzer
