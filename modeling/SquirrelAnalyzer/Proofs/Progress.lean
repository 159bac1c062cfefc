import SquirrelAnalyzer.Proofs.Steps.Evaluation

namespace SquirrelAnalyzer

namespace Program

variable (p : Program)

def ready? (q : Query) (b : Branch) : Option (Option q.Answer) :=
  match p.kind? (p.subject q b) with
  | none => some none
  | some kind => if q.isIndirect kind then none else some (direct? kind q (p.subject q b))

def known (m : Memo) (q : Query) (b : Branch) : Option (Option q.Answer) :=
  (p.ready? q b).or (m.get? q (p.subject q b).ref)

noncomputable def plan (q : Query) (b : Branch) : Plan (Option q.Answer) :=
  (stepAt_finds p.closed_true (P := True) (q := q) (b := b) fun _ => trivial).choose

theorem run_plan (ask : Ask) (q : Query) (b : Branch) :
    (p.step ask q b).run = (p.plan q b).run ask := by
  rw [step_eq_stepAt]
  exact (stepAt_finds p.closed_true (P := True) (q := q) fun _ => trivial).choose_spec.1 ask

theorem plan_congr {q : Query} {b b' : Branch} (h : p.anchor b = p.anchor b') :
    p.plan q b = p.plan q b' := by
  unfold plan
  simp only [h]

inductive Grown : Memo → Prop
  | empty : Grown ∅
  | insert {m : Memo} {q : Query} {b : Branch} {r : Option q.Answer} (hm : Grown m)
      (hready : p.ready? q b = none) (hnew : m.get? q (p.subject q b).ref = none)
      (heval : (p.plan q (p.subject q b)).eval (p.known m) = some r) :
      Grown (m.insert q (p.subject q b).ref r)

variable {p}

theorem answerWithin_of_ready {n : Nat} {q : Query} {b : Branch} {o : Option q.Answer}
    (h : p.ready? q b = some o) : p.answerWithin (n + 1) q b = Resolve.ofOption o := by
  cases hk : p.kind? (p.subject q b) with
  | none =>
    simp only [ready?, hk, Option.some.injEq] at h
    subst h
    simp only [answerWithin, hk]
    rfl
  | some kind =>
    simp only [ready?, hk] at h
    split at h
    · cases h
    · next hi =>
      cases h
      simp only [answerWithin, hk, if_neg hi]

theorem answerWithin_of_frame {n : Nat} {q : Query} {b : Branch} (h : p.ready? q b = none) :
    p.answerWithin (n + 1) q b =
      Resolve.remembered p.config.maxDepth q (p.subject q b).ref
        (p.step (p.answerWithin n) q (p.subject q b)) := by
  cases hk : p.kind? (p.subject q b) with
  | none =>
    simp only [ready?, hk] at h
    cases h
  | some kind =>
    simp only [ready?, hk] at h
    split at h
    · next hi => simp only [answerWithin, hk, if_pos hi]
    · cases h

end Program

namespace Memo

def Le (m m' : Memo) : Prop := ∀ q ref r, m.get? q ref = some r → m'.get? q ref = some r

theorem Le.refl (m : Memo) : m.Le m := fun _ _ _ h => h

theorem Le.trans {m₁ m₂ m₃ : Memo} (h : m₁.Le m₂) (h' : m₂.Le m₃) : m₁.Le m₃ :=
  fun q ref r hr => h' q ref r (h q ref r hr)

theorem le_insert {m : Memo} {q : Query} {ref : NodeRef} {r : Option q.Answer}
    (h : m.get? q ref = none) : m.Le (m.insert q ref r) := by
  intro q' ref' r' hr
  have hne : (⟨q', ref'⟩ : Frame) ≠ ⟨q, ref⟩ := by
    rintro ⟨⟩
    rw [h] at hr
    cases hr
  rw [get?_insert_of_ne m r hne]
  exact hr

theorem Le.known {p : Program} {m m' : Memo} (h : m.Le m') {q : Query} {b : Branch}
    {r : Option q.Answer} (hr : p.known m q b = some r) : p.known m' q b = some r := by
  rcases Option.or_eq_some_iff.mp hr with hr | ⟨hn, hr⟩
  · exact Option.or_eq_some_iff.mpr (.inl hr)
  · exact Option.or_eq_some_iff.mpr (.inr ⟨hn, h _ _ _ hr⟩)

end Memo

theorem Walk.leave_enter (w : Walk) (f : Frame) : (w.enter f).leave f w.aborted = w := by
  simp [enter, leave]

namespace Progress

def enter (s : Progress) (f : Frame) : Progress := { s with walk := s.walk.enter f }

def leave (s : Progress) (q : Query) (ref : NodeRef) (r : Option q.Answer) (outer : Bool) :
    Progress where
  walk := s.walk.leave ⟨q, ref⟩ outer
  memo := if s.walk.aborted then s.memo else s.memo.insert q ref r

theorem run_remembered_of_run {limit : Nat} {q : Query} {ref : NodeRef} {s s₁ : Progress}
    {compute : Resolve q.Answer} {r : Option q.Answer} (hm : s.memo.get? q ref = none)
    (hf : s.walk.refuses limit ⟨q, ref⟩ = false)
    (h : compute.run.run (s.enter ⟨q, ref⟩) = (r, s₁)) :
    (Resolve.remembered limit q ref compute).run.run s = (r, s₁.leave q ref r s.walk.aborted) := by
  unfold enter at h
  rw [Resolve.run_remembered hm, Resolve.run_guarded hf]
  simp only [h, leave]
  cases s₁.walk.aborted <;> rfl

end Progress

structure Progress.Advances (p : Program) (s s' : Progress) : Prop where
  visited : s'.walk.visited = s.walk.visited
  depth : s'.walk.depth = s.walk.depth
  aborted : s'.walk.aborted = false → s.walk.aborted = false
  memo : s.memo.Le s'.memo
  inFrame : ∀ f ∈ s.walk.visited, s'.memo.get? f.query f.ref = s.memo.get? f.query f.ref
  grown : p.Grown s.memo → p.Grown s'.memo

namespace Progress

variable {p : Program} {s s₁ s₂ s₃ : Progress}

theorem Advances.refl (s : Progress) : s.Advances p s :=
  ⟨rfl, rfl, fun h => h, .refl _, fun _ _ => rfl, fun h => h⟩

theorem Advances.trans (h : s₁.Advances p s₂) (h' : s₂.Advances p s₃) : s₁.Advances p s₃ where
  visited := h'.visited.trans h.visited
  depth := h'.depth.trans h.depth
  aborted ha := h.aborted (h'.aborted ha)
  memo := h.memo.trans h'.memo
  inFrame f hf := (h'.inFrame f (h.visited ▸ hf)).trans (h.inFrame f hf)
  grown hg := h'.grown (h.grown hg)

theorem Advances.walk_eq (h : s₁.Advances p s₂) (ha : s₂.walk.aborted = false) :
    s₁.walk = s₂.walk := by
  obtain ⟨⟨visited, depth, aborted⟩, memo⟩ := s₁
  obtain ⟨⟨visited', depth', aborted'⟩, memo'⟩ := s₂
  obtain rfl : visited' = visited := h.visited
  obtain rfl : depth' = depth := h.depth
  obtain rfl : aborted' = false := ha
  obtain rfl : aborted = false := h.aborted rfl
  rfl

theorem Advances.abort (s : Progress) : s.Advances p { s with walk := s.walk.abort } :=
  ⟨rfl, rfl, (nomatch ·), .refl _, fun _ _ => rfl, fun h => h⟩

theorem Advances.frame {q : Query} {ref : NodeRef} {r : Option q.Answer}
    (h : (s.enter ⟨q, ref⟩).Advances p s₁) (hm : s.memo.get? q ref = none)
    (hf : (⟨q, ref⟩ : Frame) ∉ s.walk.visited)
    (hg : s₁.walk.aborted = false → p.Grown s₁.memo → p.Grown (s₁.memo.insert q ref r)) :
    s.Advances p (s₁.leave q ref r s.walk.aborted) := by
  have hnew : s₁.memo.get? q ref = none := (h.inFrame ⟨q, ref⟩ List.mem_cons_self).trans hm
  have hle : s.memo.Le (s₁.leave q ref r s.walk.aborted).memo := by
    unfold leave
    split
    · exact h.memo
    · exact h.memo.trans (Memo.le_insert hnew)
  refine ⟨?_, ?_, ?_, hle, ?_, ?_⟩
  · simp [leave, Walk.leave, h.visited, enter, Walk.enter]
  · simp [leave, Walk.leave, h.depth, enter, Walk.enter]
  · intro ha
    simp only [leave, Walk.leave, Bool.or_eq_false_iff] at ha
    exact ha.2
  · intro f hv
    have hs : s₁.memo.get? f.query f.ref = s.memo.get? f.query f.ref :=
      h.inFrame f (List.mem_cons_of_mem _ hv)
    unfold leave
    split
    · exact hs
    · have hne : f ≠ ⟨q, ref⟩ := fun he => hf (he ▸ hv)
      exact (Memo.get?_insert_of_ne _ _ hne).trans hs
  · intro hgs
    unfold leave
    cases ha : s₁.walk.aborted with
    | true => exact h.grown hgs
    | false => exact hg ha (h.grown hgs)

end Progress

def Ask.Sound (p : Program) (ask : Ask) : Prop :=
  ∀ q b s r s', (ask q b).run.run s = (r, s') →
    s.Advances p s' ∧ (s'.walk.aborted = false → p.known s'.memo q b = some r)

namespace Plan

variable {α : Type} {p : Program} {ask : Ask}

theorem run_ask (ask : Ask) (q : Query) (b : Branch) (next : Option q.Answer → Plan α)
    (s : Progress) :
    ((Plan.ask q b next).run ask).run s =
      (((next ((ask q b).run.run s).1).run ask).run ((ask q b).run.run s).2) := rfl

theorem run_advances (hask : ask.Sound p) {t : Plan α} {s s' : Progress} {a : α}
    (h : (t.run ask).run s = (a, s')) :
    s.Advances p s' ∧ (s'.walk.aborted = false → t.eval (p.known s'.memo) = some a) := by
  induction t generalizing s with
  | done a =>
    cases h
    exact ⟨.refl _, fun _ => rfl⟩
  | ask q b next ih =>
    rw [run_ask] at h
    cases hr : (ask q b).run.run s with | mk r s₁
    rw [hr] at h
    obtain ⟨h₁, hk⟩ := hask q b s r s₁ hr
    obtain ⟨h₂, he⟩ := ih r h
    refine ⟨h₁.trans h₂, fun ha => ?_⟩
    simp only [eval, h₂.memo.known (hk (h₂.aborted ha))]
    exact he ha

end Plan

namespace Program

variable {p : Program}

theorem sound_remembered {ask : Ask} (hask : ask.Sound p) {q : Query} {b : Branch}
    (hb : p.ready? q b = none) {s s' : Progress} {r : Option q.Answer}
    (h : (Resolve.remembered p.config.maxDepth q (p.subject q b).ref
      (p.step ask q (p.subject q b))).run.run s = (r, s')) :
    s.Advances p s' ∧ (s'.walk.aborted = false → p.known s'.memo q b = some r) := by
  cases hm : s.memo.get? q (p.subject q b).ref with
  | some answer =>
    rw [Resolve.run_remembered_of_get? hm] at h
    cases h
    exact ⟨.refl s, fun _ => by simp [known, hb, hm]⟩
  | none =>
    cases hf : s.walk.refuses p.config.maxDepth ⟨q, (p.subject q b).ref⟩ with
    | true =>
      rw [Resolve.run_remembered hm, Resolve.run_guarded_of_refuses hf] at h
      cases h
      exact ⟨.abort s, fun h => nomatch h⟩
    | false =>
      have hv : (⟨q, (p.subject q b).ref⟩ : Frame) ∉ s.walk.visited := fun hv => by
        rw [Walk.refuses_iff.mpr (.inr hv)] at hf
        cases hf
      cases hr : ((p.plan q (p.subject q b)).run ask).run (s.enter ⟨q, (p.subject q b).ref⟩) with
      | mk r₁ s₁ =>
      obtain ⟨hadv, he⟩ := Plan.run_advances hask hr
      rw [← run_plan] at hr
      rw [Progress.run_remembered_of_run hm hf hr] at h
      cases h
      have hnew := (hadv.inFrame _ List.mem_cons_self).trans hm
      refine ⟨hadv.frame hm hv fun ha hg => .insert hg hb hnew (he ha), fun ha => ?_⟩
      simp only [Progress.leave, Walk.leave, Bool.or_eq_false_iff] at ha
      simp [known, hb, Progress.leave, ha.1, Memo.get?_insert_self]

theorem answerWithin_sound (p : Program) (n : Nat) : Ask.Sound p (p.answerWithin n) := by
  induction n with
  | zero =>
    rintro q b s r s' ⟨⟩
    exact ⟨.abort s, fun h => nomatch h⟩
  | succ n ih =>
    intro q b s r s' h
    cases hb : p.ready? q b with
    | some o =>
      rw [answerWithin_of_ready hb] at h
      cases h
      exact ⟨.refl s, fun _ => by simp [known, hb]⟩
    | none =>
      rw [answerWithin_of_frame hb] at h
      exact sound_remembered ih hb h

theorem answer_sound (p : Program) : Ask.Sound p p.answer := p.answerWithin_sound (p.frameCount + 1)

end Program

end SquirrelAnalyzer
