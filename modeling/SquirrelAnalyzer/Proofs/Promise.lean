import SquirrelAnalyzer.Proofs.Routes

namespace SquirrelAnalyzer

def Assures {α : Type} (A : Promise) (x : Resolving α) (Q : α → Prop) : Prop :=
  ∀ s a s', s.memo.Meets A → x.run s = (a, s') → Q a ∧ s'.memo.Meets A

def Yields {α : Type} (A : Promise) (x : Resolve α) (Q : α → Prop) : Prop :=
  Assures A x.run fun o => ∀ a, o = some a → Q a

def Ask.Meets (p : Program) (A : Promise) (ask : Ask) : Prop :=
  ∀ q b, Yields A (ask q b) (A q (p.subject q b).ref)

variable {p : Program} {A : Promise} {ask : Ask} {α β : Type}

namespace Assures

variable {x : Resolving α} {f : α → Resolving β} {Q Q' : α → Prop} {R : β → Prop}

theorem pure {a : α} (h : Q a) : Assures A (Pure.pure a) Q := by
  rintro s _ _ hs ⟨⟩
  exact ⟨h, hs⟩

theorem bind (hx : Assures A x Q) (hf : ∀ a, Q a → Assures A (f a) R) : Assures A (x >>= f) R := by
  intro s b s' hs h
  rw [StateT.run_bind] at h
  cases hrun : x.run s with | mk a s₁
  rw [hrun] at h
  obtain ⟨ha, hs₁⟩ := hx s a s₁ hs hrun
  exact hf a ha s₁ b s' hs₁ h

theorem mono (hx : Assures A x Q) (h : ∀ a, Q a → Q' a) : Assures A x Q' := by
  intro s a s' hs hrun
  obtain ⟨ha, hs'⟩ := hx s a s' hs hrun
  exact ⟨h a ha, hs'⟩

end Assures

namespace Yields

variable {x y : Resolve α} {f : α → Resolve β} {Q Q' : α → Prop} {R : β → Prop}

theorem pure {a : α} (h : Q a) : Yields A (Pure.pure a) Q := by
  refine Assures.pure (a := some a) ?_
  rintro _ ⟨⟩
  exact h

theorem failure : Yields A (failure : Resolve α) Q :=
  Assures.pure (a := none) (by simp)

theorem ofOption {o : Option α} (h : ∀ a, o = some a → Q a) : Yields A (Resolve.ofOption o) Q :=
  Assures.pure h

theorem mono (hx : Yields A x Q) (h : ∀ a, Q a → Q' a) : Yields A x Q' :=
  Assures.mono hx fun _ ho a ha => h a (ho a ha)

theorem bind (hx : Yields A x Q) (hf : ∀ a, Q a → Yields A (f a) R) : Yields A (x >>= f) R := by
  unfold Yields
  rw [OptionT.run_bind]
  refine Assures.bind hx fun o ho => ?_
  cases o with
  | none => exact failure
  | some a => exact hf a (ho a rfl)

theorem bind_ofOption {o : Option α} (hf : ∀ a, o = some a → Yields A (f a) R) :
    Yields A (Resolve.ofOption o >>= f) R :=
  bind (ofOption fun _ h => h) hf

theorem orElse (hx : Yields A x Q) (hy : Yields A y Q) : Yields A (x <|> y) Q := by
  unfold Yields
  rw [OptionT.run_orElse]
  refine Assures.bind hx fun o ho => ?_
  cases o with
  | none => exact hy
  | some a => exact pure (ho a rfl)

theorem lift {z : Resolving α} (hz : Assures A z Q) : Yields A (liftM z : Resolve α) Q := by
  have h : Assures A (z >>= fun a => Pure.pure (some a)) fun o => ∀ a, o = some a → Q a := by
    refine Assures.bind hz fun a ha => Assures.pure ?_
    rintro _ ⟨⟩
    exact ha
  exact h

end Yields

namespace Plan

theorem run_assures (hask : ask.Meets p A) (t : Plan α) : Assures A (t.run ask) fun _ => True := by
  induction t with
  | done a => exact Assures.pure trivial
  | ask q b next ih => exact Assures.bind (hask q b) fun r _ => ih r

end Plan

theorem Follows.assures {I : Branch → Prop} {P : Prop} {F : Ask → Resolving α} {Q : α → Prop}
    (hF : Follows I P F Q) (hask : ask.Meets p A) : Assures A (F ask) fun _ => True := by
  obtain ⟨t, ht, -⟩ := hF
  rw [ht]
  exact t.run_assures hask

theorem Finds.yields {I : Branch → Prop} {P : Prop} {F : Ask → Resolve α} {Q : α → Prop}
    (hF : Finds I P F Q) (hask : ask.Meets p A) : Yields A (F ask) fun _ => True :=
  Assures.mono (Follows.assures hF hask) fun _ _ _ _ => trivial

namespace Resolve

theorem mem_scope_of_scopeAt {b : Branch} {s : ScopedName} (hs : s ∈ scopeAt p b) :
    ∃ u, p.unit? b.unit = some u ∧ s ∈ u.scope b.target := by
  unfold scopeAt at hs
  split at hs
  · cases hs
  · next u hu =>
    split at hs
    · exact ⟨u, hu, hs⟩
    · cases hs

variable {name : String} {arity : Option Nat} {Q : Branch → Prop} (hask : ask.Meets p A)
  (hmember : ∀ {owner m}, m ∈ p.ownMembers owner → Q m.2)

include hask hmember

theorem findMember_yields (v : Value) : Yields A (findMember p ask name arity v) Q := by
  unfold findMember
  have hlevels : Follows (fun _ => True) True (fun ask => levels p ask v) _ :=
    levels_follows p.closed_true fun _ => Query.holds_true .value v
  refine Yields.bind (Yields.lift (hlevels.assures hask)) fun levels _ => ?_
  refine Yields.ofOption fun d hd => ?_
  obtain ⟨owner, -, hd⟩ := List.exists_of_findSome?_eq_some hd
  obtain ⟨m, hm, rfl⟩ := List.mem_map.mp (Program.mem_of_variation? hd)
  exact hmember (List.mem_filter.mp hm).1

theorem nameAt_yields {outer : Branch} (inner : NodeId)
    (hscope : ∀ s ∈ scopeAt p outer, s.name = name → Q s.declaration) :
    Yields A (nameAt p ask name arity outer inner) Q := by
  unfold nameAt
  refine Yields.orElse (Yields.ofOption fun d hd => ?_) ?_
  · obtain ⟨s, hs, hname, rfl⟩ := Program.mem_of_scoped? hd
    exact hscope s hs hname
  · have howner : Finds (fun _ => True) True (fun ask => bodyOwner p ask outer inner) _ :=
      bodyOwner_finds p.closed_true fun _ _ => trivial
    exact Yields.bind (howner.yields hask) fun v _ => findMember_yields hask hmember v

theorem lookupName_yields {b : Branch}
    (hscope : ∀ e ∈ b.enclosing, ∀ s ∈ scopeAt p e.1, s.name = name → Q s.declaration)
    (himported : ∀ d, p.imported? b.unit name arity = some d → Q d) :
    Yields A (lookupName p ask b name arity) Q := by
  have hamong (around : List (Branch × NodeId))
      (hscope : ∀ e ∈ around, ∀ s ∈ scopeAt p e.1, s.name = name → Q s.declaration) :
      Yields A (nameAmong p ask b.unit name arity around) Q := by
    induction around with
    | nil => exact Yields.ofOption himported
    | cons e rest ih =>
      refine Yields.orElse (nameAt_yields hask hmember e.2 (hscope e List.mem_cons_self)) ?_
      exact ih fun e he => hscope e (List.mem_cons_of_mem _ he)
  unfold lookupName
  split
  · exact hamong b.enclosing hscope
  · exact Yields.failure

theorem memberOf_yields (object : Branch) : Yields A (memberOf p ask object name arity) Q := by
  have hvalue : Finds (fun _ => True) True (fun ask => attempt (ask .value object)) _ :=
    Finds.attempt (Finds.ask .value fun _ => trivial)
  have hdocumented : Finds (fun _ => True) True (fun ask => documentedValue p ask object) _ :=
    documentedValue_finds p.closed_true fun _ => trivial
  have haugmented (v : Option Value) :
      Finds (fun _ => True) True (fun ask => augmentedValue p ask v) _ :=
    augmentedValue_finds p.closed_true fun _ x _ => Query.holds_true .value x
  unfold memberOf
  refine Yields.bind (hvalue.yields hask) fun v _ => ?_
  refine Yields.orElse (Yields.bind_ofOption fun v _ => findMember_yields hask hmember v) ?_
  refine Yields.orElse (Yields.bind (hdocumented.yields hask) fun v _ => ?_) ?_
  · exact findMember_yields hask hmember v
  · exact Yields.bind ((haugmented v).yields hask) fun v _ => findMember_yields hask hmember v

end Resolve

structure Promise.Kept (A : Promise) (p : Program) : Prop where
  direct : ∀ {q b x}, p.ready? q b = some (some x) → A q (p.subject q b).ref x
  step : ∀ {ask q b}, ask.Meets p A → Yields A (p.step ask q b) (A q b.ref)

namespace Program

variable {q : Query} {b : Branch} {m : Memo} {r : Option q.Answer}

theorem Grown.exists_eval (hm : p.Grown m) {q : Query} {ref : NodeRef} {r : Option q.Answer}
    (h : m.get? q ref = some r) :
    ∃ b, b.ref = ref ∧ (p.plan q b).eval (p.known m) = some r := by
  induction hm with
  | empty => simp at h
  | @insert m q' b' r' hm hready hnew heval ih =>
    have hle := Memo.le_insert (r := r') hnew
    by_cases hf : (⟨q, ref⟩ : Frame) = ⟨q', (p.subject q' b').ref⟩
    · obtain ⟨rfl, rfl⟩ := Frame.mk.inj hf
      rw [Memo.get?_insert_self] at h
      cases h
      exact ⟨_, rfl, Plan.eval_mono (fun _ _ _ => hle.known) heval⟩
    · rw [Memo.get?_insert_of_ne _ _ hf] at h
      obtain ⟨b, hb, he⟩ := ih h
      exact ⟨b, hb, Plan.eval_mono (fun _ _ _ => hle.known) he⟩

theorem run_step_ofKnown {known : (q : Query) → Branch → Option (Option q.Answer)}
    (h : (p.plan q b).eval known = some r) (s : Progress) :
    (p.step (Ask.ofKnown known) q b).run.run s = (r, s) := by
  rw [run_plan]
  exact Plan.run_ofKnown h s

theorem step_yields (hask : ask.Meets p A) (q : Query) (b : Branch) :
    Yields A (p.step ask q b) fun _ => True := by
  have hstep := stepAt_finds p.closed_true (P := True) (q := q) (b := b) fun _ => trivial
  rw [step_eq_stepAt]
  exact hstep.yields hask

theorem remembered_meets {compute : Resolve q.Answer} {ref : NodeRef} {limit : Nat}
    (h : 0 < limit → Yields A compute (A q ref)) :
    Yields A (Resolve.remembered limit q ref compute) (A q ref) := by
  intro s r s' hs hrun
  cases hm : s.memo.get? q ref with
  | some answer =>
    have he := (Resolve.run_remembered_of_get? hm compute).symm.trans hrun
    cases he
    exact ⟨fun x hx => hs q ref x (hx ▸ hm), hs⟩
  | none =>
    cases hf : s.walk.refuses limit ⟨q, ref⟩ with
    | true =>
      have he := (Resolve.run_remembered hm compute).symm.trans hrun
      rw [Resolve.run_guarded_of_refuses hf] at he
      cases he
      exact ⟨by simp, hs⟩
    | false =>
      have hlimit : 0 < limit := by
        simp only [Walk.refuses, Bool.or_eq_false_iff, decide_eq_false_iff_not] at hf
        omega
      cases hr : compute.run.run (s.enter ⟨q, ref⟩) with | mk r₁ s₁
      obtain ⟨hr₁, hs₁⟩ := h hlimit (s.enter ⟨q, ref⟩) r₁ s₁ hs hr
      have he := (Progress.run_remembered_of_run hm hf hr).symm.trans hrun
      cases he
      refine ⟨hr₁, ?_⟩
      simp only [Progress.leave]
      split
      · exact hs₁
      · exact hs₁.insert hr₁

theorem answerWithin_meets (hA : A.Kept p) (n : Nat) : (p.answerWithin n).Meets p A := by
  induction n with
  | zero =>
    rintro q b s _ _ hs ⟨⟩
    exact ⟨by simp, hs⟩
  | succ n ih =>
    intro q b
    cases hready : p.ready? q b with
    | some o =>
      rw [answerWithin_of_ready hready]
      exact Yields.ofOption fun x hx => hA.direct (hx ▸ hready)
    | none =>
      rw [answerWithin_of_frame hready]
      exact remembered_meets fun _ => hA.step ih

theorem answer_meets (hA : A.Kept p) : p.answer.Meets p A := answerWithin_meets hA _

theorem run_answer_immediate (hm : p.Grown m) (hs : p.HasSlot q b) (hd : 0 < p.config.maxDepth)
    {P : Option q.Answer → Prop}
    (hstep : ∀ b', b'.ref = b.ref → ∃ o, P o ∧ ∀ ask, p.step ask q b' = Resolve.ofOption o) :
    P ((p.answer q b).run.run ⟨{}, m⟩).1 := by
  cases hget : m.get? q b.ref with
  | some r =>
    obtain ⟨b', hr, heval⟩ := hm.exists_eval hget
    obtain ⟨o, ho, hfinds⟩ := hstep b' hr
    have hrun := run_step_ofKnown heval {}
    rw [hfinds] at hrun
    cases hrun
    rw [hs.answer_eq, Resolve.run_remembered_of_get? (s := ⟨{}, m⟩) hget]
    exact ho
  | none =>
    obtain ⟨o, ho, hfinds⟩ := hstep b rfl
    have hf : ({} : Walk).refuses p.config.maxDepth ⟨q, b.ref⟩ = false := by
      simpa [Walk.refuses] using Nat.ne_of_gt hd
    have hrun : (p.stepAt (p.answerWithin p.frameCount) q (p.anchor b)).run.run
        (Progress.enter ⟨{}, m⟩ ⟨q, b.ref⟩) = (o, Progress.enter ⟨{}, m⟩ ⟨q, b.ref⟩) := by
      rw [← step_eq_stepAt, hfinds]
      rfl
    rw [hs.answer_eq, Progress.run_remembered_of_run (s := ⟨{}, m⟩) hget hf hrun]
    exact ho

end Program

namespace Analysis

variable {asked : Program → Branch → Prop} {a : Analysis}

theorem Reachable.meets (h : a.Reachable asked) (hA : a.program.answer.Meets a.program A) :
    a.memo.Meets A := by
  induction h with
  | ofConfig config => exact Memo.meets_empty
  | ofSources h => exact (sound_ofSources h).2 ▸ Memo.meets_empty
  | edit h he => exact (sound_apply h.sound h.within he).2 ▸ Memo.meets_empty
  | @ask a h q hq ih =>
    rw [program_ask] at hA
    obtain ⟨t, -, ht⟩ := exists_plan a.program.closed_true q trivial
    rw [← (ht a.memo).2]
    exact (Plan.run_assures hA t { memo := a.memo } _ _ (ih hA) rfl).2

theorem Reachable.keeps (h : a.Reachable asked) (hA : a.program.answer.Meets a.program A)
    {q : Query} {b : Branch} {x : q.Answer}
    (hx : ((a.program.answer q b).run.run ⟨{}, a.memo⟩).1 = some x) :
    A q (a.program.subject q b).ref x :=
  (hA q b ⟨{}, a.memo⟩ _ _ (h.meets hA) rfl).1 x hx

end Analysis

end SquirrelAnalyzer
