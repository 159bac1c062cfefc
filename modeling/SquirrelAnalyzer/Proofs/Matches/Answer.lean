import SquirrelAnalyzer.Proofs.Matches.Resolve
import SquirrelAnalyzer.Proofs.Replay

namespace SquirrelAnalyzer

open Classical in
noncomputable def Ask.only (I : Branch → Prop) (ask : Ask) : Ask := fun q b =>
  OptionT.mk ((·.filter fun x => decide (q.Holds I x)) <$> (ask q b).run)

section

variable {I : Branch → Prop} {ask ask' : Ask} {α : Type} {Q Q' : α → Prop} {s : Progress}

open Classical in
theorem Ask.run_only (I : Branch → Prop) (ask : Ask) (q : Query) (b : Branch) (s : Progress) :
    ((ask.only I) q b).run.run s =
      (((ask q b).run.run s).1.filter fun x => decide (q.Holds I x), ((ask q b).run.run s).2) := rfl

open Classical in
theorem Ask.within_only (I : Branch → Prop) (ask : Ask) : (ask.only I).Within I := by
  intro q b s x hx
  rw [run_only] at hx
  exact of_decide_eq_true (Option.filter_eq_some_iff.mp hx).2

open Classical in
theorem Ask.Holds.run_only (h : ask.Holds I) {q : Query} {b : Branch} (hb : I b)
    (hs : s.memo.Holds I) : ((ask.only I) q b).run.run s = (ask q b).run.run s := by
  rw [Ask.run_only]
  cases hr : (ask q b).run.run s with | mk r s'
  cases r with
  | none => rfl
  | some x =>
    have hx := (h q b s (some x) s' hb hs hr).1 x rfl
    exact congrArg (·, s') (Option.filter_eq_some_iff.mpr ⟨rfl, decide_eq_true hx⟩)

theorem Plan.Keeps.run_congr {t : Plan α} (ht : t.Keeps I Q) (hask : ask.Holds I)
    (h : ∀ q b s, I b → s.memo.Holds I → (ask q b).run.run s = (ask' q b).run.run s)
    (hs : s.memo.Holds I) : (t.run ask).run s = (t.run ask').run s := by
  induction t generalizing s with
  | done a => rfl
  | ask q b next ih =>
    rw [Plan.run_ask, Plan.run_ask, ← h q b s ht.1 hs]
    cases hr : (ask q b).run.run s with | mk r s₁
    obtain ⟨hx, hs₁⟩ := hask q b s r s₁ ht.1 hs hr
    exact ih r (ht.2 r hx) hs₁

theorem Follows.run_congr {F F' : Ask → Resolving α} (hF : Follows I True F Q)
    (hF' : Follows I True F' Q') (hsame : ∀ ask, ask.Within I → F ask = F' ask)
    (hask : ask.Holds I)
    (h : ∀ q b s, I b → s.memo.Holds I → (ask q b).run.run s = (ask' q b).run.run s)
    (hs : s.memo.Holds I) : (F ask).run s = (F' ask').run s := by
  obtain ⟨t, ht, hkeeps⟩ := hF
  obtain ⟨t', ht', hkeeps'⟩ := hF'
  have honly (q : Query) (b : Branch) (s : Progress) (hb : I b) (hs : s.memo.Holds I) :
      (ask q b).run.run s = ((ask.only I) q b).run.run s := (hask.run_only hb hs).symm
  calc (F ask).run s
      = (t.run ask).run s := by rw [ht]
    _ = (t.run (ask.only I)).run s := (hkeeps trivial).run_congr hask honly hs
    _ = (F (ask.only I)).run s := by rw [ht]
    _ = (F' (ask.only I)).run s := by rw [hsame _ (ask.within_only I)]
    _ = (t'.run (ask.only I)).run s := by rw [ht']
    _ = (t'.run ask).run s := ((hkeeps' trivial).run_congr hask honly hs).symm
    _ = (t'.run ask').run s := (hkeeps' trivial).run_congr hask h hs
    _ = (F' ask').run s := by rw [ht']

end

theorem Resolve.run_remembered_congr {limit : Nat} {q : Query} {ref : NodeRef} {s : Progress}
    {compute compute' : Resolve q.Answer}
    (h : compute.run.run (s.enter ⟨q, ref⟩) = compute'.run.run (s.enter ⟨q, ref⟩)) :
    (remembered limit q ref compute).run.run s = (remembered limit q ref compute').run.run s := by
  cases hm : s.memo.get? q ref with
  | some known => rw [run_remembered_of_get? hm, run_remembered_of_get? hm]
  | none =>
    rw [run_remembered hm, run_remembered hm]
    cases hf : s.walk.refuses limit ⟨q, ref⟩ with
    | true => rw [run_guarded_of_refuses hf, run_guarded_of_refuses hf]
    | false =>
      rw [Progress.enter] at h
      simp only [run_guarded hf, h]

namespace Program

variable {p p' : Program} {I : Branch → Prop} {s : Progress}

theorem Matches.run_answerWithin (h : p.Matches p' I) (n : Nat) {q : Query} {b : Branch} (hb : I b)
    (hs : s.memo.Holds I) :
    (p.answerWithin n q b).run.run s = (p'.answerWithin n q b).run.run s := by
  induction n generalizing q b s with
  | zero => rfl
  | succ n ih =>
    have hc : I (p.subject q b) := h.left.subject hb
    simp only [answerWithin]
    rw [← h.subject hb q, ← h.kind? hc, ← h.config]
    cases p.kind? (p.subject q b) with
    | none => rfl
    | some kind =>
      dsimp only
      split
      · apply Resolve.run_remembered_congr
        have hanchor : I (p.anchor (p.subject q b)) := h.left.anchor hc
        have hleft := stepAt_finds h.left (P := True) (q := q) fun _ => hc
        have hright := stepAt_finds h.right (P := True) (q := q) fun _ => hc
        rw [← h.anchor hc] at hright
        rw [step_eq_stepAt, step_eq_stepAt, ← h.anchor hc]
        exact Follows.run_congr hleft hright
          (fun ask hask => congrArg OptionT.run (h.stepAt hask q hanchor))
          (answerWithin_holds h.left n) (fun q b s hb hs => ih hb hs) hs
      · rfl

theorem run_answer_eq (p : Program) {α : Type} (t : Plan α) (s : Progress) (k : Nat) :
    (t.run p.answer).run s = (t.run (p.answerWithin (p.frameCount + 1 + k))).run s := by
  obtain ⟨walks, hruns⟩ := Plan.exists_runs t (Nat.lt_succ_of_le (p.unvisited_le s.walk))
    fun q b s => runs_answerWithin
  refine (hruns.run_eq ?_).symm
  exact Nat.lt_of_le_of_lt (p.unvisited_le s.walk) (by omega)

theorem Matches.run_answer (h : p.Matches p' I) {α : Type} {F F' : Ask → Resolving α}
    {Q Q' : α → Prop} (hF : Follows I True F Q) (hF' : Follows I True F' Q')
    (hsame : ∀ ask, ask.Within I → F ask = F' ask) (hs : s.memo.Holds I) :
    (F p.answer).run s = (F' p'.answer).run s := by
  have hbound : p.frameCount + 1 + p'.frameCount = p'.frameCount + 1 + p.frameCount := by omega
  have hlarge : (F (p.answerWithin (p.frameCount + 1 + p'.frameCount))).run s =
      (F' (p'.answerWithin (p.frameCount + 1 + p'.frameCount))).run s :=
    Follows.run_congr hF hF' hsame (answerWithin_holds h.left _)
      (fun q b s hb hs => h.run_answerWithin _ hb hs) hs
  obtain ⟨t, ht, -⟩ := hF
  obtain ⟨t', ht', -⟩ := hF'
  rw [ht, ht'] at hlarge ⊢
  rw [run_answer_eq p t s p'.frameCount, hlarge, hbound, ← run_answer_eq p' t' s p.frameCount]

theorem Matches.freshValue? (h : p.Matches p' I) {b : Branch} (hb : I b) :
    p.freshValue? b = p'.freshValue? b := by
  have hask : Follows I True (fun ask => (ask .value b).run)
      fun o => ∀ v, o = some v → Query.Holds I .value v := Follows.ask .value fun _ => hb
  have hrun := h.run_answer hask hask (fun _ _ => rfl) (s := {}) Memo.holds_empty
  exact congrArg (·.1) hrun

theorem Matches.qualifiedParts? (h : p.Matches p' I) {d : Branch} (hd : I d) :
    p.qualifiedParts? d = p'.qualifiedParts? d := by
  have hmember {left : NodeId} (hleft : I (d.child left)) :
      ((p.shape? (d.child left)).bind Shape.member?).map (fun member =>
        ((d.child left).child member.1, member.2.1)) =
      ((p'.shape? (d.child left)).bind Shape.member?).map fun member =>
        ((d.child left).child member.1, member.2.1) := by
    rcases h.shape?_cases hleft with hs | ⟨key, s, s', hs, hs', hbracket⟩
    · rw [hs]
    · rw [hs, hs']
      cases hbracket <;> rfl
  unfold Program.qualifiedParts?
  rcases h.shape?_cases hd with hs | ⟨key, s, s', hs, hs', hbracket⟩
  · rw [← hs]
    split
    · rfl
    · rfl
    · next hs =>
      apply hmember
      apply h.left.childOf hd hs
      simp [Shape.operands, Shape.children, Shape.kind, Kind.fields, Shape.field]
    · rfl
  · rw [hs, hs']
    cases hbracket <;> rfl

theorem Matches.namespaceEntry? (h : p.Matches p' I) {d : Branch} (hd : I d) :
    p.namespaceEntry? d = Program.namespaceEntry? p' d := by
  unfold Program.namespaceEntry?
  rw [← h.qualifiedParts? hd]
  rcases (h.unit hd).cases with ⟨hu, hu'⟩ | ⟨u, u', hu, hu', hr⟩
  · rw [hu, hu', Option.bind_eq_bind, Option.bind_none, Option.bind_none]
  rw [hu, hu']
  cases hparts : p.qualifiedParts? d with
  | none => simp only [Option.bind_eq_bind, Option.bind_some, Option.bind_none]
  | some parts =>
    obtain ⟨owner, nameNode⟩ := parts
    have howner : I owner := h.left.qualifiedParts? hd hparts
    simp only [Option.bind_eq_bind, Option.bind_some, h.freshValue? howner, hr.keyName?]

theorem Matches.resolve (h : p.Matches p' I) {q : Question} (hq : I q.branch)
    (hl : ∀ b, q ≠ .label b) {ask : Ask} (hask : ask.Within I) :
    q.resolve p ask = q.resolve p' ask := by
  cases q with
  | definition b => rfl
  | value b => rfl
  | label b => exact absurd rfl (hl b)
  | superclasses b => exact h.superclasses hask hq
  | members b =>
    refine Follows.bind_congr (Follows.ask .value fun _ => hq) hask fun o ho => ?_
    cases o with
    | none => rfl
    | some v => exact h.members hask (ho v rfl)
  | findMember b name =>
    exact congrArg OptionT.run ((Finds.ask .value fun _ => hq).bind_congr hask fun v hv =>
      h.findMember hask hv name none)

end Program

end SquirrelAnalyzer
