import SquirrelAnalyzer.Proofs.Promise
import SquirrelAnalyzer.Proofs.Replay

namespace SquirrelAnalyzer

def Query.inside (d : Branch) : (q : Query) → Option q.Answer
  | .definition => some d
  | .value => none

def Walk.inside (w : Walk) : Query → Walk
  | .definition => w
  | .value => w.abort

def Memo.AgreesOff (nodes : NodeRef → Prop) (m m' : Memo) : Prop :=
  ∀ q ref, ¬nodes ref → m.get? q ref = m'.get? q ref

namespace Memo.AgreesOff

variable {nodes : NodeRef → Prop} {m m' m₁ m₂ m₃ : Memo}

theorem refl (m : Memo) : AgreesOff nodes m m := fun _ _ _ => rfl

theorem symm (h : AgreesOff nodes m m') : AgreesOff nodes m' m :=
  fun q ref hn => (h q ref hn).symm

theorem trans (h : AgreesOff nodes m₁ m₂) (h' : AgreesOff nodes m₂ m₃) : AgreesOff nodes m₁ m₃ :=
  fun q ref hn => (h q ref hn).trans (h' q ref hn)

theorem insert_self (m : Memo) (q : Query) {ref : NodeRef} (r : Option q.Answer)
    (href : nodes ref) : AgreesOff nodes (m.insert q ref r) m := fun _ _ hn =>
  Memo.get?_insert_of_ne m r fun he => hn ((Frame.mk.inj he).2 ▸ href)

theorem insert (h : AgreesOff nodes m m') (q : Query) (ref : NodeRef) (r : Option q.Answer) :
    AgreesOff nodes (m.insert q ref r) (m'.insert q ref r) := by
  intro q' ref' hn
  by_cases he : (⟨q', ref'⟩ : Frame) = ⟨q, ref⟩
  · obtain ⟨rfl, rfl⟩ := Frame.mk.inj he
    rw [get?_insert_self, get?_insert_self]
  · rw [get?_insert_of_ne m r he, get?_insert_of_ne m' r he, h q' ref' hn]

theorem known {p : Program} {q : Query} {b : Branch} (h : AgreesOff nodes m m')
    (hn : ¬nodes (p.subject q b).ref) : p.known m q b = p.known m' q b := by
  rw [Program.known, Program.known, h q _ hn]

end Memo.AgreesOff

namespace Plan.Runs

variable {p : Program} {α : Type} {t : Plan α} {s s₁ s' : Progress} {walks : List Walk} {a : α}

theorem unique {walks' : List Walk} {a' : α} (h : Runs p t s walks a s₁)
    (h' : Runs p t s walks' a' s') : a = a' ∧ s₁ = s' :=
  Prod.mk.inj ((h.run_eq (Nat.lt_succ_self _)).symm.trans (h'.run_eq (Nat.lt_succ_self _)))

theorem exists_depth (h : Runs p t s walks a s') : ∃ w ∈ walks, w.depth = s.walk.depth := by
  induction h with
  | done a s => exact ⟨_, List.mem_cons_self, rfl⟩
  | known _ _ ih => exact ih
  | refused => exact ⟨_, List.mem_cons_self, rfl⟩
  | frame => exact ⟨_, List.mem_cons_self, rfl⟩

end Plan.Runs

namespace Program

variable {p : Program} {d e x : Branch} {o source : Option Branch} {c : NodeRef} {q : Query}
  {m : Memo} {s : Progress}

structure Refers (p : Program) (o source : Option Branch) (c : NodeRef) : Prop where
  slot : ∀ {q x}, x.ref = c → p.HasSlot q x
  definition : ∀ {x}, x.ref = c → p.IsStep .definition x (.done o)
  value : ∀ {x}, x.ref = c → ∃ x' k, x'.ref = c ∧ p.IsStep .value x (.ask .definition x' k) ∧
    k none = .done none ∧ k o = source.elim (.done none) fun d => .ask .value d .done

abbrev Alias (p : Program) (d : Branch) (c : NodeRef) : Prop := p.Refers (some d) (some d) c

namespace Refers

variable (h : p.Refers o source c)

include h

theorem remembered_definition (hm : p.Grown m) {r : Option Branch}
    (hr : m.get? .definition c = some r) : r = o := by
  obtain ⟨x, hx, heval⟩ := hm.exists_eval hr
  have hplan : (p.plan .definition x).run (Ask.ofKnown (p.known m)) =
      (Plan.done o).run (Ask.ofKnown (p.known m)) := by
    rw [← run_plan, h.definition hx]
  rw [Plan.eval_eq_of_run hplan] at heval
  exact (Option.some.inj heval).symm

theorem remembered_value (hm : p.Grown m) {v : Option Value} (hv : m.get? .value c = some v) :
    source.elim (v = none) fun d => p.known m .value d = some v := by
  obtain ⟨x, hx, heval⟩ := hm.exists_eval hv
  obtain ⟨x', k, hx', hstep, -, hk⟩ := h.value hx
  have hplan : (p.plan .value x).run (Ask.ofKnown (p.known m)) =
      (Plan.ask .definition x' k).run (Ask.ofKnown (p.known m)) := by
    rw [← run_plan, hstep]
  rw [Plan.eval_eq_of_run hplan] at heval
  obtain ⟨r, hr, heval⟩ := Option.bind_eq_some_iff.mp heval
  rw [(h.slot hx').known, hx'] at hr
  obtain rfl := h.remembered_definition hm hr
  rw [hk] at heval
  cases source with
  | none => exact (Option.some.inj heval).symm
  | some d =>
    obtain ⟨v', hv', heval⟩ := Option.bind_eq_some_iff.mp heval
    obtain rfl := Option.some.inj heval
    exact hv'

theorem runs_definition (hready : p.ready? .definition x = none)
    (hx : (p.subject .definition x).ref = c) (hm : p.Grown s.memo)
    (hout : (⟨.definition, c⟩ : Frame) ∉ s.walk.visited) :
    ∃ walks r s', Plan.Runs p (.ask .definition x .done) s walks r s' ∧
      s'.memo.AgreesOff (· = c) s.memo ∧
      (r = o ∧ s'.walk = s.walk ∨
        r = none ∧ s'.walk = s.walk.abort ∧ p.config.maxDepth ≤ s.walk.depth) := by
  cases hget : s.memo.get? .definition c with
  | some r =>
    have hknown : p.known s.memo .definition x = some r :=
      Option.or_eq_some_iff.mpr (.inr ⟨hready, hx ▸ hget⟩)
    exact ⟨_, r, s, .known hknown (.done r s), .refl _, .inl ⟨h.remembered_definition hm hget, rfl⟩⟩
  | none =>
    have hknown : p.known s.memo .definition x = none :=
      Option.or_eq_none_iff.mpr ⟨hready, hx ▸ hget⟩
    cases hf : s.walk.refuses p.config.maxDepth ⟨.definition, (p.subject .definition x).ref⟩ with
    | true =>
      have hdeep := (Walk.refuses_iff.mp hf).resolve_right (hx ▸ hout)
      exact ⟨_, none, _, .refused hknown hf (.done none _), .refl _, .inr ⟨rfl, rfl, hdeep⟩⟩
    | false =>
      have hrun := Plan.Runs.frame hknown hf (h.definition hx) (.done o _) (.done o _)
      refine ⟨_, o, _, hrun, ?_, .inl ⟨rfl, s.walk.leave_enter _⟩⟩
      exact Memo.AgreesOff.insert_self s.memo .definition o hx

theorem runs_value (hx : x.ref = c) (hm : p.Grown s.memo) (hget : s.memo.get? .value c = none)
    (henters : s.walk.refuses p.config.maxDepth ⟨.value, c⟩ = false)
    (hout : (⟨.definition, c⟩ : Frame) ∉ s.walk.visited) :
    ∃ walks v s₂, Plan.Runs p (.ask .value x .done) s walks v
        (s₂.leave .value c v s.walk.aborted) ∧
      ((v = none ∧ s₂.walk = (s.walk.enter ⟨.value, c⟩).abort ∧
          s₂.memo.AgreesOff (· = c) s.memo ∧ ∃ w ∈ walks, p.config.maxDepth ≤ w.depth) ∨
        ∃ s₁ inner, s₁.walk = s.walk.enter ⟨.value, c⟩ ∧ s₁.memo.AgreesOff (· = c) s.memo ∧
          p.Grown s₁.memo ∧
          Plan.Runs p (source.elim (.done none) fun d => .ask .value d .done) s₁ inner v s₂ ∧
          ∀ w ∈ inner, w ∈ walks) := by
  subst hx
  have hslot : p.HasSlot .value x := h.slot rfl
  have hknown : p.known s.memo .value x = none := hslot.known s.memo ▸ hget
  obtain ⟨x', k, hx', hstep, hnone, hk⟩ := h.value rfl
  obtain ⟨walks, r, s₁, hfirst, hmemo, ⟨rfl, hwalk⟩ | ⟨rfl, hwalk, hdeep⟩⟩ :=
    h.runs_definition (s := s.enter ⟨.value, x.ref⟩) (h.slot hx').ready?_eq
      ((congrArg Branch.ref (h.slot hx').subject_eq).trans hx') hm
      (by simpa [Progress.enter, Walk.enter] using hout)
  · obtain ⟨inner, hrest⟩ := Plan.exists_runs (p := p) (k r) (s := s₁)
      (Nat.lt_succ_of_le (p.unvisited_le s₁.walk)) fun _ _ _ => runs_answerWithin
    obtain ⟨all, hruns, hsub⟩ := hfirst.ask hrest
    refine ⟨_, _, _, .frame hknown henters hstep hruns (.done _ _), .inr ⟨s₁, inner, hwalk, hmemo,
      hfirst.advances.grown hm, hk ▸ hrest, fun w hw => ?_⟩⟩
    exact List.mem_cons_of_mem _ (List.mem_append_left _ (hsub w hw))
  · have hrest : Plan.Runs p (k none) s₁ [s₁.walk] none s₁ := hnone ▸ .done none s₁
    obtain ⟨all, hruns, -⟩ := hfirst.ask hrest
    obtain ⟨w, hw, hdepth⟩ := hruns.exists_depth
    refine ⟨_, none, s₁, .frame hknown henters hstep hruns (.done _ _),
      .inl ⟨rfl, hwalk, hmemo, w, ?_⟩⟩
    exact ⟨List.mem_cons_of_mem _ (List.mem_append_left _ hw), hdepth ▸ hdeep⟩

end Refers

theorem Refers.of_steps {r : Branch} (stands : Branch → Option Branch) (hp : p.Sound)
    (hslot : ∀ q, p.HasSlot q r) (hpath : ∀ x : Branch, x.ref = r.ref → p.anchor x = p.anchor r)
    (hdefinition : ∀ ask, Resolve.definitionStep p ask (p.anchor r) = Resolve.ofOption o)
    (hvalue : ∀ ask : Ask, Resolve.valueStep p ask (p.anchor r) =
      ask .definition (p.anchor r) >>= fun d => (stands d).elim failure (ask .value)) :
    p.Refers o (o.bind stands) r.ref where
  slot hx := (hslot _).congr hx
  definition {x} hx ask := by
    show (Resolve.definitionStep p ask (p.anchor x)).run = pure o
    rw [hpath x hx, hdefinition]
    rfl
  value {x} hx := by
    refine ⟨p.anchor r, fun o => (o.bind stands).elim (.done none) fun d => .ask .value d .done,
      hp.ref_anchor r, fun ask => ?_, rfl, rfl⟩
    show (Resolve.valueStep p ask (p.anchor x)).run = _
    rw [hpath x hx, hvalue, OptionT.run_bind, Plan.run, Option.elimM]
    congr 1
    funext found
    cases found with
    | none => rfl
    | some d =>
      show ((stands d).elim failure (ask .value)).run =
        ((stands d).elim (Plan.done none) fun d => .ask .value d .done).run ask
      cases stands d with
      | none => rfl
      | some d => exact (bind_pure (ask .value d).run).symm

theorem Refers.run_definition (h : p.Refers o source c) (hx : x.ref = c) (hm : p.Grown m)
    (hd : 0 < p.config.maxDepth) : ((p.answer .definition x).run.run ⟨{}, m⟩).1 = o := by
  obtain ⟨_, hanswer⟩ := p.runs_answer .definition x ⟨{}, m⟩
  have hslot : p.HasSlot .definition x := h.slot hx
  obtain ⟨_, r, s', hruns, -, ⟨rfl, -⟩ | ⟨-, -, hdeep⟩⟩ := h.runs_definition hslot.ready?_eq
    ((congrArg Branch.ref hslot.subject_eq).trans hx) (s := ⟨{}, m⟩) hm nofun
  · exact (hanswer.unique hruns).1
  · exact absurd hdeep (Nat.not_le_of_lt hd)

theorem Refers.run_value_none (h : p.Refers o none c) (hx : x.ref = c) (hm : p.Grown m) :
    ((p.answer .value x).run.run ⟨{}, m⟩).1 = none := by
  obtain ⟨_, hanswer⟩ := p.runs_answer .value x ⟨{}, m⟩
  have hslot : p.HasSlot .value x := h.slot hx
  cases hget : m.get? .value c with
  | some v =>
    obtain rfl : v = none := h.remembered_value hm hget
    have hknown : p.known m .value x = some none := by rw [hslot.known, hx, hget]
    exact (hanswer.unique (.known hknown (.done none ⟨{}, m⟩))).1
  | none =>
    cases hf : ({} : Walk).refuses p.config.maxDepth ⟨.value, c⟩ with
    | true =>
      have hknown : p.known m .value x = none := by rw [hslot.known, hx, hget]
      exact (hanswer.unique (.refused hknown (hx ▸ hf) (.done none _))).1
    | false =>
      obtain ⟨_, v, s₂, hruns, hvalue⟩ := h.runs_value hx (s := ⟨{}, m⟩) hm hget hf nofun
      rw [(hanswer.unique hruns).1]
      obtain ⟨rfl, -⟩ | ⟨s₁, inner, -, -, -, hrest, -⟩ := hvalue
      · rfl
      · exact hrest.of_done.1

theorem Refers.runs_inside (h : p.Alias d c) (hready : p.ready? q x = none)
    (hx : (p.subject q x).ref = c) (hne : d.ref ≠ c) (hm : p.Grown s.memo)
    (hunknown : p.known s.memo .value d = none)
    (hin : (⟨.value, d.ref⟩ : Frame) ∈ s.walk.visited)
    (hout : (⟨.definition, c⟩ : Frame) ∉ s.walk.visited)
    (hdepth : s.walk.depth < p.config.maxDepth) :
    ∃ walks s', Plan.Runs p (.ask q x .done) s walks (q.inside d) s' ∧
      s'.walk = s.walk.inside q ∧ s'.memo.AgreesOff (· = c) s.memo := by
  cases q with
  | definition =>
    obtain ⟨walks, r, s', hruns, hmemo, ⟨rfl, hwalk⟩ | ⟨-, -, hdeep⟩⟩ :=
      h.runs_definition hready hx hm hout
    · exact ⟨walks, s', hruns, hwalk, hmemo⟩
    · exact absurd hdeep (Nat.not_le_of_lt hdepth)
  | value =>
    have hget : s.memo.get? .value c = none := by
      cases hv : s.memo.get? .value c with
      | none => rfl
      | some v => cases hunknown.symm.trans (h.remembered_value hm hv)
    have hknown : p.known s.memo .value x = none :=
      Option.or_eq_none_iff.mpr ⟨hready, hx ▸ hget⟩
    cases hf : s.walk.refuses p.config.maxDepth ⟨.value, c⟩ with
    | true => exact ⟨_, _, .refused hknown (hx ▸ hf) (.done none _), rfl, .refl _⟩
    | false =>
      obtain ⟨walks, v, s₂, hruns, hvalue⟩ := h.runs_value hx hm hget hf hout
      obtain ⟨rfl, hwalk, hmemo⟩ : v = none ∧ s₂.walk = (s.walk.enter ⟨.value, c⟩).abort ∧
          s₂.memo.AgreesOff (· = c) s.memo := by
        obtain ⟨hv, hwalk, hmemo, -⟩ | ⟨s₁, inner, hwalk, hmemo, -, hrest, -⟩ := hvalue
        · exact ⟨hv, hwalk, hmemo⟩
        · -- the value of the definition runs into itself
          have hknown : p.known s₁.memo .value d = none :=
            (hmemo.known (q := .value) (b := d) hne).trans hunknown
          have hrefuses : s₁.walk.refuses p.config.maxDepth ⟨.value, d.ref⟩ = true :=
            Walk.refuses_iff.mpr (.inr (hwalk ▸ List.mem_cons_of_mem _ hin))
          obtain ⟨rfl, rfl⟩ := hrest.unique (.refused hknown hrefuses (.done none _))
          exact ⟨rfl, congrArg Walk.abort hwalk, hmemo⟩
      have hclean : s₂.walk.aborted = true := by rw [hwalk]; rfl
      refine ⟨walks, _, hruns, ?_, ?_⟩
      · rw [Progress.leave, hwalk]
        simp [Walk.leave, Walk.enter, Walk.abort, Walk.inside]
      · simpa only [Progress.leave, hclean, if_true] using hmemo

structure InStep (p : Program) (d : Branch) (e e' : NodeRef) (s s' : Progress) : Prop where
  names : p.Alias d e ∧ p.Alias d e'
  grown : p.Grown s.memo ∧ p.Grown s'.memo
  unknown : p.known s.memo .value d = none
  memo : s.memo.AgreesOff (p.Alias d) s'.memo
  visited : ∃ frames, s.walk.visited = frames ++ [⟨.value, e⟩] ∧
    s'.walk.visited = frames ++ [⟨.value, e'⟩] ∧ ⟨.value, d.ref⟩ ∈ frames ∧
    ∀ f ∈ frames, ¬p.Alias d f.ref
  depth : s'.walk.depth = s.walk.depth
  aborted : s'.walk.aborted = s.walk.aborted

namespace InStep

variable {e e' : NodeRef} {s s' t t' : Progress} (h : p.InStep d e e' s s')

include h

theorem not_alias : ¬p.Alias d d.ref := by
  obtain ⟨frames, -, -, hd, hfree⟩ := h.visited
  exact hfree _ hd

theorem symm : p.InStep d e' e s' s where
  names := h.names.symm
  grown := h.grown.symm
  unknown := (h.memo.known (q := .value) (b := d) h.not_alias).symm.trans h.unknown
  memo := h.memo.symm
  visited := by
    obtain ⟨frames, hs, hs', hd, hfree⟩ := h.visited
    exact ⟨frames, hs', hs, hd, hfree⟩
  depth := h.depth.symm
  aborted := h.aborted.symm

theorem value_mem : (⟨.value, d.ref⟩ : Frame) ∈ s.walk.visited := by
  obtain ⟨frames, hs, -, hd, -⟩ := h.visited
  exact hs ▸ List.mem_append_left _ hd

theorem definition_not_mem {c : NodeRef} (hc : p.Alias d c) :
    (⟨.definition, c⟩ : Frame) ∉ s.walk.visited := by
  obtain ⟨frames, hs, -, -, hfree⟩ := h.visited
  rw [hs, List.mem_append, List.mem_singleton]
  rintro (hmem | he)
  · exact hfree _ hmem hc
  · cases he

theorem known_eq {x : Branch} (hx : ¬(p.ready? q x = none ∧ p.Alias d (p.subject q x).ref)) :
    p.known s'.memo q x = p.known s.memo q x := by
  cases hready : p.ready? q x with
  | some o => rw [known, known, hready, Option.some_or, Option.some_or]
  | none => exact (h.memo.known fun ha => hx ⟨hready, ha⟩).symm

theorem refuses_eq (limit : Nat) {f : Frame} (hf : ¬p.Alias d f.ref) :
    s'.walk.refuses limit f = s.walk.refuses limit f := by
  obtain ⟨frames, hs, hs', -, -⟩ := h.visited
  have hne : f ≠ ⟨.value, e⟩ ∧ f ≠ ⟨.value, e'⟩ :=
    ⟨fun he => hf (he ▸ h.names.1), fun he => hf (he ▸ h.names.2)⟩
  simp [Walk.refuses, hs, hs', h.depth, hne.1, hne.2]

theorem advance (ht : s.Advances p t) (ht' : s'.Advances p t')
    (hmemo : t.memo.AgreesOff (p.Alias d) t'.memo) (haborted : t'.walk.aborted = t.walk.aborted) :
    p.InStep d e e' t t' where
  names := h.names
  grown := ⟨ht.grown h.grown.1, ht'.grown h.grown.2⟩
  unknown := by
    have hget := ht.inFrame _ h.value_mem
    exact (congrArg (Option.or (p.ready? .value d)) hget).trans h.unknown
  memo := hmemo
  visited := by
    rw [ht.visited, ht'.visited]
    exact h.visited
  depth := by rw [ht.depth, ht'.depth, h.depth]
  aborted := haborted

theorem enter {f : Frame} (hf : ¬p.Alias d f.ref) : p.InStep d e e' (s.enter f) (s'.enter f) where
  names := h.names
  grown := h.grown
  unknown := h.unknown
  memo := h.memo
  visited := by
    obtain ⟨frames, hs, hs', hd, hfree⟩ := h.visited
    refine ⟨f :: frames, congrArg (f :: ·) hs, congrArg (f :: ·) hs', List.mem_cons_of_mem _ hd, ?_⟩
    exact List.forall_mem_cons.mpr ⟨hf, hfree⟩
  depth := congrArg (· + 1) h.depth
  aborted := rfl

theorem leave {ref : NodeRef} {r : Option q.Answer} (ht : p.InStep d e e' t t')
    (hadv : s.Advances p (t.leave q ref r s.walk.aborted))
    (hadv' : s'.Advances p (t'.leave q ref r s'.walk.aborted)) :
    p.InStep d e e' (t.leave q ref r s.walk.aborted) (t'.leave q ref r s'.walk.aborted) := by
  refine h.advance hadv hadv' ?_ ?_
  · simp only [Progress.leave, ht.aborted]
    split
    · exact ht.memo
    · exact ht.memo.insert _ _ _
  · simp only [Progress.leave, Walk.leave, ht.aborted, h.aborted]

theorem ask_alias {x : Branch} {α : Type} {next : Option q.Answer → Plan α} {a : α}
    {r : Option q.Answer} {walks : List Walk} {s₁ : Progress} (hready : p.ready? q x = none)
    (hx : p.Alias d (p.subject q x).ref) (hdepth : s.walk.depth < p.config.maxDepth)
    (hrun : Plan.Runs p (.ask q x .done) s walks r t)
    (hnext : ∀ {t'}, p.InStep d e e' t t' →
      ∃ walks' s₁', Plan.Runs p (next r) t' walks' a s₁' ∧ p.InStep d e e' s₁ s₁') :
    ∃ walks' s₁', Plan.Runs p (.ask q x next) s' walks' a s₁' ∧ p.InStep d e e' s₁ s₁' := by
  have hne : d.ref ≠ (p.subject q x).ref := fun he => h.not_alias (he ▸ hx)
  obtain ⟨_, t₁, hfirst, hwalk, hmemo⟩ := hx.runs_inside hready rfl hne h.grown.1 h.unknown
    h.value_mem (h.definition_not_mem hx) hdepth
  obtain ⟨_, t', hsecond, hwalk', hmemo'⟩ := hx.runs_inside hready rfl hne h.grown.2
    h.symm.unknown h.symm.value_mem (h.symm.definition_not_mem hx) (h.depth ▸ hdepth)
  obtain ⟨rfl, rfl⟩ := hfirst.unique hrun
  have hoff {m m' : Memo} (ha : m.AgreesOff (· = (p.subject q x).ref) m') :
      m.AgreesOff (p.Alias d) m' := fun q' ref hn => ha q' ref fun he => hn (he ▸ hx)
  have ht : p.InStep d e e' t₁ t' := by
    refine h.advance hrun.advances hsecond.advances ?_ ?_
    · exact ((hoff hmemo).trans h.memo).trans (hoff hmemo').symm
    · rw [hwalk, hwalk']
      cases q with
      | definition => exact h.aborted
      | value => rfl
  obtain ⟨_, s₁', hrest, hs₁⟩ := hnext ht
  obtain ⟨walks', hruns, -⟩ := hsecond.ask hrest
  exact ⟨walks', s₁', hruns, hs₁⟩

end InStep

end Program

namespace Plan

open Program

variable {p : Program} {d : Branch} {α : Type} {t : Plan α} {s s' s₁ : Progress}
  {walks : List Walk} {a : α}

theorem Runs.inStep {e e' : NodeRef} (h : Runs p t s walks a s₁)
    (hdepth : ∀ w ∈ walks, w.depth < p.config.maxDepth) (hs : p.InStep d e e' s s') :
    ∃ walks' s₁', Runs p t s' walks' a s₁' ∧ p.InStep d e e' s₁ s₁' := by
  induction h generalizing s' with
  | done a s => exact ⟨_, s', .done a s', hs⟩
  | @known α q b next s s₁ walks o a hknown rest ih =>
    have hlt : s.walk.depth < p.config.maxDepth := by
      obtain ⟨w, hw, he⟩ := rest.exists_depth
      exact he ▸ hdepth w hw
    by_cases hb : p.ready? q b = none ∧ p.Alias d (p.subject q b).ref
    · exact hs.ask_alias hb.1 hb.2 hlt (.known hknown (.done o s)) (ih hdepth)
    · obtain ⟨walks', s₁', hrest, hs₁⟩ := ih hdepth hs
      exact ⟨walks', s₁', .known ((hs.known_eq hb).trans hknown) hrest, hs₁⟩
  | @refused α q b next s s₁ walks a hknown hrefuses rest ih =>
    have hrest := fun w hw => hdepth w (List.mem_cons_of_mem _ hw)
    by_cases hb : p.Alias d (p.subject q b).ref
    · exact hs.ask_alias (ready?_of_known hknown) hb (hdepth _ List.mem_cons_self)
        (.refused hknown hrefuses (.done none _)) (ih hrest)
    · obtain ⟨walks', s₁', hrest, hs₁⟩ :=
        ih hrest (hs.advance (.abort s) (.abort s') hs.memo rfl)
      have hknown' := (hs.known_eq fun ha => hb ha.2).trans hknown
      have hrefuses' := (hs.refuses_eq p.config.maxDepth hb).trans hrefuses
      exact ⟨_, s₁', .refused hknown' hrefuses' hrest, hs₁⟩
  | @frame α q b next s s₁ s₂ inner walks t r a hknown henters hstep step rest ihstep ihrest =>
    have hinner := fun w hw => hdepth w (List.mem_cons_of_mem _ (List.mem_append_left _ hw))
    have hrest := fun w hw => hdepth w (List.mem_cons_of_mem _ (List.mem_append_right _ hw))
    have hfirst := Runs.frame hknown henters hstep step (.done r _)
    by_cases hb : p.Alias d (p.subject q b).ref
    · exact hs.ask_alias (ready?_of_known hknown) hb (hdepth _ List.mem_cons_self) hfirst
        (ihrest hrest)
    · have hknown' := (hs.known_eq fun ha => hb ha.2).trans hknown
      have henters' := (hs.refuses_eq p.config.maxDepth hb).trans henters
      obtain ⟨_, t', step', ht⟩ := ihstep hinner (hs.enter hb)
      have hsecond := Runs.frame hknown' henters' hstep step' (.done r _)
      obtain ⟨_, s₂', hrest, hs₂⟩ :=
        ihrest hrest (hs.leave ht hfirst.advances hsecond.advances)
      exact ⟨_, s₂', .frame hknown' henters' hstep step' hrest, hs₂⟩

end Plan

namespace Program

variable {p : Program} {d e e' : Branch} {m : Memo}

/-- A name has the value of a definition: it is known already, or asked for in the frame of the
name. -/
inductive StandsFor (p : Program) (m : Memo) (d : Branch) (c : NodeRef) (walks : List Walk)
    (v : Option Value) : Prop
  | known (hknown : p.known m .value d = some v)
  | asked {s s' : Progress} {inner : List Walk} (hwalk : s.walk = ({} : Walk).enter ⟨.value, c⟩)
    (hmemo : s.memo.AgreesOff (· = c) m) (hgrown : p.Grown s.memo)
    (hruns : Plan.Runs p (.ask .value d .done) s inner v s') (hinner : ∀ w ∈ inner, w ∈ walks)

theorem StandsFor.eq_known {c : NodeRef} {walks : List Walk} {v o : Option Value}
    (h : p.StandsFor m d c walks v) (hne : d.ref ≠ c) (ho : p.known m .value d = some o) :
    v = o := by
  cases h with
  | known hv => exact Option.some.inj (hv.symm.trans ho)
  | asked _ hmemo _ hruns _ =>
    have hknown := (hmemo.known (q := .value) (b := d) hne).trans ho
    exact (hruns.unique (.known hknown (.done o _))).1

theorem Refers.runs_start (h : p.Alias d e.ref) (hm : p.Grown m) :
    ∃ walks v s, Plan.Runs p (.ask .value e .done) ⟨{}, m⟩ walks v s ∧
      ((∀ w ∈ walks, w.depth < p.config.maxDepth) → p.StandsFor m d e.ref walks v) := by
  have hslot : p.HasSlot .value e := h.slot rfl
  cases hget : m.get? .value e.ref with
  | some v =>
    have hknown : p.known m .value e = some v := by rw [hslot.known, hget]
    exact ⟨_, v, _, .known hknown (.done v _), fun _ => .known (h.remembered_value hm hget)⟩
  | none =>
    cases hf : ({} : Walk).refuses p.config.maxDepth ⟨.value, e.ref⟩ with
    | true =>
      have hknown : p.known m .value e = none := by rw [hslot.known, hget]
      refine ⟨_, none, _, .refused hknown hf (.done none _), fun hdepth => ?_⟩
      cases Plan.Runs.refused_visited hf (hdepth _ List.mem_cons_self)
    | false =>
      obtain ⟨walks, v, s₂, hruns, hvalue⟩ := h.runs_value rfl (s := ⟨{}, m⟩) hm hget hf nofun
      refine ⟨walks, v, _, hruns, fun hdepth => ?_⟩
      obtain ⟨-, -, -, w, hw, hdeep⟩ | ⟨s₁, inner, hwalk, hmemo, hgrown, hrest, hsub⟩ := hvalue
      · exact absurd (hdepth w hw) (Nat.not_lt_of_le hdeep)
      · exact .asked hwalk hmemo hgrown hrest hsub

theorem Refers.inStep (h : p.Alias d e.ref) (h' : p.Alias d e'.ref) (hd : ¬p.Alias d d.ref)
    {s s' : Progress} (hwalk : s.walk = ({} : Walk).enter ⟨.value, e.ref⟩)
    (hwalk' : s'.walk = ({} : Walk).enter ⟨.value, e'.ref⟩)
    (hgrown : p.Grown s.memo ∧ p.Grown s'.memo) (hunknown : p.known s.memo .value d = none)
    (hmemo : s.memo.AgreesOff (p.Alias d) s'.memo) :
    p.InStep d e.ref e'.ref (s.enter ⟨.value, d.ref⟩) (s'.enter ⟨.value, d.ref⟩) where
  names := ⟨h, h'⟩
  grown := hgrown
  unknown := hunknown
  memo := hmemo
  visited := by
    refine ⟨[⟨.value, d.ref⟩], ?_, ?_, List.mem_singleton_self _, ?_⟩
    · simp [Progress.enter, hwalk, Walk.enter]
    · simp [Progress.enter, hwalk', Walk.enter]
    · simpa using hd
  depth := by simp [Progress.enter, hwalk, hwalk', Walk.enter]
  aborted := rfl

theorem Refers.eq_of_standsFor (h : p.Alias d e.ref) (h' : p.Alias d e'.ref)
    (hd : ¬p.Alias d d.ref) {walks walks' : List Walk} {v v' : Option Value}
    (hv : p.StandsFor m d e.ref walks v) (hv' : p.StandsFor m d e'.ref walks' v')
    (hdepth : ∀ w ∈ walks, w.depth < p.config.maxDepth) : v = v' := by
  have hne : d.ref ≠ e.ref := fun he => hd (he ▸ h)
  have hne' : d.ref ≠ e'.ref := fun he => hd (he ▸ h')
  cases hknown : p.known m .value d with
  | some o => exact (hv.eq_known hne hknown).trans (hv'.eq_known hne' hknown).symm
  | none =>
    cases hv with
    | known hv => cases hknown.symm.trans hv
    | @asked s s₁ inner hwalk hmemo hgrown hruns hinner =>
    cases hv' with
    | known hv' => cases hknown.symm.trans hv'
    | @asked s' s₁' inner' hwalk' hmemo' hgrown' hruns' _ =>
    have hs := (hmemo.known (q := .value) (b := d) hne).trans hknown
    have hs' := (hmemo'.known (q := .value) (b := d) hne').trans hknown
    cases hruns with
    | known hk => cases hk.symm.trans hs
    | refused _ hrefuses =>
      have hin := Plan.Runs.refused_visited hrefuses (hdepth _ (hinner _ List.mem_cons_self))
      rw [hwalk] at hin
      exact absurd (Frame.mk.inj (List.mem_singleton.mp hin)).2 hne
    | @frame _ _ _ _ _ t _ inner _ _ _ _ _ henters hstep step rest =>
      obtain ⟨rfl, -⟩ := rest.of_done
      have henters' : s'.walk.refuses p.config.maxDepth ⟨.value, d.ref⟩ = false := by
        have hsame : s'.walk.refuses p.config.maxDepth ⟨.value, d.ref⟩ =
            s.walk.refuses p.config.maxDepth ⟨.value, d.ref⟩ := by
          simp [hwalk, hwalk', Walk.refuses, Walk.enter, hne, hne']
        exact hsame.trans henters
      have hstart := h.inStep h' hd hwalk hwalk' ⟨hgrown, hgrown'⟩ hs
        fun q ref hn => (hmemo q ref fun he => hn (he ▸ h)).trans
          (hmemo' q ref fun he => hn (he ▸ h')).symm
      obtain ⟨_, t', step', -⟩ := step.inStep (fun w hw => hdepth w (hinner w
        (List.mem_cons_of_mem _ (List.mem_append_left _ hw)))) hstart
      exact (hruns'.unique (.frame hs' henters' hstep step' (.done _ _))).1.symm

theorem Refers.value_eq (h : p.Alias d e.ref) (h' : p.Alias d e'.ref) (hd : ¬p.Alias d d.ref)
    (hm : p.Grown m) : ∃ walks walks' s s',
      Plan.Runs p (.ask .value e .done) ⟨{}, m⟩ walks ((p.answer .value e).run.run ⟨{}, m⟩).1 s ∧
      Plan.Runs p (.ask .value e' .done) ⟨{}, m⟩ walks'
        ((p.answer .value e').run.run ⟨{}, m⟩).1 s' ∧
      ((∀ w ∈ walks ++ walks', w.depth < p.config.maxDepth) →
        ((p.answer .value e).run.run ⟨{}, m⟩).1 = ((p.answer .value e').run.run ⟨{}, m⟩).1) := by
  obtain ⟨walks, v, s, hruns, hv⟩ := h.runs_start hm
  obtain ⟨walks', v', s', hruns', hv'⟩ := h'.runs_start hm
  obtain ⟨_, hanswer⟩ := p.runs_answer .value e ⟨{}, m⟩
  obtain ⟨_, hanswer'⟩ := p.runs_answer .value e' ⟨{}, m⟩
  rw [(hanswer.unique hruns).1, (hanswer'.unique hruns').1]
  refine ⟨walks, walks', s, s', hruns, hruns', fun hdepth => ?_⟩
  obtain ⟨hdepth, hdepth'⟩ := List.forall_mem_append.mp hdepth
  exact h.eq_of_standsFor h' hd (hv hdepth) (hv' hdepth') hdepth

end Program

end SquirrelAnalyzer
