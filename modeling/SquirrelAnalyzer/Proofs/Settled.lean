import SquirrelAnalyzer.Proofs.Progress

namespace SquirrelAnalyzer

def Frame.branch (f : Frame) : Branch := ⟨f.ref.unit, f.ref.node, []⟩

namespace Program

def Rooted (p : Program) : Prop :=
  ∀ b b', b.ref = b'.ref → (p.shape? b).isSome → p.anchor b = p.anchor b'

noncomputable def settled (p : Program) : Nat → (q : Query) → Branch → Option (Option q.Answer)
  | 0, q, b => p.ready? q b
  | n + 1, q, b => (p.ready? q b).or ((p.plan q (p.subject q b)).eval (settled p n))

variable {p : Program} {q : Query} {b b' : Branch}

theorem shape?_congr (h : b.ref = b'.ref) : p.shape? b = p.shape? b' := by
  obtain ⟨hu, ht⟩ := Branch.ref_eq_iff.mp h
  simp [shape?, hu, ht]

theorem kind?_congr (h : b.ref = b'.ref) : p.kind? b = p.kind? b' := by
  rw [kind?, kind?, shape?_congr h]

theorem subject_of_kind_ne {kind : Kind} (hk : p.kind? b = some kind)
    (hne : kind ≠ .assignmentExpression) : p.subject q b = b := by
  cases q with
  | value => rfl
  | definition =>
    obtain ⟨s, hs, rfl⟩ := Option.map_eq_some_iff.mp hk
    obtain ⟨u, hu, hus⟩ := unit?_of_shape? hs
    have hn : s.plainAssignment? = none := by
      cases s with
      | assignmentExpression => exact absurd rfl hne
      | _ => rfl
    simp only [subject, hu, Arena.leftmost]
    cases u.arena.size with
    | zero => rfl
    | succ n => simp [Arena.leftmostUpTo, hus, hn]

theorem subject_of_indirect {kind : Kind} (hk : p.kind? b = some kind)
    (hi : q.isIndirect kind = true) : p.subject q b = b := by
  cases q with
  | value => rfl
  | definition => exact subject_of_kind_ne hk (by rintro rfl; cases hi)

theorem indirect_of_ready? (h : p.ready? q b = none) :
    ∃ kind, p.kind? (p.subject q b) = some kind ∧ q.isIndirect kind = true := by
  unfold ready? at h
  split at h
  · cases h
  · next kind hk =>
    split at h
    · next hi => exact ⟨kind, hk, hi⟩
    · cases h

theorem shape?_subject (h : p.ready? q b = none) : (p.shape? (p.subject q b)).isSome := by
  obtain ⟨kind, hk, -⟩ := indirect_of_ready? h
  obtain ⟨s, hs, -⟩ := Option.map_eq_some_iff.mp hk
  simp [hs]

theorem ready?_of_ref (h : p.ready? q b = none) (hr : b'.ref = (p.subject q b).ref) :
    p.subject q b' = b' ∧ p.ready? q b' = none := by
  obtain ⟨kind, hk, hi⟩ := indirect_of_ready? h
  have hk' : p.kind? b' = some kind := (kind?_congr hr).trans hk
  have hs := subject_of_indirect hk' hi
  refine ⟨hs, ?_⟩
  simp [ready?, hs, hk', hi]

theorem settled_of_ready {o : Option q.Answer} (h : p.ready? q b = some o) (n : Nat) :
    p.settled n q b = some o := by
  cases n with
  | zero => exact h
  | succ n => simp [settled, h]

theorem settled_of_frame (h : p.ready? q b = none) (n : Nat) :
    p.settled (n + 1) q b = (p.plan q (p.subject q b)).eval (p.settled n) := by
  simp [settled, h]

theorem settled_succ {n : Nat} {r : Option q.Answer} (h : p.settled n q b = some r) :
    p.settled (n + 1) q b = some r := by
  induction n generalizing q b with
  | zero => exact settled_of_ready h 1
  | succ n ih =>
    cases hb : p.ready? q b with
    | some o =>
      rw [settled_of_ready hb] at h ⊢
      exact h
    | none =>
      rw [settled_of_frame hb] at h ⊢
      exact Plan.eval_mono (fun q b r => ih) h

theorem settled_mono {n m : Nat} (hnm : n ≤ m) {r : Option q.Answer}
    (h : p.settled n q b = some r) : p.settled m q b = some r := by
  induction hnm with
  | refl => exact h
  | step _ ih => exact settled_succ ih

theorem settled_unique {n m : Nat} {r r' : Option q.Answer} (h : p.settled n q b = some r)
    (h' : p.settled m q b = some r') : r = r' := by
  have h₁ := settled_mono (Nat.le_max_left n m) h
  rw [settled_mono (Nat.le_max_right n m) h'] at h₁
  exact (Option.some.inj h₁).symm

theorem settled_congr (hp : p.Rooted) (h : p.ready? q b = none)
    (hr : b'.ref = (p.subject q b).ref) (n : Nat) : p.settled n q b' = p.settled n q b := by
  obtain ⟨hs, hb'⟩ := ready?_of_ref h hr
  cases n with
  | zero => exact hb'.trans h.symm
  | succ n =>
    rw [settled_of_frame h, settled_of_frame hb', hs]
    rw [plan_congr p (hp _ _ hr.symm (shape?_subject h))]

theorem eval_settled {α : Type} {known : (q : Query) → Branch → Option (Option q.Answer)}
    (hk : ∀ q b r, known q b = some r → ∃ n, p.settled n q b = some r) {t : Plan α} {a : α}
    (h : t.eval known = some a) : ∃ n, t.eval (p.settled n) = some a := by
  induction t with
  | done a => exact ⟨0, h⟩
  | ask q b next ih =>
    obtain ⟨r, hr, hn⟩ := Option.bind_eq_some_iff.mp h
    obtain ⟨n, hn⟩ := ih r hn
    obtain ⟨m, hm⟩ := hk q b r hr
    refine ⟨max n m, ?_⟩
    simp only [Plan.eval, settled_mono (Nat.le_max_right n m) hm]
    exact Plan.eval_mono (fun _ _ _ => settled_mono (Nat.le_max_left n m)) hn

theorem Grown.settled (hp : p.Rooted) {m : Memo} (hm : p.Grown m) {q : Query} {b : Branch}
    {r : Option q.Answer} (h : p.known m q b = some r) : ∃ n, p.settled n q b = some r := by
  induction hm generalizing q b with
  | empty =>
    refine ⟨0, ?_⟩
    rcases Option.or_eq_some_iff.mp h with h | ⟨-, h⟩
    · exact h
    · simp at h
  | @insert m q' b' r' hm hready hnew heval ih =>
    rcases Option.or_eq_some_iff.mp h with h | ⟨hb, h⟩
    · exact ⟨0, h⟩
    by_cases hf : (⟨q, (p.subject q b).ref⟩ : Frame) = ⟨q', (p.subject q' b').ref⟩
    · obtain ⟨rfl, hr⟩ := Frame.mk.inj hf
      rw [hr, Memo.get?_insert_self] at h
      cases h
      obtain ⟨n, hn⟩ := eval_settled (fun q b r => ih) heval
      refine ⟨n + 1, ?_⟩
      have hs := (ready?_of_ref hready hr).1
      rw [settled_of_frame hb, plan_congr p (hp _ _ hr (shape?_subject hb))]
      exact hn
    · rw [Memo.get?_insert_of_ne _ _ hf] at h
      exact ih (Option.or_eq_some_iff.mpr (.inr ⟨hb, h⟩))

end Program

end SquirrelAnalyzer
