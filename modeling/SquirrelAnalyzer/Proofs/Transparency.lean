import SquirrelAnalyzer.Proofs.Settled

namespace SquirrelAnalyzer

namespace Program

def framesFrom : Nat → List (Option SourceUnit) → List Frame
  | _, [] => []
  | index, none :: units => framesFrom (index + 1) units
  | index, some u :: units =>
    (List.range u.arena.size).flatMap (fun node =>
      [⟨.definition, ⟨⟨index⟩, ⟨node⟩⟩⟩, ⟨.value, ⟨⟨index⟩, ⟨node⟩⟩⟩]) ++
      framesFrom (index + 1) units

def frames (p : Program) : List Frame := framesFrom 0 p.units.toList

theorem length_framesFrom (index : Nat) (units : List (Option SourceUnit)) :
    (framesFrom index units).length =
      2 * ((units.filterMap id).map (·.arena.size)).foldr (· + ·) 0 := by
  induction units generalizing index with
  | nil => rfl
  | cons unit units ih =>
    cases unit with
    | none => simp [framesFrom, ih]
    | some u =>
      have hu : ((some u :: units).filterMap id).map (·.arena.size) =
          u.arena.size :: (units.filterMap id).map (·.arena.size) := rfl
      rw [hu, List.foldr_cons, framesFrom, List.length_append, ih, List.length_flatMap]
      simp only [List.length_cons, List.length_nil, List.map_const', List.length_range,
        List.sum_replicate_nat]
      omega

theorem length_frames (p : Program) : p.frames.length = p.frameCount :=
  length_framesFrom 0 p.units.toList

theorem mem_framesFrom {units : List (Option SourceUnit)} {u : SourceUnit} {i node : Nat}
    (hu : units[i]? = some (some u)) (hn : node < u.arena.size) (q : Query) (index : Nat) :
    (⟨q, ⟨⟨index + i⟩, ⟨node⟩⟩⟩ : Frame) ∈ framesFrom index units := by
  induction units generalizing i index with
  | nil => simp at hu
  | cons unit units ih =>
    cases i with
    | zero =>
      obtain rfl : unit = some u := by simpa using hu
      apply List.mem_append_left
      refine List.mem_flatMap.mpr ⟨node, List.mem_range.mpr hn, ?_⟩
      cases q <;> simp
    | succ i =>
      have hi := ih (i := i) (by simpa using hu) (index + 1)
      rw [show index + (i + 1) = index + 1 + i by omega]
      cases unit with
      | none => exact hi
      | some v => exact List.mem_append_right _ hi

theorem mem_frames {p : Program} {b : Branch} (h : (p.shape? b).isSome) (q : Query) :
    (⟨q, b.ref⟩ : Frame) ∈ p.frames := by
  obtain ⟨s, hs⟩ := Option.isSome_iff_exists.mp h
  obtain ⟨u, hu, hus⟩ := unit?_of_shape? hs
  obtain ⟨n, hn, -⟩ := Option.map_eq_some_iff.mp hus
  have hi : p.units.toList[b.unit.index]? = some (some u) := by
    simpa [unit?, Option.join_eq_some_iff] using hu
  have hmem := mem_framesFrom hi (Array.getElem?_eq_some_iff.mp hn).1 q 0
  rw [Nat.zero_add] at hmem
  exact hmem

end Program

structure Walk.Balanced (p : Program) (w : Walk) : Prop where
  nodup : w.visited.Nodup
  frames : ∀ f ∈ w.visited, f ∈ p.frames
  depth : w.depth = w.visited.length

namespace Walk

variable {p : Program} {w w' : Walk}

theorem balanced_start (p : Program) : Balanced p {} where
  nodup := List.nodup_nil
  frames _ h := nomatch h
  depth := rfl

theorem Balanced.length_le (h : w.Balanced p) : w.visited.length ≤ p.frameCount := by
  rw [← p.length_frames]
  exact h.nodup.length_le_of_subset h.frames

theorem Balanced.congr (h : w.Balanced p) (hv : w'.visited = w.visited) (hd : w'.depth = w.depth) :
    w'.Balanced p where
  nodup := hv ▸ h.nodup
  frames := hv ▸ h.frames
  depth := by rw [hd, hv, h.depth]

theorem Balanced.enter (h : w.Balanced p) {f : Frame} (hf : f ∈ p.frames) (hn : f ∉ w.visited) :
    (w.enter f).Balanced p where
  nodup := List.nodup_cons.mpr ⟨hn, h.nodup⟩
  frames g hg := by
    rcases List.mem_cons.mp hg with rfl | hg
    · exact hf
    · exact h.frames g hg
  depth := by simp [Walk.enter, h.depth]

theorem Balanced.refuses (h : w.Balanced p) (hd : p.frameCount < p.config.maxDepth) (f : Frame) :
    w.refuses p.config.maxDepth f = w.visited.contains f := by
  have := h.length_le
  have := h.depth
  simp only [Walk.refuses, Bool.or_eq_right_iff_imp, decide_eq_true_eq]
  omega

end Walk

namespace Program

variable {p : Program}

def Settles (p : Program) (n : Nat) (f : Frame) : Prop :=
  (p.settled n f.query f.branch).isSome

theorem settles_mono {n m : Nat} (hnm : n ≤ m) {f : Frame} (h : p.Settles n f) : p.Settles m f := by
  obtain ⟨r, hr⟩ := Option.isSome_iff_exists.mp h
  exact Option.isSome_iff_exists.mpr ⟨r, settled_mono hnm hr⟩

theorem settles_iff (hp : p.Rooted) {q : Query} {b : Branch} (hb : p.ready? q b = none) (n : Nat) :
    p.Settles n ⟨q, (p.subject q b).ref⟩ ↔ (p.settled n q b).isSome := by
  unfold Settles
  have hr : (Frame.branch ⟨q, (p.subject q b).ref⟩).ref = (p.subject q b).ref := rfl
  rw [settled_congr hp hb hr]

structure Ample (p : Program) (k : Nat) (w : Walk) : Prop where
  balanced : w.Balanced p
  fuel : p.frameCount < k + w.visited.length

theorem Ample.exists_succ {k : Nat} {w : Walk} (h : p.Ample k w) : ∃ n, k = n + 1 := by
  have := h.balanced.length_le
  have := h.fuel
  exact ⟨k - 1, by omega⟩

theorem Ample.enter {k : Nat} {w : Walk} (h : p.Ample (k + 1) w) {f : Frame} (hf : f ∈ p.frames)
    (hn : f ∉ w.visited) : p.Ample k (w.enter f) where
  balanced := h.balanced.enter hf hn
  fuel := by
    have := h.fuel
    simp only [Walk.enter, List.length_cons]
    omega

theorem Ample.advances {k : Nat} {s s' : Progress} (h : p.Ample k s.walk)
    (ha : s.Advances p s') : p.Ample k s'.walk where
  balanced := h.balanced.congr ha.visited ha.depth
  fuel := ha.visited ▸ h.fuel

end Program

namespace Plan

variable {p : Program} {α : Type} {k n : Nat}

theorem run_of_eval
    (hask : ∀ q b r s, p.settled n q b = some r → p.Ample k s.walk → p.Grown s.memo →
      (∀ f ∈ s.walk.visited, ¬ p.Settles n f) →
      ∃ m, (p.answerWithin k q b).run.run s = (r, ⟨s.walk, m⟩))
    {t : Plan α} {a : α} (ht : t.eval (p.settled n) = some a) {s : Progress}
    (hs : p.Ample k s.walk) (hm : p.Grown s.memo) (hv : ∀ f ∈ s.walk.visited, ¬ p.Settles n f) :
    ∃ m, (t.run (p.answerWithin k)).run s = (a, ⟨s.walk, m⟩) := by
  induction t generalizing s with
  | done b =>
    cases ht
    exact ⟨s.memo, rfl⟩
  | ask q b next ih =>
    obtain ⟨r, hr, hn⟩ := Option.bind_eq_some_iff.mp ht
    obtain ⟨m, hrun⟩ := hask q b r s hr hs hm hv
    have hadv := (p.answerWithin_sound k q b s r _ hrun).1
    rw [run_ask, hrun]
    exact ih r hn (s := ⟨s.walk, m⟩) hs (hadv.grown hm) hv

end Plan

namespace Program

variable {p : Program}

theorem run_settled (hp : p.Rooted) (hd : p.frameCount < p.config.maxDepth) {n k : Nat} {q : Query}
    {b : Branch} {r : Option q.Answer} {s : Progress} (hr : p.settled n q b = some r)
    (hs : p.Ample k s.walk) (hm : p.Grown s.memo) (hv : ∀ f ∈ s.walk.visited, ¬ p.Settles n f) :
    ∃ m, (p.answerWithin k q b).run.run s = (r, ⟨s.walk, m⟩) := by
  induction n generalizing k q b s with
  | zero =>
    obtain ⟨k, rfl⟩ := hs.exists_succ
    rw [answerWithin_of_ready hr]
    exact ⟨s.memo, rfl⟩
  | succ n ih =>
    obtain ⟨k, rfl⟩ := hs.exists_succ
    cases hb : p.ready? q b with
    | some o =>
      rw [settled_of_ready hb] at hr
      cases hr
      rw [answerWithin_of_ready hb]
      exact ⟨s.memo, rfl⟩
    | none =>
    by_cases hn : (p.settled n q b).isSome
    · obtain ⟨r', hr'⟩ := Option.isSome_iff_exists.mp hn
      obtain rfl := settled_unique hr' hr
      exact ih hr' hs hm fun f hf h => hv f hf (settles_mono (Nat.le_succ n) h)
    rw [answerWithin_of_frame hb]
    cases hk : s.memo.get? q (p.subject q b).ref with
    | some o =>
      obtain ⟨m, hkm⟩ := hm.settled hp (b := b) (r := o) (by simp [known, hb, hk])
      obtain rfl := settled_unique hkm hr
      exact ⟨s.memo, Resolve.run_remembered_of_get? hk _⟩
    | none =>
      have hnew : (⟨q, (p.subject q b).ref⟩ : Frame) ∉ s.walk.visited := fun h =>
        hv _ h ((settles_iff hp hb _).mpr (Option.isSome_iff_exists.mpr ⟨r, hr⟩))
      have hf : s.walk.refuses p.config.maxDepth ⟨q, (p.subject q b).ref⟩ = false := by
        rw [hs.balanced.refuses hd]
        simpa using hnew
      rw [settled_of_frame hb] at hr
      obtain ⟨m, hrun⟩ := Plan.run_of_eval (k := k) (fun q b r s hr hs hm hv => ih hr hs hm hv) hr
        (s := s.enter ⟨q, (p.subject q b).ref⟩) (hs.enter (mem_frames (shape?_subject hb) q) hnew) hm
        (by
          intro f hmem h
          rcases List.mem_cons.mp hmem with rfl | hmem
          · exact hn ((settles_iff hp hb n).mp h)
          · exact hv f hmem (settles_mono (Nat.le_succ n) h))
      rw [← run_plan] at hrun
      rw [Progress.run_remembered_of_run hk hf hrun]
      refine ⟨m.insert q (p.subject q b).ref r, ?_⟩
      simp only [Progress.leave, Progress.enter, Walk.leave_enter]
      rfl

end Program

namespace Plan

variable {p : Program} {α : Type} {k : Nat}

theorem run_agree
    (hask : ∀ q b s s', s.walk = s'.walk → p.Ample k s.walk → p.Grown s.memo → p.Grown s'.memo →
      (∀ f ∈ s.walk.visited, ∀ n, ¬ p.Settles n f) →
      ((p.answerWithin k q b).run.run s).1 = ((p.answerWithin k q b).run.run s').1 ∧
        ((p.answerWithin k q b).run.run s).2.walk = ((p.answerWithin k q b).run.run s').2.walk)
    (t : Plan α) {s s' : Progress} (hw : s.walk = s'.walk) (hs : p.Ample k s.walk)
    (hm : p.Grown s.memo) (hm' : p.Grown s'.memo)
    (hv : ∀ f ∈ s.walk.visited, ∀ n, ¬ p.Settles n f) :
    ((t.run (p.answerWithin k)).run s).1 = ((t.run (p.answerWithin k)).run s').1 ∧
      ((t.run (p.answerWithin k)).run s).2.walk = ((t.run (p.answerWithin k)).run s').2.walk := by
  induction t generalizing s s' with
  | done a => exact ⟨rfl, hw⟩
  | ask q b next ih =>
    obtain ⟨hr, hw'⟩ := hask q b s s' hw hs hm hm' hv
    have ha := (p.answerWithin_sound k q b s _ _ rfl).1
    have ha' := (p.answerWithin_sound k q b s' _ _ rfl).1
    rw [run_ask, run_ask, ← hr]
    exact ih _ hw' (hs.advances ha) (ha.grown hm) (ha'.grown hm') (ha.visited ▸ hv)

end Plan

namespace Program

variable {p : Program}

theorem answerWithin_agree (hp : p.Rooted) (hd : p.frameCount < p.config.maxDepth) {k : Nat}
    {q : Query} {b : Branch} {s s' : Progress} (hw : s.walk = s'.walk) (hs : p.Ample k s.walk)
    (hm : p.Grown s.memo) (hm' : p.Grown s'.memo)
    (hv : ∀ f ∈ s.walk.visited, ∀ n, ¬ p.Settles n f) :
    ((p.answerWithin k q b).run.run s).1 = ((p.answerWithin k q b).run.run s').1 ∧
      ((p.answerWithin k q b).run.run s).2.walk =
        ((p.answerWithin k q b).run.run s').2.walk := by
  induction k generalizing q b s s' with
  | zero => exact absurd hs.exists_succ (by simp)
  | succ k ih =>
    cases hb : p.ready? q b with
    | some o =>
      rw [answerWithin_of_ready hb]
      exact ⟨rfl, hw⟩
    | none =>
    by_cases hn : ∃ n r, p.settled n q b = some r
    · obtain ⟨n, r, hr⟩ := hn
      obtain ⟨m, h⟩ := run_settled hp hd hr hs hm fun f hf => hv f hf n
      obtain ⟨m', h'⟩ := run_settled hp hd hr (hw ▸ hs) hm' fun f hf => hv f (hw ▸ hf) n
      rw [h, h']
      exact ⟨rfl, hw⟩
    have hnone (m : Memo) (hg : p.Grown m) : m.get? q (p.subject q b).ref = none := by
      cases hk : m.get? q (p.subject q b).ref with
      | none => rfl
      | some o =>
        obtain ⟨n, h⟩ := hg.settled hp (b := b) (r := o) (by simp [known, hb, hk])
        exact absurd ⟨n, o, h⟩ hn
    have hnever (n : Nat) : ¬ p.Settles n ⟨q, (p.subject q b).ref⟩ := fun h => by
      obtain ⟨r, hr⟩ := Option.isSome_iff_exists.mp ((settles_iff hp hb n).mp h)
      exact hn ⟨n, r, hr⟩
    rw [answerWithin_of_frame hb]
    cases hf : s.walk.refuses p.config.maxDepth ⟨q, (p.subject q b).ref⟩ with
    | true =>
      have hf' := hw ▸ hf
      rw [Resolve.run_remembered (hnone _ hm), Resolve.run_remembered (hnone _ hm'),
        Resolve.run_guarded_of_refuses hf, Resolve.run_guarded_of_refuses hf', hw]
      exact ⟨rfl, rfl⟩
    | false =>
      have hf' := hw ▸ hf
      have hnew : (⟨q, (p.subject q b).ref⟩ : Frame) ∉ s.walk.visited := by
        rw [hs.balanced.refuses hd] at hf
        simpa using hf
      have hwalk : (s.enter ⟨q, (p.subject q b).ref⟩).walk =
          (s'.enter ⟨q, (p.subject q b).ref⟩).walk := by simp only [Progress.enter, hw]
      obtain ⟨hr, hw'⟩ := Plan.run_agree (fun q b s s' => ih) (p.plan q (p.subject q b)) hwalk
        (hs.enter (mem_frames (shape?_subject hb) q) hnew) hm hm'
        (by
          intro f hmem n
          rcases List.mem_cons.mp hmem with rfl | hmem
          · exact hnever n
          · exact hv f hmem n)
      rw [← run_plan] at hr hw'
      cases h : (p.step (p.answerWithin k) q (p.subject q b)).run.run
        (s.enter ⟨q, (p.subject q b).ref⟩) with | mk r t
      cases h' : (p.step (p.answerWithin k) q (p.subject q b)).run.run
        (s'.enter ⟨q, (p.subject q b).ref⟩) with | mk r' t'
      rw [h, h'] at hr hw'
      rw [Progress.run_remembered_of_run (hnone _ hm) hf h,
        Progress.run_remembered_of_run (hnone _ hm') hf' h']
      refine ⟨hr, ?_⟩
      simp only at hw'
      simp only [Progress.leave, hw', hw]

theorem run_plan_agree (hp : p.Rooted) (hd : p.frameCount < p.config.maxDepth) {α : Type}
    (t : Plan α) {m m' : Memo} (hm : p.Grown m) (hm' : p.Grown m') :
    ((t.run p.answer).run ⟨{}, m⟩).1 = ((t.run p.answer).run ⟨{}, m'⟩).1 := by
  have hstart : p.Ample (p.frameCount + 1) {} :=
    ⟨Walk.balanced_start p, by simp⟩
  have hwalk : (⟨{}, m⟩ : Progress).walk = (⟨{}, m'⟩ : Progress).walk := rfl
  exact (Plan.run_agree (fun q b s s' hw hs hm hm' hv => answerWithin_agree hp hd hw hs hm hm' hv) t
    hwalk hstart hm hm' fun _ h => nomatch h).1

end Program

end SquirrelAnalyzer
