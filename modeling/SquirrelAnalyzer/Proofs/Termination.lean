import Mathlib.Data.List.Nodup
import SquirrelAnalyzer.Proofs.Reachable
import SquirrelAnalyzer.Proofs.Runs

namespace SquirrelAnalyzer

namespace Arena

variable {a : Arena} {b : Branch} {n : Nat}

theorem Ascending.index_lt (h : a.Ascending) {c : NodeId}
    (hn : b.target.index < a.size → b.target.index ≤ n)
    (hc : c ∈ a.children .full b.target) : c.index < n := by
  have hlt := h b.target c hc
  have hle := hn (index_lt_of_children hc)
  omega

theorem mem_children_of_plainAssignment {left right : NodeId}
    (h : (a.shape? b.target).bind Shape.plainAssignment? = some (left, right)) :
    left ∈ a.children .full b.target := by
  obtain ⟨s, hs, hplain⟩ := Option.bind_eq_some_iff.mp h
  rw [children_of_shape? hs]
  exact Shape.mem_children_of_operand (Shape.mem_operands_of_plainAssignment hplain)

theorem Ascending.leftmostUpTo_add (h : a.Ascending)
    (hn : b.target.index < a.size → b.target.index ≤ n) (k : Nat) :
    a.leftmostUpTo (n + k) b = a.leftmostUpTo n b := by
  induction n generalizing b with
  | zero =>
    cases k with
    | zero => rfl
    | succ k =>
      rw [Nat.zero_add]
      simp only [leftmostUpTo]
      split
      · next hs =>
        exact absurd (h.index_lt hn (mem_children_of_plainAssignment hs)) (Nat.not_lt_zero _)
      · rfl
  | succ n ih =>
    rw [Nat.add_right_comm]
    simp only [leftmostUpTo]
    split
    · next hs =>
      have hlt := h.index_lt hn (mem_children_of_plainAssignment hs)
      exact ih fun _ => Nat.le_of_lt_succ hlt
    · rfl

theorem Ascending.descendTo_add (h : a.Ascending) {target : NodeId} {goal : Location}
    (hn : b.target.index < a.size → b.target.index ≤ n) (k : Nat) :
    a.descendTo target goal (n + k) b = a.descendTo target goal n b := by
  induction n generalizing b with
  | zero =>
    cases k with
    | zero => rfl
    | succ k =>
      rw [Nat.zero_add]
      simp only [descendTo]
      cases hf : (a.children .full b.target).find? (a.leadsTo target goal) with
      | none => rfl
      | some c => exact absurd (h.index_lt hn (List.mem_of_find?_eq_some hf)) (Nat.not_lt_zero _)
  | succ n ih =>
    rw [Nat.add_right_comm]
    simp only [descendTo]
    cases hf : (a.children .full b.target).find? (a.leadsTo target goal) with
    | none => rfl
    | some c =>
      have hlt := h.index_lt hn (List.mem_of_find?_eq_some hf)
      simp only [ih (b := b.child c) fun _ => Nat.le_of_lt_succ hlt]

theorem Ascending.ownNodeUpTo_add (h : a.Ascending) {accept : Kind → Bool}
    (hn : b.target.index < a.size → b.target.index < n) (k : Nat) :
    a.ownNodeUpTo accept (n + k) b = a.ownNodeUpTo accept n b := by
  induction n generalizing b with
  | zero =>
    have hb : a.kind? b.target = none := by
      have hge : ¬ b.target.index < a.size := fun hlt => Nat.not_lt_zero _ (hn hlt)
      simp [kind?, get?, Array.getElem?_eq_none (Nat.le_of_not_lt hge)]
    cases k with
    | zero => rfl
    | succ k => simp [ownNodeUpTo, hb]
  | succ n ih =>
    rw [Nat.add_right_comm]
    simp only [ownNodeUpTo]
    split
    · rfl
    · split
      · rfl
      split
      · rfl
      · rw [← List.head?_filterMap, ← List.head?_filterMap]
        congr 1
        apply List.filterMap_congr
        intro c hc
        exact ih (b := b.child c) fun _ => h.index_lt (fun hlt => Nat.le_of_lt_succ (hn hlt)) hc

end Arena

namespace Program

variable {p : Program}

theorem length_le_size {refs : List NodeRef} (hnodup : refs.Nodup)
    (hnode : ∀ ref ∈ refs, ∃ b, b.ref = ref ∧ (p.shape? b).isSome) : refs.length ≤ p.size := by
  have hdisjoint : (refs.map (Frame.mk .definition)).Disjoint (refs.map (Frame.mk .value)) := by
    intro f hd hv
    obtain ⟨ref, -, rfl⟩ := List.mem_map.mp hd
    obtain ⟨ref', -, he⟩ := List.mem_map.mp hv
    cases he
  have hinj (q : Query) : Function.Injective (Frame.mk q) := fun _ _ he => (Frame.mk.inj he).2
  have hall : (refs.map (Frame.mk .definition) ++ refs.map (Frame.mk .value)).Nodup :=
    (List.Nodup.map (hinj _) hnodup).append (List.Nodup.map (hinj _) hnodup) hdisjoint
  have hsub : refs.map (Frame.mk .definition) ++ refs.map (Frame.mk .value) ⊆ p.frames := by
    intro f hf
    rcases List.mem_append.mp hf with hf | hf
    all_goals
      obtain ⟨ref, href, rfl⟩ := List.mem_map.mp hf
      obtain ⟨b, rfl, hb⟩ := hnode ref href
      exact mem_frames hb _
  have hlength := hall.length_le_of_subset hsub
  rw [p.length_frames, List.length_append, List.length_map, List.length_map, frameCount] at hlength
  omega

end Program

namespace Resolve

variable {p : Program} {ask : Ask}

theorem isClass_of_superclass {cls d : Branch} {s s' : Progress}
    (h : (superclass p ask cls).run.run s = (some d, s')) : p.isClass d = true := by
  have hclass {o : Option Branch} {s : Progress} (h : (o.elim (pure none) fun b =>
      (if p.isClass b then pure b else failure : Resolve Branch).run).run s = (some d, s')) :
      p.isClass d = true := by
    cases o with
    | none => cases h
    | some b =>
      rw [Option.elim_some] at h
      split at h
      · next hb =>
        cases h
        exact hb
      · cases h
  simp only [superclass, ofOption, OptionT.run_bind, OptionT.run_mk, Option.elimM, pure_bind] at h
  cases hparts : (p.shape? cls).bind Shape.classParts? with
  | none =>
    rw [hparts] at h
    cases h
  | some parts =>
    rw [hparts] at h
    obtain ⟨superclass, body⟩ := parts
    cases superclass with
    | none => cases h
    | some c =>
      rw [Option.elim_some, Option.elim_some, StateT.run_bind] at h
      cases hask : ((ask .value (cls.child c)).run).run s with | mk v s₁
      rw [hask] at h
      cases v with
      | none => cases h
      | some v => exact hclass h

theorem bind_congr_of_run {α β : Type} {x : Resolving α} {f g : α → Resolving β}
    (h : ∀ s a s', x.run s = (a, s') → f a = g a) : x >>= f = x >>= g := by
  apply StateT.ext
  intro s
  rw [StateT.run_bind, StateT.run_bind]
  cases hx : x.run s with | mk a s'
  exact congrArg (fun y => y.run s') (h s a s' hx)

theorem superclassesUpTo_add {n : Nat} {seen : List NodeRef} {cls : Branch}
    (hnodup : seen.Nodup) (hseen : ∀ ref ∈ seen, ∃ b, b.ref = ref ∧ (p.shape? b).isSome)
    (hn : p.size < n + seen.length) (k : Nat) :
    superclassesUpTo p ask (n + k) seen cls = superclassesUpTo p ask n seen cls := by
  induction n generalizing seen cls with
  | zero =>
    have hle := Program.length_le_size hnodup hseen
    omega
  | succ n ih =>
    rw [Nat.add_right_comm]
    apply bind_congr_of_run
    intro s o s₁ hrun
    cases o with
    | none => rfl
    | some d =>
      dsimp only
      split
      · rfl
      · next hnew =>
        rw [List.contains_iff_mem] at hnew
        have hd : (p.shape? d).isSome := by
          cases hs : p.shape? d with
          | some t => rfl
          | none =>
            have hclass := isClass_of_superclass hrun
            simp [Program.isClass, Program.kind?, hs] at hclass
        rw [ih (List.nodup_cons.mpr ⟨hnew, hnodup⟩) ?_ ?_]
        · intro ref href
          rcases List.mem_cons.mp href with rfl | href
          · exact ⟨d, rfl, hd⟩
          · exact hseen ref href
        · rw [List.length_cons]
          omega

theorem superclassesUpTo_size (cls : Branch) (k : Nat) :
    superclassesUpTo p ask (p.size + k) [cls.ref] cls = superclasses p ask cls := by
  unfold superclasses
  cases hs : p.shape? cls with
  | some s =>
    apply superclassesUpTo_add (List.nodup_singleton _)
    · intro ref href
      exact ⟨cls, (List.mem_singleton.mp href).symm, by simp [hs]⟩
    · exact Nat.lt_succ_self _
  | none =>
    have hnil (n : Nat) : superclassesUpTo p ask n [cls.ref] cls = pure [] := by
      cases n with
      | zero => rfl
      | succ n => simp [superclassesUpTo, superclass, ofOption, hs]
    rw [hnil, hnil]

end Resolve

namespace Program

/-- No loop of a resolution needs more steps than it is allowed: with more of them it would do the
same. -/
structure LoopsEnd (p : Program) : Prop where
  superclasses : ∀ (ask : Ask) (cls : Branch) (k : Nat),
    Resolve.superclassesUpTo p ask (p.size + k) [cls.ref] cls = Resolve.superclasses p ask cls
  leftmost : ∀ u ∈ p.liveUnits, ∀ (b : Branch) (k : Nat),
    u.arena.leftmostUpTo (u.arena.size + k) b = u.arena.leftmost b
  ownNode : ∀ u ∈ p.liveUnits, ∀ (accept : Kind → Bool) (b : Branch) (k : Nat),
    u.arena.ownNodeUpTo accept (u.arena.size + k) b = u.arena.ownNode? accept b
  descendTo : ∀ u ∈ p.liveUnits, ∀ (target : NodeId) (goal : Location) (b : Branch) (k : Nat),
    u.arena.descendTo target goal (u.arena.size + k) b =
      u.arena.descendTo target goal u.arena.size b

theorem Sound.loopsEnd {p : Program} (hp : p.Sound) : p.LoopsEnd := by
  have hascending : ∀ u ∈ p.liveUnits, u.arena.Ascending := by
    intro u hu
    obtain ⟨id, hid⟩ := mem_liveUnits.mp hu
    exact (hp.unit id u hid).2.ascending
  constructor
  · exact fun ask cls k => Resolve.superclassesUpTo_size cls k
  · exact fun u hu b k => (hascending u hu).leftmostUpTo_add Nat.le_of_lt k
  · exact fun u hu accept b k => (hascending u hu).ownNodeUpTo_add (fun h => h) k
  · exact fun u hu target goal b k => (hascending u hu).descendTo_add Nat.le_of_lt k

end Program

namespace Analysis

variable {asked : Program → Branch → Prop} {a : Analysis}

/-- Every resolution comes to its end and leaves the walk as it was, at most aborted. In a walk that
began in no frame, the depth is the number of frames, and neither exceeds its bounds. -/
theorem answer_runs (h : a.Reachable asked) (q : Query) (b : Branch) (w : Walk) :
    a.program.LoopsEnd ∧ ∃ walks r s, (a.program.answer q b).run.run ⟨w, a.memo⟩ = (r, s) ∧
      Plan.Runs a.program (.ask q b .done) ⟨w, a.memo⟩ walks r s ∧
      s.walk.visited = w.visited ∧ s.walk.depth = w.depth ∧
      (w.aborted = true → s.walk.aborted = true) ∧
      (w.visited = [] → w.depth = 0 → ∀ v ∈ walks, v.visited.Nodup ∧
        v.depth = v.visited.length ∧ v.depth ≤ a.program.config.maxDepth ∧
        v.depth ≤ 2 * a.program.size) := by
  refine ⟨h.sound.loopsEnd, ?_⟩
  obtain ⟨walks, hruns⟩ := a.program.runs_answer q b ⟨w, a.memo⟩
  obtain ⟨hvisited, hdepth, haborted⟩ := hruns.restores
  refine ⟨walks, _, _, rfl, hruns, hvisited, hdepth, haborted, fun hv hd v hmem => ?_⟩
  have hbounded := hruns.bounded (Walk.Bounded.of_visited hv hd) v hmem
  exact ⟨hbounded.nodup, hbounded.depth, hbounded.depth_le, hbounded.depth_le_frameCount⟩

theorem answer_runs_circular : ∃ a b,
    ofSources {} (Imports.ofList [(⟨0⟩, ⟨1⟩), (⟨1⟩, ⟨0⟩)])
      ["class A extends B {}", "class B extends A {} B.h;"] = .ok a ∧
    a.branchAt ⟨1⟩ 23 = some b ∧
    ∀ q, a.program.LoopsEnd ∧ ∃ walks r s, (a.program.answer q b).run.run ⟨{}, a.memo⟩ = (r, s) ∧
      Plan.Runs a.program (.ask q b .done) ⟨{}, a.memo⟩ walks r s ∧
      s.walk.visited = [] ∧ s.walk.depth = 0 ∧
      ∀ v ∈ walks, v.visited.Nodup ∧ v.depth = v.visited.length ∧
        v.depth ≤ a.program.config.maxDepth ∧ v.depth ≤ 2 * a.program.size := by
  have hbuilt : (ofSources {} (Imports.ofList [(⟨0⟩, ⟨1⟩), (⟨1⟩, ⟨0⟩)])
      ["class A extends B {}", "class B extends A {} B.h;"]).toOption.any
        (fun a => (a.branchAt ⟨1⟩ 23).isSome) = true := by decide +kernel
  obtain ⟨a, ha, hb⟩ := exists_ok hbuilt
  obtain ⟨b, hb⟩ := Option.isSome_iff_exists.mp hb
  refine ⟨a, b, ha, hb, fun q => ?_⟩
  have hreachable : a.Reachable fun _ _ => True := .ofSources ha
  obtain ⟨hloops, walks, r, s, hrun, hruns, hvisited, hdepth, -, hbounds⟩ :=
    answer_runs hreachable q b {}
  exact ⟨hloops, walks, r, s, hrun, hruns, hvisited, hdepth, hbounds rfl rfl⟩

end Analysis

end SquirrelAnalyzer
