import SquirrelAnalyzer.Proofs.Routes
import SquirrelAnalyzer.Proofs.Termination

namespace SquirrelAnalyzer

namespace Program

variable (p : Program)

def classAt? (v : Option Value) : Option Branch := (v.bind Value.branch?).filter p.isClass

def Superclass (cls : Branch) (s : Progress) (v : Option Value) (s' : Progress) : Prop :=
  ∃ e body walks, (p.shape? cls).bind Shape.classParts? = some (some e, body) ∧
    Plan.Runs p (.ask .value (cls.child e) .done) s walks v s'

/-- A chain leads from a class to its superclass and on from there, each evaluated where the one
before it left the walk. It has no bound and stops at a class without a superclass, at one whose
superclass resolves to no class, and at one whose superclass was seen before. -/
inductive Ascends : List NodeRef → Branch → Progress → List Branch → Progress → Prop
  | rootless {seen : List NodeRef} {cls : Branch} {s : Progress} {body : NodeId}
      (hparts : (p.shape? cls).bind Shape.classParts? = some (none, body)) :
      Ascends seen cls s [] s
  | unresolved {seen : List NodeRef} {cls : Branch} {s s' : Progress} {v : Option Value}
      (hv : p.Superclass cls s v s') (hclass : p.classAt? v = none) : Ascends seen cls s [] s'
  | seen {seen : List NodeRef} {cls d : Branch} {s s' : Progress} {v : Option Value}
      (hv : p.Superclass cls s v s') (hclass : p.classAt? v = some d) (hseen : d.ref ∈ seen) :
      Ascends seen cls s [] s'
  | step {seen : List NodeRef} {cls d : Branch} {s s' s'' : Progress} {v : Option Value}
      {chain : List Branch} (hv : p.Superclass cls s v s') (hclass : p.classAt? v = some d)
      (hnew : d.ref ∉ seen) (rest : Ascends (d.ref :: seen) d s' chain s'') :
      Ascends seen cls s (d :: chain) s''

variable {p} {seen : List NodeRef} {cls d : Branch} {s s' : Progress} {chain : List Branch}

theorem isClass_of_classAt? {v : Option Value} (h : p.classAt? v = some d) :
    p.isClass d = true := (Option.filter_eq_some_iff.mp h).2

theorem exists_classParts? (h : p.isClass cls = true) :
    ∃ superclass body, (p.shape? cls).bind Shape.classParts? = some (superclass, body) := by
  unfold isClass kind? at h
  cases hs : p.shape? cls with
  | none =>
    rw [hs] at h
    cases h
  | some t =>
    rw [hs] at h
    cases t with
    | classDeclaration qualifier id superclass body => exact ⟨superclass, body, rfl⟩
    | classExpression superclass body => exact ⟨superclass, body, rfl⟩
    | _ => cases h

namespace Ascends

theorem isClass (h : p.Ascends seen cls s chain s') : ∀ d ∈ chain, p.isClass d = true := by
  induction h with
  | rootless | unresolved | seen => simp
  | step _ hclass _ _ ih => exact List.forall_mem_cons.mpr ⟨isClass_of_classAt? hclass, ih⟩

theorem unseen (h : p.Ascends seen cls s chain s') : ∀ ref ∈ chain.map Branch.ref, ref ∉ seen := by
  induction h with
  | rootless | unresolved | seen => simp
  | step _ _ hnew _ ih =>
    exact List.forall_mem_cons.mpr
      ⟨hnew, fun ref href hmem => ih ref href (List.mem_cons_of_mem _ hmem)⟩

theorem nodup (h : p.Ascends seen cls s chain s') : (chain.map Branch.ref).Nodup := by
  induction h with
  | rootless | unresolved | seen => exact List.nodup_nil
  | step _ _ _ rest ih =>
    refine List.nodup_cons.mpr ⟨fun hmem => ?_, ih⟩
    exact rest.unseen _ hmem List.mem_cons_self

end Ascends

end Program

namespace Resolve

variable {p : Program} {seen : List NodeRef} {cls : Branch} {s s' : Progress}

theorem run_superclass_rootless {body : NodeId}
    (h : (p.shape? cls).bind Shape.classParts? = some (none, body)) (ask : Ask) :
    (superclass p ask cls).run.run s = (none, s) := by
  simp only [superclass, h, bind_ofOption_some, bind_ofOption_none]
  rfl

theorem run_superclass {e body : NodeId} {ask : Ask} {v : Option Value}
    (h : (p.shape? cls).bind Shape.classParts? = some (some e, body))
    (hv : (ask .value (cls.child e)).run.run s = (v, s')) :
    (superclass p ask cls).run.run s = (p.classAt? v, s') := by
  simp only [superclass, h, bind_ofOption_some]
  rw [OptionT.run_bind, Option.elimM, StateT.run_bind, hv]
  cases v with
  | none => rfl
  | some v =>
    cases v with
    | nominal name => rfl
    | node b i call =>
      show (if p.isClass b then pure b else failure : Resolve Branch).run.run s' = _
      simp only [Program.classAt?, Value.branch?, Option.bind_some, Option.filter_some]
      split
      · rfl
      · rfl

theorem superclassesUpTo_ascends {n : Nat} (hcls : p.isClass cls = true) (hnodup : seen.Nodup)
    (hseen : ∀ ref ∈ seen, ∃ b, b.ref = ref ∧ (p.shape? b).isSome)
    (hn : p.size < n + seen.length) : ∃ chain s',
      (superclassesUpTo p p.answer n seen cls).run s = (chain, s') ∧
        p.Ascends seen cls s chain s' := by
  induction n generalizing seen cls s with
  | zero =>
    have hle := Program.length_le_size hnodup hseen
    omega
  | succ n ih =>
    obtain ⟨superclass, body, hparts⟩ := Program.exists_classParts? hcls
    cases superclass with
    | none =>
      refine ⟨[], s, ?_, .rootless hparts⟩
      rw [superclassesUpTo, StateT.run_bind, run_superclass_rootless hparts]
      rfl
    | some e =>
      obtain ⟨walks, hruns⟩ := p.runs_answer .value (cls.child e) s
      cases hv : (p.answer .value (cls.child e)).run.run s with | mk v s₁
      rw [hv] at hruns
      have hsuper : p.Superclass cls s v s₁ := ⟨e, body, walks, hparts, hruns⟩
      rw [superclassesUpTo, StateT.run_bind, run_superclass hparts hv]
      cases hclass : p.classAt? v with
      | none => exact ⟨[], s₁, rfl, .unresolved hsuper hclass⟩
      | some d =>
        by_cases hmem : d.ref ∈ seen
        · refine ⟨[], s₁, ?_, .seen hsuper hclass hmem⟩
          show (if seen.contains d.ref then pure [] else _ : Resolving (List Branch)).run s₁ = _
          rw [if_pos (List.contains_iff_mem.mpr hmem)]
          rfl
        · show ∃ chain s', (if seen.contains d.ref then pure [] else _ :
            Resolving (List Branch)).run s₁ = (chain, s') ∧ _
          rw [if_neg (fun h => hmem (List.contains_iff_mem.mp h)), StateT.run_bind]
          have hd := Program.isClass_of_classAt? hclass
          have hnode : ∀ ref ∈ d.ref :: seen, ∃ b, b.ref = ref ∧ (p.shape? b).isSome := by
            refine List.forall_mem_cons.mpr ⟨⟨d, rfl, ?_⟩, hseen⟩
            obtain ⟨_, _, hs⟩ := Program.exists_classParts? hd
            obtain ⟨t, ht, -⟩ := Option.bind_eq_some_iff.mp hs
            exact Option.isSome_of_eq_some ht
          obtain ⟨chain, s₂, hrun, hchain⟩ := ih (s := s₁) hd
            (List.nodup_cons.mpr ⟨hmem, hnodup⟩) hnode (by rw [List.length_cons]; omega)
          refine ⟨d :: chain, s₂, ?_, .step hsuper hclass hmem hchain⟩
          rw [hrun]
          rfl

end Resolve

namespace Analysis

/-- The superclasses of a class form a chain that comes to its end by itself. They are classes, each
listed once, and the class itself is not among them. -/
theorem superclasses_ascends (a : Analysis) (b : Branch) (hb : a.program.isClass b = true) :
    ∃ chain s, (superclasses b).run a = (chain, { a with memo := s.memo }) ∧
      a.program.Ascends [b.ref] b { memo := a.memo } chain s ∧
      (∀ d ∈ chain, a.program.isClass d = true) ∧ ((b :: chain).map Branch.ref).Nodup := by
  have hnode : ∀ ref ∈ [b.ref], ∃ c : Branch, c.ref = ref ∧ (a.program.shape? c).isSome := by
    intro ref href
    obtain ⟨_, _, hs⟩ := Program.exists_classParts? hb
    obtain ⟨t, ht, -⟩ := Option.bind_eq_some_iff.mp hs
    exact ⟨b, (List.mem_singleton.mp href).symm, Option.isSome_of_eq_some ht⟩
  obtain ⟨chain, s, hrun, hchain⟩ := Resolve.superclassesUpTo_ascends (s := { memo := a.memo }) hb
    (List.nodup_singleton _) hnode (Nat.lt_succ_self _)
  refine ⟨chain, s, ?_, hchain, hchain.isClass, List.nodup_cons.mpr ⟨fun hmem => ?_, hchain.nodup⟩⟩
  · rw [superclasses, run_walk, Resolve.superclasses, hrun]
  · exact hchain.unseen _ hmem (List.mem_singleton_self _)

theorem superclasses_ascends_circular : ∃ a b,
    ofSources {} (Imports.ofList [(⟨0⟩, ⟨1⟩)])
      ["class A extends B {}", "class B extends C {} class C extends B {}"] = .ok a ∧
    a.branchAt ⟨0⟩ 0 = some b ∧ a.program.isClass b = true ∧ ∃ chain s,
      (superclasses b).run a = (chain, { a with memo := s.memo }) ∧ chain.length = 2 ∧
      a.program.Ascends [b.ref] b { memo := a.memo } chain s ∧
      (∀ d ∈ chain, a.program.isClass d = true) ∧ ((b :: chain).map Branch.ref).Nodup := by
  have hbuilt : (ofSources {} (Imports.ofList [(⟨0⟩, ⟨1⟩)])
      ["class A extends B {}", "class B extends C {} class C extends B {}"]).toOption.any
        (fun a => ((a.branchAt ⟨0⟩ 0).filter fun b => a.program.isClass b &&
          ((superclasses b).run a).1.length = 2).isSome) = true := by decide +kernel
  obtain ⟨a, ha, hb⟩ := exists_ok hbuilt
  obtain ⟨b, hb⟩ := Option.isSome_iff_exists.mp hb
  obtain ⟨hb, hfound⟩ := Option.filter_eq_some_iff.mp hb
  obtain ⟨hclass, hlength⟩ := Bool.and_eq_true_iff.mp hfound
  obtain ⟨chain, s, hrun, hrest⟩ := superclasses_ascends a b hclass
  rw [hrun] at hlength
  exact ⟨a, b, ha, hb, hclass, chain, s, hrun, of_decide_eq_true hlength, hrest⟩

end Analysis

end SquirrelAnalyzer
