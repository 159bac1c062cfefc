import SquirrelAnalyzer.Proofs.Mentioned
import SquirrelAnalyzer.Proofs.Promise

namespace SquirrelAnalyzer

def Shape.isReducible {χ : Type} : Shape χ → Bool
  | identifier _ | memberExpression .. | rootExpression _ | thisExpression | baseExpression
  | callExpression .. | assignmentExpression .. | conditionalExpression ..
  | unaryExpression .clone .. | variableDeclarator .. | propertyDefinition ..
  | methodDefinition .. | assignmentPattern .. | enumMember _ (some _) => true
  | _ => false

namespace SourceUnit

variable {u : SourceUnit}

def AliasesClasses (u : SourceUnit) : Prop :=
  ∀ cls name, u.facts.aliases.get? cls = some name → ∃ kind, u.arena.kind? cls = some kind ∧
    kind.isClass = true

namespace AliasesClasses

theorem mapFacts (h : u.AliasesClasses) {f : Facts → Facts}
    (hf : (f u.facts).aliases = u.facts.aliases) : (u.mapFacts f).AliasesClasses :=
  fun cls name ha => h cls name (hf ▸ ha)

theorem addMeta (h : u.AliasesClasses) (cls : NodeId) (name : String) (tag : Doc.Attribute)
    (location : Location) : (u.addMeta cls name tag location).2.AliasesClasses := by
  intro cls' name' ha
  obtain ⟨kind, hk, hclass⟩ := h cls' name' ha
  exact ⟨kind, (u.extends_addMeta cls name tag location).kind?_eq hk, hclass⟩

theorem recordMeta (h : u.AliasesClasses) (cls : NodeId) (name : String) (tag : Doc.Attribute)
    (accessor : Option (AccessorKind × NodeId)) (location : Location) :
    (u.recordMeta cls name tag accessor location).AliasesClasses := by
  refine recordMeta_steps h (h.addMeta cls name tag location)
    (fun v property hv => hv.mapFacts ?_) fun v property x _ hv => hv.mapFacts rfl
  rw [typeMeta_eq]

theorem applied (h : u.AliasesClasses) {v : SourceUnit} {config : Config} {target : NodeId}
    {location : Location} {tag : Doc.Attribute} (hv : u.Applied config target location tag v) :
    v.AliasesClasses := by
  cases hv with
  | @aliased cls name _ hcls =>
    -- an alias is only recorded for the class that the declaration stands for
    intro cls' name' ha
    have ha : (u.facts.aliases.insert cls name).get? cls' = some name' := ha
    rw [NodeTable.get?_insert] at ha
    split at ha
    · next he =>
      rw [he]
      exact Arena.isClass_of_classOf? hcls
    · exact h cls' name' ha
  | property | accessor => exact h.recordMeta _ _ _ _ _
  | nothing => exact h
  | _ => exact h.mapFacts rfl

end AliasesClasses

theorem aliasesClasses_build (config : Config) (id : UnitId) (a : Arena) :
    (build config id a).AliasesClasses := by
  have hbase : (ofArena config { a with unit := id }).AliasesClasses := by
    intro cls name ha
    rw [show (ofArena config { a with unit := id }).facts.aliases = ∅ from rfl,
      NodeTable.get?_empty] at ha
    cases ha
  unfold build attachComments
  refine List.foldlRecOn _ _ (motive := AliasesClasses) hbase fun u hu c _ => ?_
  split
  · exact List.foldlRecOn c.attributes _ (motive := AliasesClasses) (hu.mapFacts rfl)
      fun v hv tag _ => hv.applied (v.applied_applyAttribute config _ _ tag)
  · exact hu

end SourceUnit

namespace Program

variable {p : Program} {b b' : Branch}

def IsNormal (p : Program) (b : Branch) : Prop :=
  ∃ u s, p.unit? b.unit = some u ∧ u.arena.shape? b.target = some s ∧ s.isReducible = false ∧
    (s.kind = .metaProperty → (u.facts.accessors.get? b.target).bind (·.getter) = none)

theorem IsNormal.congr (h : p.IsNormal b) (hr : b'.ref = b.ref) : p.IsNormal b' := by
  obtain ⟨hunit, htarget⟩ := Branch.ref_eq_iff.mp hr
  unfold IsNormal
  rw [hunit, htarget]
  exact h

theorem IsNormal.exists_shape (h : p.IsNormal b) :
    ∃ s, p.shape? b = some s ∧ s.isReducible = false := by
  obtain ⟨u, s, hu, hs, hred, -⟩ := h
  exact ⟨s, shape?_of_unit? hu hs, hred⟩

theorem isNormal_of_shape {s : Shape NodeId} (hs : p.shape? b = some s)
    (hred : s.isReducible = false) (hk : s.kind ≠ .metaProperty) : p.IsNormal b := by
  obtain ⟨u, hu, hus⟩ := unit?_of_shape? hs
  exact ⟨u, s, hu, hus, hred, fun h => absurd h hk⟩

theorem isNormal_of_isClass (h : p.isClass b = true) : p.IsNormal b := by
  unfold isClass kind? at h
  cases hs : p.shape? b with
  | none =>
    rw [hs] at h
    cases h
  | some s =>
    rw [hs] at h
    refine isNormal_of_shape hs ?_ ?_
    · cases s <;> first | rfl | cases h
    · cases s <;> first | exact Kind.noConfusion | cases h

def normalForms (p : Program) : Promise
  | .definition, _, _ => True
  | .value, _, v => ∀ b, v.branch? = some b → p.IsNormal b

def AliasesClasses (p : Program) : Prop := ∀ name b, p.aliased? name = some b → p.isClass b = true

theorem Assembled.aliasesClasses (ha : p.Assembled) (hp : p.Sound) : p.AliasesClasses := by
  intro name b h
  obtain ⟨u, hu, h⟩ := List.exists_of_findSome?_eq_some h
  obtain ⟨id, hid⟩ := mem_liveUnits.mp hu
  obtain ⟨e, he, hb⟩ := Option.bind_eq_some_iff.mp h
  have hget := NodeTable.get?_of_mem_toList (List.mem_of_find?_eq_some he)
  have haliases : u.AliasesClasses := by
    obtain ⟨source, arena, -, namespaces, outline, rfl⟩ := ha.exists_build hid
    exact SourceUnit.aliasesClasses_build p.config id arena
  obtain ⟨kind, hk, hclass⟩ := haliases e.1 e.2 hget
  obtain ⟨hunit, hsound⟩ := hp.unit id u hid
  have hbu : p.unit? b.unit = some u := by
    rw [(Arena.branchTo_below hb).unit_eq]
    show p.unit? u.arena.unit = some u
    rw [hsound.unit, hunit, hid]
  unfold isClass
  rw [kind?_of_unit? hbu, Arena.target_of_branchTo hb, hk]
  exact hclass

end Program

namespace Resolve

variable {p : Program} {ask : Ask} {b : Branch}

abbrev Normal (p : Program) (v : Value) : Prop := ∀ b, v.branch? = some b → p.IsNormal b

theorem normal_node {i : Bool} {call : Option Branch} (h : p.IsNormal b) :
    Normal p (.node b i call) := by
  rintro _ ⟨⟩
  exact h

theorem normal_nominal {name : String} : Normal p (.nominal name) := by
  rintro _ ⟨⟩

theorem normal_instantiated {v : Value} (h : Normal p v) : Normal p (v.instantiated p) := by
  cases v with
  | nominal name => exact normal_nominal
  | node b i call =>
    unfold Value.instantiated
    dsimp only
    split
    · exact normal_node (h b rfl)
    · exact h

variable (hask : ask.Meets p p.normalForms)

include hask

theorem value_normal (b : Branch) : Yields p.normalForms (ask .value b) (Normal p) := hask .value b

theorem typeRoot_normal (halias : p.AliasesClasses) (context : Branch) (name : String) :
    Yields p.normalForms (typeRoot p ask context name) (Normal p) := by
  unfold typeRoot
  have hlookup : Finds (fun _ => True) True
      (fun ask => attempt (lookupName p ask context name none)) _ :=
    Finds.attempt (lookupName_finds p.closed_true fun _ => trivial)
  refine Yields.bind (hlookup.yields hask) fun o _ => ?_
  cases o with
  | some declaration => exact value_normal hask declaration
  | none =>
    refine Yields.bind_ofOption fun b hb => ?_
    exact Yields.pure (normal_node (Program.isNormal_of_isClass (halias name b hb)))

theorem memberValue_normal (v : Value) (name : String) :
    Yields p.normalForms (memberValue p ask v name) (Normal p) := by
  unfold memberValue
  have hfind : Finds (fun _ => True) True (fun ask => findMember p ask name none v) _ :=
    findMember_finds p.closed_true fun _ => Query.holds_true .value v
  exact Yields.bind (hfind.yields hask) fun d _ => value_normal hask d

theorem memberValues_normal (names : List String) {v : Value} (hv : Normal p v) :
    Yields p.normalForms (names.foldlM (memberValue p ask) v) (Normal p) := by
  induction names generalizing v with
  | nil => exact Yields.pure hv
  | cons name names ih => exact Yields.bind (memberValue_normal hask v name) fun v hv => ih hv

theorem lookupType_normal (halias : p.AliasesClasses) (context : Branch) (type : String) :
    Yields p.normalForms (lookupType p ask context type) (Normal p) := by
  unfold lookupType
  split
  · split
    · exact Yields.failure
    · next first rest _ =>
      refine Yields.bind (typeRoot_normal hask halias context first) fun v hv => ?_
      refine Yields.bind (memberValues_normal hask rest hv) fun last hlast => ?_
      exact Yields.pure (normal_instantiated hlast)
  · exact Yields.failure

theorem thisAmong_normal (around : List (Branch × NodeId)) :
    Yields p.normalForms (thisAmong p ask around) (Normal p) := by
  induction around with
  | nil => exact Yields.failure
  | cons e rest ih =>
    obtain ⟨outer, inner⟩ := e
    unfold thisAmong
    cases hs : p.shape? outer with
    | none => exact Yields.failure
    | some s =>
      dsimp only
      split
      · next hclass =>
        have hisClass : p.isClass outer = true := by
          unfold Program.isClass Program.kind?
          rw [hs]
          exact hclass
        exact Yields.pure (normal_node (Program.isNormal_of_isClass hisClass))
      · split
        · exact Yields.pure (normal_node (Program.isNormal_of_shape hs rfl Kind.noConfusion))
        · refine Yields.bind (value_normal hask _) fun v hv => ?_
          exact Yields.pure (normal_instantiated hv)
        · exact ih

theorem baseClass_normal (b : Branch) :
    Yields p.normalForms (baseClass p ask b) p.IsNormal := by
  unfold baseClass superclass
  refine Yields.bind (thisAmong_normal hask b.enclosing) fun v _ => ?_
  refine Yields.bind_ofOption fun cls _ => ?_
  refine Yields.bind_ofOption fun parts _ => ?_
  refine Yields.bind_ofOption fun e _ => ?_
  refine Yields.bind (value_normal hask (cls.child e)) fun v _ => ?_
  refine Yields.bind_ofOption fun d _ => ?_
  split
  · next hclass => exact Yields.pure (Program.isNormal_of_isClass hclass)
  · exact Yields.failure

theorem returnValue_normal (halias : p.AliasesClasses) (function : Branch) :
    Yields p.normalForms (returnValue p ask function) (Normal p) := by
  unfold returnValue
  refine Yields.bind_ofOption fun u _ => ?_
  refine Yields.bind_ofOption fun s _ => ?_
  split
  · exact Yields.orElse (lookupType_normal hask halias function _) (Yields.pure normal_nominal)
  refine Yields.bind_ofOption fun body _ => ?_
  dsimp only
  split
  · exact value_normal hask _
  split
  · exact Yields.pure normal_nominal
  refine Yields.bind_ofOption fun statement _ => ?_
  split
  · exact value_normal hask _
  · exact Yields.failure

theorem callValue_normal (halias : p.AliasesClasses) (b : Branch) (callee : NodeId) :
    Yields p.normalForms (callValue p ask b callee) (Normal p) := by
  unfold callValue
  refine Yields.bind (value_normal hask (b.child callee)) fun v hv => ?_
  split
  · refine Yields.bind_ofOption fun kind _ => ?_
    split
    · exact Yields.pure (normal_node (hv _ rfl))
    · split
      · exact returnValue_normal hask halias _
      · exact Yields.failure
  · exact Yields.failure

theorem metaValue_normal (halias : p.AliasesClasses) {key : NodeId}
    (hs : p.shape? b = some (.metaProperty key)) :
    Yields p.normalForms (metaValue p ask b) (Normal p) := by
  unfold metaValue
  refine Yields.bind_ofOption fun u hu => ?_
  split
  · refine Yields.bind_ofOption fun getter _ => ?_
    refine Yields.bind (value_normal hask getter) fun function _ => ?_
    refine Yields.bind_ofOption fun callable _ => ?_
    exact returnValue_normal hask halias callable
  · next hget =>
    obtain ⟨v, hv, hvs⟩ := Program.unit?_of_shape? hs
    obtain rfl := Option.some.inj (hu.symm.trans hv)
    exact Yields.pure (normal_node ⟨u, _, hu, hvs, rfl, fun _ => hget⟩)

theorem valueStep_normal (halias : p.AliasesClasses) (b : Branch) :
    Yields p.normalForms (valueStep p ask b) (Normal p) := by
  unfold valueStep
  refine Yields.bind_ofOption fun s hs => ?_
  cases s with
  | variableDeclarator id init =>
    refine Yields.bind_ofOption fun c _ => ?_
    exact value_normal hask _
  | propertyDefinition isStatic computed key value =>
    refine Yields.bind_ofOption fun c _ => ?_
    exact value_normal hask _
  | methodDefinition kind isStatic key value => exact value_normal hask _
  | enumMember id init =>
    cases init with
    | none => exact Yields.pure (normal_node (Program.isNormal_of_shape hs rfl Kind.noConfusion))
    | some init => exact value_normal hask _
  | metaProperty key => exact metaValue_normal hask halias hs
  | assignmentPattern left right => exact value_normal hask _
  | assignmentExpression op left right => exact value_normal hask _
  | identifier name =>
    have hdefinition := hask .definition b
    refine Yields.bind hdefinition fun d _ => ?_
    split
    · exact Yields.failure
    · exact value_normal hask d
  | memberExpression object property computed =>
    exact Yields.bind (hask .definition b) fun d _ => value_normal hask d
  | rootExpression property =>
    exact Yields.bind (hask .definition b) fun d _ => value_normal hask d
  | thisExpression => exact thisAmong_normal hask b.enclosing
  | baseExpression =>
    refine Yields.bind (baseClass_normal hask b) fun cls hcls => ?_
    exact Yields.pure (normal_node hcls)
  | callExpression callee arguments => exact callValue_normal hask halias b callee
  | unaryExpression op isPrefixed argument =>
    cases op with
    | clone => exact value_normal hask _
    | _ => exact Yields.pure (normal_node (Program.isNormal_of_shape hs rfl Kind.noConfusion))
  | conditionalExpression test consequent alternate =>
    exact Yields.orElse (value_normal hask _) (value_normal hask _)
  | _ => exact Yields.pure (normal_node (Program.isNormal_of_shape hs rfl Kind.noConfusion))

end Resolve

namespace Program

variable {p : Program} {b : Branch}

theorem indirect_of_isReducible {s : Shape NodeId} (h : s.isReducible = true) :
    Query.isIndirect .value s.kind = true := by
  cases s <;> first | rfl | cases h

theorem ready?_value {v : Value} (h : p.ready? .value b = some (some v)) :
    ∃ s, p.shape? b = some s ∧ Query.isIndirect .value s.kind = false ∧ v = .ofBranch b := by
  unfold ready? at h
  split at h
  · cases h
  · next kind hk =>
    obtain ⟨s, hs, rfl⟩ := Option.map_eq_some_iff.mp hk
    split at h
    · cases h
    · next hi =>
      cases h
      exact ⟨s, hs, Bool.not_eq_true _ ▸ hi, rfl⟩

theorem isNormal_of_not_indirect {s : Shape NodeId} (hs : p.shape? b = some s)
    (hi : Query.isIndirect .value s.kind = false) : p.IsNormal b := by
  refine isNormal_of_shape hs ?_ fun hk => ?_
  · cases hred : s.isReducible with
    | false => rfl
    | true =>
      rw [indirect_of_isReducible hred] at hi
      cases hi
  · rw [hk] at hi
    cases hi

theorem normalForms_kept (halias : p.AliasesClasses) : p.normalForms.Kept p where
  direct {q b x} h := by
    cases q with
    | definition => trivial
    | value =>
      obtain ⟨s, hs, hi, rfl⟩ := ready?_value h
      exact Resolve.normal_node (isNormal_of_not_indirect hs hi)
  step {ask q b} hask := by
    cases q with
    | definition => exact step_yields hask .definition b
    | value =>
      rw [step_eq_stepAt]
      exact Resolve.valueStep_normal hask halias (p.anchor b)

theorem step_of_isNormal (hp : p.Sound) (hb : p.IsNormal b) (ask : Ask) :
    p.step ask .value b = Resolve.ofOption (some (.ofBranch (p.anchor b))) := by
  obtain ⟨u, s, hu, hs, hred, hget⟩ := hb
  obtain ⟨hunit, htarget⟩ := Branch.ref_eq_iff.mp (hp.ref_anchor b)
  have hua : p.unit? (p.anchor b).unit = some u := hunit ▸ hu
  have hsa : p.shape? (p.anchor b) = some s := shape?_of_unit? hua (htarget ▸ hs)
  rw [step_eq_stepAt]
  show Resolve.valueStep p ask (p.anchor b) = _
  unfold Resolve.valueStep
  rw [hsa, Resolve.bind_ofOption_some]
  cases s with
  | metaProperty key => exact metaValue_plain hua (htarget ▸ hget rfl)
  | enumMember id init =>
    cases init with
    | none => rfl
    | some init => cases hred
  | unaryExpression op isPrefixed argument =>
    cases op with
    | clone => cases hred
    | _ => rfl
  | _ => first | rfl | cases hred

theorem run_value_of_isNormal (hp : p.Sound) {m : Memo} (hm : p.Grown m)
    (hd : 0 < p.config.maxDepth) (hb : p.IsNormal b) : ∃ b',
      ((p.answer .value b).run.run ⟨{}, m⟩).1 = some (.ofBranch b') ∧ b'.ref = b.ref := by
  obtain ⟨s, hs, -⟩ := hb.exists_shape
  cases hi : Query.isIndirect .value s.kind with
  | true =>
    have hslot : p.HasSlot .value b := ⟨s.kind, by rw [kind?, hs]; rfl, hi⟩
    refine run_answer_immediate hm hslot hd
      (P := fun o => ∃ b', o = some (.ofBranch b') ∧ b'.ref = b.ref) fun b' hr => ?_
    exact ⟨_, ⟨_, rfl, (hp.ref_anchor b').trans hr⟩, step_of_isNormal hp (hb.congr hr)⟩
  | false =>
    have hready : p.ready? .value b = some (some (.ofBranch b)) := by
      have hk : p.kind? (p.subject .value b) = some s.kind := by
        show (p.shape? b).map Shape.kind = _
        rw [hs]
        rfl
      simp only [ready?, hk, hi]
      rfl
    refine ⟨b, ?_, rfl⟩
    unfold answer
    rw [answerWithin_of_ready hready]
    rfl

end Program

namespace Analysis

variable {a : Analysis} {b v : Branch} {i : Bool} {call : Option Branch}

/-- The value of a branch is at a node that refers to no other one, and that node is its own value,
whatever is asked in between. -/
theorem value_value (h : a.Reachable fun _ _ => True) (hd : 0 < a.program.config.maxDepth)
    (hv : ((value b).run a).1 = some (.node v i call)) :
    (∃ s, a.program.shape? v = some s ∧ s.isReducible = false) ∧
      ∀ questions, ∃ v', ((value v).run (Question.askAll questions a)).1 = some (.ofBranch v') ∧
        v'.ref = v.ref := by
  have hkept := Program.normalForms_kept (h.assembled.aliasesClasses h.sound)
  have hnormal : a.program.IsNormal v := h.keeps (Program.answer_meets hkept) hv v rfl
  refine ⟨hnormal.exists_shape, fun questions => ?_⟩
  have hgrown := (h.askAll questions).grown
  have hprogram := program_askAll questions a
  have hrun := Program.run_value_of_isNormal h.sound (hprogram ▸ hgrown) hd hnormal
  rw [value, run_walk, hprogram]
  exact hrun

theorem value_value_this : ∃ a b v,
    ofSources {} Imports.none
      ["class C \x7b function f() \x7b return this; \x7d \x7d local c = C(); c.f();"] = .ok a ∧
    0 < a.program.config.maxDepth ∧
    ((value b).run a).1 = some (.node v true none) ∧ b.ref ≠ v.ref ∧
    (∃ s, a.program.shape? v = some s ∧ s.isReducible = false) ∧
    ∀ questions, ∃ v', ((value v).run (Question.askAll questions a)).1 = some (.ofBranch v') ∧
      v'.ref = v.ref := by
  let b : Branch := ⟨⟨0⟩, ⟨17⟩, [⟨18⟩, ⟨19⟩]⟩
  let v : Branch := ⟨⟨0⟩, ⟨8⟩, [⟨19⟩]⟩
  have hbuilt : (ofSources {} Imports.none
      ["class C \x7b function f() \x7b return this; \x7d \x7d local c = C(); c.f();"]).toOption.any
        (fun a => decide (0 < a.program.config.maxDepth ∧
          ((value b).run a).1 = some (.node v true none))) = true := by decide +kernel
  obtain ⟨a, ha, h⟩ := exists_ok hbuilt
  obtain ⟨hd, hv⟩ := of_decide_eq_true h
  obtain ⟨hshape, hagain⟩ := value_value (.ofSources ha) hd hv
  exact ⟨a, b, v, ha, hd, hv, by decide, hshape, hagain⟩

end Analysis

end SquirrelAnalyzer
