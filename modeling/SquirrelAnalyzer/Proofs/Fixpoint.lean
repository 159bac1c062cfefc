import SquirrelAnalyzer.Proofs.Completion
import SquirrelAnalyzer.Proofs.Declaring
import SquirrelAnalyzer.Proofs.Promise

namespace SquirrelAnalyzer

def Kind.isReference : Kind → Bool
  | identifier | memberExpression | rootExpression => true
  | _ => false

namespace Program

variable {p : Program} {b d owner : Branch} {u : SourceUnit}

def Declaration (p : Program) (d : Branch) : Prop :=
  ∃ u s, p.unit? d.unit = some u ∧ u.arena.shape? d.target = some s ∧ s.isDeclaration = true ∧
    s.kind ≠ .assignmentPattern

def Declaring (p : Program) (d : Branch) : Prop :=
  ∃ u, p.unit? d.unit = some u ∧
    (u.arena.Declaration d.target ∨ u.DeclaresItself d.target ∧ p.anchor d = d)

theorem Declaration.declaring (h : p.Declaration d) : p.Declaring d := by
  obtain ⟨u, s, hu, hs, hdeclaration, -⟩ := h
  exact ⟨u, hu, .inl ⟨s, hs, hdeclaration⟩⟩

structure ListsDeclarations (p : Program) : Prop where
  scope : ∀ {id u node s}, p.unit? id = some u → s ∈ u.scope node → p.Declaring s.declaration
  member : ∀ {owner m}, m ∈ p.ownMembers owner → p.Declaration m.2
  name : ∀ {b u d}, p.unit? b.unit = some u →
    Resolve.declared? u (p.anchor b) = some (some d) → p.Declaring d

theorem declaring_scope (hp : p.Sound) {id : UnitId} (hu : p.unit? id = some u) (hd : u.Declaring)
    {node : NodeId} {s : ScopedName} (hs : s ∈ u.scope node) : p.Declaring s.declaration := by
  obtain ⟨hid, hsound⟩ := hp.unit id u hu
  obtain ⟨hbelow, hdeclaring⟩ := hd.scopes hs
  have hunit : p.unit? s.declaration.unit = some u := by
    rw [hbelow.unit_eq]
    show p.unit? u.arena.unit = some u
    rw [hsound.unit, hid, hu]
  refine ⟨u, hunit, hdeclaring.imp_right fun hself => ⟨hself, ?_⟩⟩
  rw [anchor_of_unit hunit]
  exact if_pos (Arena.isSyntactic_of_below u.arena.isSyntactic_root hbelow)

theorem of_declared? (hp : p.Sound) (hu : p.unit? b.unit = some u) (hd : u.Declaring)
    (h : Resolve.declared? u b = some (some d)) :
    d.unit = b.unit ∧ u.declaration? b.target = some d.target ∧
      (u.arena.Declaration d.target ∨ d = b ∧ u.DeclaresItself d.target) := by
  obtain ⟨hid, hsound⟩ := hp.unit b.unit u hu
  obtain ⟨m, hm, hfound⟩ := Option.map_eq_some_iff.mp h
  rcases hd.declarations hm with hdeclaration | ⟨rfl, hself⟩
  · rcases Option.or_eq_some_iff.mp hfound with hfound | ⟨-, hfound⟩
    · have htarget : d.target = m := by simpa using List.find?_some hfound
      exact ⟨Branch.unit_of_mem_upward (List.mem_of_find?_eq_some hfound), htarget ▸ hm,
        .inl (htarget ▸ hdeclaration)⟩
    · have hdu : d.unit = b.unit := by
        rw [(Arena.branchTo_below hfound).unit_eq]
        exact hsound.unit.trans hid
      have htarget := Arena.target_of_branchTo hfound
      exact ⟨hdu, htarget ▸ hm, .inl (htarget ▸ hdeclaration)⟩
  · obtain rfl : d = b := by simpa [Branch.upward] using hfound.symm
    exact ⟨rfl, hm, .inr ⟨rfl, hself⟩⟩

theorem declaring_name (hp : p.Sound) (hu : p.unit? b.unit = some u) (hd : u.Declaring)
    (h : Resolve.declared? u (p.anchor b) = some (some d)) : p.Declaring d := by
  have hunit : (p.anchor b).unit = b.unit := congrArg NodeRef.unit (hp.ref_anchor b)
  obtain ⟨hdu, -, hdeclaration | ⟨rfl, hself⟩⟩ := of_declared? hp (hunit ▸ hu) hd h
  · exact ⟨u, by rw [hdu, hunit, hu], .inl hdeclaration⟩
  · exact ⟨u, by rw [hunit, hu], .inr ⟨hself, hp.anchor_anchor b⟩⟩

theorem unit_bodyBranch (u : SourceUnit) (owner : Branch) :
    (u.bodyBranch owner).unit = owner.unit := by
  unfold SourceUnit.bodyBranch
  split
  · rfl
  · rfl

theorem declaring_written {config : Config} {a : Arena} (hu : p.unit? owner.unit = some u)
    (hr : u.ReadFrom config a) {m : String × Branch} (hm : m ∈ u.written owner) :
    p.Declaration m.2 := by
  obtain ⟨c, hc, he⟩ := SourceUnit.mem_namedBelow hm
  obtain ⟨s, -, hs, hslot, -⟩ := hr.exists_slot hc
  rw [he]
  refine ⟨u, s, ?_, hr.shape?_slot hs, Shape.isDeclaration_of_isSlot hslot, ?_⟩
  · rw [Branch.unit_child, unit_bodyBranch, hu]
  · cases s with
    | methodDefinition | propertyDefinition | enumMember => exact nofun
    | _ => cases hslot

theorem declaring_documented (hu : p.unit? owner.unit = some u) (hd : u.Declaring)
    {m : String × Branch} (hm : m ∈ u.documented owner) : p.Declaration m.2 := by
  unfold SourceUnit.documented at hm
  split at hm
  · obtain ⟨c, hc, he⟩ := SourceUnit.mem_namedBelow hm
    rw [he]
    cases hmeta : u.facts.metas.get? owner.target with
    | none =>
      rw [hmeta] at hc
      cases hc
    | some ids =>
      rw [hmeta] at hc
      obtain ⟨key, hs⟩ := hd.metas hmeta hc
      exact ⟨u, _, hu, hs, rfl, nofun⟩
  · cases hm

theorem declaring_recorded (hp : p.Sound) {m : String × Branch}
    (hm : m ∈ p.recordedMembers owner) : p.Declaration m.2 := by
  obtain ⟨u, b, hu, htarget, hqualified⟩ := qualified_of_recorded hp hm
  cases hqualified with
  | function hs | «class» hs | slot hs =>
    refine ⟨u, _, hu, htarget ▸ hs, rfl, ?_⟩
    exact nofun

namespace ListsDeclarations

variable {name : String} {arity : Option Nat} (hl : p.ListsDeclarations)

include hl

theorem scoped? {id : UnitId} {node : NodeId} (hu : p.unit? id = some u)
    (h : p.scoped? (u.scope node) name arity = some d) : p.Declaring d := by
  obtain ⟨s, hs, -, rfl⟩ := mem_of_scoped? h
  exact hl.scope hu hs

theorem imported? {id : UnitId} (h : p.imported? id name arity = some d) : p.Declaring d := by
  obtain ⟨u, hu, hd⟩ := List.exists_of_findSome?_eq_some h
  obtain ⟨id, -, hid⟩ := List.mem_filterMap.mp hu
  exact hl.scoped? hid hd

theorem rootName? {id : UnitId} (h : p.rootName? id name = some d) : p.Declaring d := by
  rcases Option.or_eq_some_iff.mp h with h | ⟨-, h⟩
  · obtain ⟨u, hu, hd⟩ := Option.bind_eq_some_iff.mp h
    exact hl.scoped? hu hd
  · exact hl.imported? h

end ListsDeclarations

def references (p : Program) (R : Branch → Branch → Prop) : Promise
  | .definition, ref, d => ∀ b kind, b.ref = ref → p.kind? b = some kind →
    kind.isReference = true → R b d
  | .value, _, _ => True

def definitions (p : Program) : Promise := p.references fun _ d => p.Declaring d

theorem isIndirect_of_isReference {kind : Kind} (h : kind.isReference = true) :
    Query.isIndirect .definition kind = true := by
  cases kind <;> first | rfl | cases h

theorem references_kept {R : Branch → Branch → Prop}
    (h : ∀ {ask b kind}, ask.Meets p (p.references R) → p.kind? b = some kind →
      kind.isReference = true → Yields (p.references R) (Resolve.definitionStep p ask (p.anchor b))
        fun d => ∀ b', b'.ref = b.ref → R b' d) : (p.references R).Kept p where
  direct {q b x} hready := by
    cases q with
    | value => trivial
    | definition =>
      intro c kind hr hk href
      simp [ready?, ← kind?_congr hr, hk, isIndirect_of_isReference href] at hready
  step {ask q b} hask := by
    cases q with
    | value => exact step_yields hask .value b
    | definition =>
      by_cases href : ∃ kind, p.kind? b = some kind ∧ kind.isReference = true
      · obtain ⟨kind, hk, href⟩ := href
        exact (h hask hk href).mono fun d hd b' _ hr _ _ => hd b' hr
      · refine (step_yields hask .definition b).mono fun d _ c kind hr hk hkind => ?_
        exact absurd ⟨kind, (kind?_congr hr).symm.trans hk, hkind⟩ href

end Program

namespace Resolve

variable {p : Program} {ask : Ask} {A : Promise} {Q : Branch → Prop} {b : Branch} {kind : Kind}
  {name : String}

theorem nameDefinition_yields (hask : ask.Meets p A)
    (hproperty : ∀ parent s d, b.parentBranch? = some parent → p.shape? parent = some s →
      isPropertyOf b.target s = true → A .definition parent.ref d → Q d)
    (hlookup : (∀ parent, b.parentBranch? = some parent →
      ∃ s, p.shape? parent = some s ∧ isPropertyOf b.target s = false) →
      Yields A (lookupName p ask b name (p.arity? b)) Q) :
    Yields A (nameDefinition p ask b name) Q := by
  unfold nameDefinition
  split
  · next hroot => exact hlookup fun parent hparent => nomatch hroot.symm.trans hparent
  · next parent hparent =>
    split
    · exact Yields.failure
    · next s hs =>
      split
      · next hof =>
        -- the access that the name belongs to is its own subject
        have hindirect : Query.isIndirect .definition s.kind = true := by
          cases s <;> first | rfl | cases hof
        have hk : p.kind? parent = some s.kind := by rw [Program.kind?, hs]; rfl
        refine (hask .definition parent).mono fun d hd => ?_
        rw [Program.subject_of_indirect hk hindirect] at hd
        exact hproperty parent s d hparent hs hof hd
      · next hof =>
        refine hlookup fun parent' hparent' => ?_
        obtain rfl := Option.some.inj (hparent.symm.trans hparent')
        exact ⟨s, hs, Bool.eq_false_iff.mpr hof⟩

theorem definitionStep_yields (hask : ask.Meets p A) (hk : p.kind? b = some kind)
    (href : kind.isReference = true)
    (hdeclared : ∀ u name d, p.unit? b.unit = some u →
      u.arena.shape? b.target = some (.identifier name) → declared? u b = some (some d) → Q d)
    (hproperty : ∀ parent s d, b.parentBranch? = some parent → p.shape? parent = some s →
      isPropertyOf b.target s = true → A .definition parent.ref d → Q d)
    (hlookup : ∀ u name, p.unit? b.unit = some u →
      u.arena.shape? b.target = some (.identifier name) → declared? u b = none →
      (∀ parent, b.parentBranch? = some parent →
        ∃ s, p.shape? parent = some s ∧ isPropertyOf b.target s = false) →
      Yields A (lookupName p ask b name (p.arity? b)) Q)
    (hmember : ∀ {owner m}, m ∈ p.ownMembers owner → Q m.2)
    (hroot : ∀ name d, p.rootName? b.unit name = some d → Q d) :
    Yields A (definitionStep p ask b) Q := by
  unfold definitionStep
  refine Yields.bind_ofOption fun u hu => Yields.bind_ofOption fun s hs => ?_
  obtain rfl : s.kind = kind := by
    rw [Program.kind?, Program.shape?_of_unit? hu hs] at hk
    exact Option.some.inj hk
  cases s with
  | identifier name =>
    dsimp only
    split
    · next found hfound => exact Yields.ofOption fun d hd => hdeclared u name d hu hs (hd ▸ hfound)
    · next hnone => exact nameDefinition_yields hask hproperty (hlookup u name hu hs hnone)
  | memberExpression object property computed =>
    exact Yields.bind_ofOption fun name _ => memberOf_yields hask hmember _
  | rootExpression property =>
    exact Yields.bind_ofOption fun name _ => Yields.ofOption fun d hd => hroot name d hd
  | _ => cases href

end Resolve

namespace Program

variable {p : Program} {b b' d : Branch}

theorem definitions_kept (hp : p.Sound) (hl : p.ListsDeclarations) : p.definitions.Kept p := by
  refine references_kept fun {ask b kind} hask hk href => ?_
  have hpath : p.kind? (p.anchor b) = some kind := (kind?_congr (hp.ref_anchor b)).trans hk
  have hmember {owner : Branch} {m : String × Branch} (hm : m ∈ p.ownMembers owner) :
      p.Declaring m.2 := (hl.member hm).declaring
  refine (Resolve.definitionStep_yields (Q := p.Declaring) hask hpath href ?_ ?_ ?_ hmember
    fun _ _ hd => hl.rootName? hd).mono fun d hd _ _ => hd
  · intro u name d hu _ hd
    have hunit : (p.anchor b).unit = b.unit := congrArg NodeRef.unit (hp.ref_anchor b)
    exact hl.name (hunit ▸ hu) hd
  · intro parent s d _ hs hof hd
    have href : s.kind.isReference = true := by
      cases s <;> first | rfl | cases hof
    exact hd parent s.kind rfl (by rw [kind?, hs]; rfl) href
  · intro u name _ _ _ _
    refine Resolve.lookupName_yields hask hmember (fun e _ s hs _ => ?_) fun d hd => hl.imported? hd
    obtain ⟨v, hv, hs⟩ := Resolve.mem_scope_of_scopeAt hs
    exact hl.scope hv hs

def deep (p : Program) : Promise := fun q ref _ =>
  ∀ b, b.ref = ref → p.HasSlot q b → 0 < p.config.maxDepth

theorem answerWithin_deep (p : Program) (n : Nat) : (p.answerWithin n).Meets p p.deep := by
  induction n with
  | zero =>
    rintro q b s _ _ hs ⟨⟩
    exact ⟨by simp, hs⟩
  | succ n ih =>
    intro q b
    cases hready : p.ready? q b with
    | some o =>
      rw [answerWithin_of_ready hready]
      refine Yields.ofOption fun x _ c hr ⟨kind, hk, hi⟩ => ?_
      simp [ready?, ← kind?_congr hr, hk, hi] at hready
    | none =>
      rw [answerWithin_of_frame hready]
      refine remembered_meets fun hd => ?_
      exact (step_yields ih q (p.subject q b)).mono fun _ _ _ _ _ => hd

theorem answer_deep (p : Program) : p.answer.Meets p p.deep := p.answerWithin_deep _

theorem ready?_declaration {u : SourceUnit} (hu : p.unit? d.unit = some u)
    (hd : u.arena.Declaration d.target) : p.ready? .definition d = some (some d) := by
  obtain ⟨s, hs, hdeclaration⟩ := hd
  have hplain : s.plainAssignment? = none := by
    cases s with
    | assignmentExpression op left right =>
      cases op <;> first | rfl | cases hdeclaration
    | _ => rfl
  have hsubject : p.subject .definition d = d := by
    simp only [subject, hu, Arena.leftmost]
    cases u.arena.size with
    | zero => rfl
    | succ n => simp only [Arena.leftmostUpTo, hs, Option.bind_some, hplain]
  have hk : p.kind? d = some s.kind := by rw [kind?, shape?_of_unit? hu hs]; rfl
  have hkind : Query.isIndirect .definition s.kind = false ∧ s.kind.isDeclaring = true := by
    cases s <;> first | exact ⟨rfl, rfl⟩ | cases hdeclaration
  simp [ready?, hsubject, hk, hkind.1, hkind.2, direct?]

theorem run_definition_of_declaring (hp : p.Sound) {m : Memo} (hm : p.Grown m)
    (hdepth : 0 < p.config.maxDepth) (hd : p.Declaring d) :
    ((p.answer .definition d).run.run ⟨{}, m⟩).1 = some d := by
  obtain ⟨u, hu, hdeclaration | ⟨hself, hanchor⟩⟩ := hd
  · unfold answer
    rw [answerWithin_of_ready (ready?_declaration hu hdeclaration)]
    rfl
  · obtain ⟨⟨name, hs⟩, -⟩ := hself.bound
    have hslot : p.HasSlot .definition d :=
      ⟨.identifier, by rw [kind?, shape?_of_unit? hu hs]; rfl, rfl⟩
    refine run_answer_immediate hm hslot hdepth (P := fun o => o = some d) fun b' hr => ?_
    have hpath : p.anchor b' = d := (anchor_of_written hp hu hr hself.written).trans hanchor
    have hfound : Resolve.declared? u d = some (some d) := by
      simp [Resolve.declared?, hself.declaration, Branch.upward]
    refine ⟨some d, rfl, fun ask => ?_⟩
    rw [step_eq_stepAt, hpath]
    show Resolve.definitionStep p ask d = _
    rw [Resolve.definitionStep, hu, Resolve.bind_ofOption_some, hs, Resolve.bind_ofOption_some]
    simp only [hfound]

end Program

namespace Analysis

variable {asked : Program → Branch → Prop} {a : Analysis} {b d : Branch} {kind : Kind}

theorem Reachable.declaring (h : a.Reachable asked) {id : UnitId} {u : SourceUnit}
    (hu : a.unit? id = some u) : u.Declaring := by
  obtain ⟨source, arena, ha, namespaces, outline, rfl⟩ := h.assembled.exists_build hu
  exact (SourceUnit.declaring_build _ _ (parsed_parseArena ha)).withEntries _ _

theorem Reachable.listsDeclarations (h : a.Reachable asked) : a.program.ListsDeclarations where
  scope hu hs := Program.declaring_scope h.sound hu (h.declaring hu) hs
  member {owner m} hm := by
    unfold Program.ownMembers at hm
    split at hm
    · cases hm
    · next u hu =>
      obtain ⟨hu, -⟩ := Option.filter_eq_some_iff.mp hu
      obtain ⟨base, hr⟩ := h.exists_readFrom hu
      rw [u.membersAt_eq] at hm
      rcases List.mem_append.mp hm with hm | hm
      · rcases List.mem_append.mp hm with hm | hm
        · exact Program.declaring_written hu hr hm
        · exact Program.declaring_documented hu (h.declaring hu) hm
      · exact Program.declaring_recorded h.sound hm
  name hu hd := Program.declaring_name h.sound hu (h.declaring hu) hd

/-- A reference is defined by a node that declares a name, or by the name of a parameter or of a
loop or catch variable, and that node is its own definition, whatever is asked in between. -/
theorem definition_definition (h : a.Reachable fun _ _ => True)
    (hk : a.program.kind? b = some kind) (href : kind.isReference = true)
    (hd : ((definition b).run a).1 = some d) :
    (∃ u, a.unit? d.unit = some u ∧ u.IsDeclaring d.target) ∧
      ∀ questions, ((definition d).run (Question.askAll questions a)).1 = some d := by
  have hi : Query.isIndirect .definition kind = true := Program.isIndirect_of_isReference href
  have hsubject : (a.program.subject .definition b).ref = b.ref :=
    congrArg Branch.ref (Program.subject_of_indirect hk hi)
  have hdeclaring : a.program.Declaring d := by
    have hkept := Program.definitions_kept h.sound h.listsDeclarations
    exact h.keeps (Program.answer_meets hkept) hd b kind hsubject.symm hk href
  have hdepth : 0 < a.program.config.maxDepth :=
    h.keeps a.program.answer_deep hd b hsubject.symm ⟨kind, hk, hi⟩
  refine ⟨?_, fun questions => ?_⟩
  · obtain ⟨u, hu, hdeclaration⟩ := hdeclaring
    exact ⟨u, hu, hdeclaration.imp_right fun hself => hself.1⟩
  · have hgrown := (h.askAll questions).grown
    have hprogram := program_askAll questions a
    rw [definition, run_walk, hprogram]
    exact Program.run_definition_of_declaring h.sound (hprogram ▸ hgrown) hdepth hdeclaring

theorem definition_definition_superclass : ∃ a b d c e,
    ofSources {} Imports.none
      ["class A {} function A::f(n) { n; } class B extends A {} B.f(0);"] = .ok a ∧
    a.program.kind? b = some .memberExpression ∧ ((definition b).run a).1 = some d ∧
    a.program.anchor d ≠ d ∧ a.program.kind? c = some .identifier ∧
    ((definition c).run a).1 = some e ∧
    (∀ questions, ((definition d).run (Question.askAll questions a)).1 = some d) ∧
    ∀ questions, ((definition e).run (Question.askAll questions a)).1 = some e := by
  let b : Branch := ⟨⟨0⟩, ⟨16⟩, [⟨18⟩, ⟨19⟩, ⟨20⟩]⟩
  let d : Branch := ⟨⟨0⟩, ⟨9⟩, [⟨2⟩, ⟨20⟩]⟩
  let c : Branch := ⟨⟨0⟩, ⟨6⟩, [⟨7⟩, ⟨8⟩, ⟨9⟩, ⟨20⟩]⟩
  let e : Branch := ⟨⟨0⟩, ⟨5⟩, [⟨9⟩, ⟨20⟩]⟩
  have hbuilt : (ofSources {} Imports.none
      ["class A {} function A::f(n) { n; } class B extends A {} B.f(0);"]).toOption.any
        (fun a => decide ((a.program.kind? b = some .memberExpression ∧
          ((definition b).run a).1 = some d ∧ a.program.anchor d ≠ d) ∧
          a.program.kind? c = some .identifier ∧ ((definition c).run a).1 = some e)) = true := by
    decide +kernel
  obtain ⟨a, ha, h⟩ := exists_ok hbuilt
  obtain ⟨⟨hb, hd, hpath⟩, hc, he⟩ := of_decide_eq_true h
  exact ⟨a, b, d, c, e, ha, hb, hd, hpath, hc, he,
    (definition_definition (.ofSources ha) hb rfl hd).2,
    (definition_definition (.ofSources ha) hc rfl he).2⟩

end Analysis

end SquirrelAnalyzer
