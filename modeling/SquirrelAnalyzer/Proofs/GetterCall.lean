import SquirrelAnalyzer.Proofs.KeyDefinition
import SquirrelAnalyzer.Proofs.Owner
import SquirrelAnalyzer.Proofs.Sequel
import SquirrelAnalyzer.Proofs.Sight

namespace SquirrelAnalyzer

theorem Tree.Fits.kind_method {t : Tree} (h : t.Fits .method) :
    t.shape.kind = .functionExpression := by
  cases h
  rfl

theorem Tree.Fits.kind_methodValue {t key value : Tree} {r : Role} {kind : MethodKind}
    {isStatic : Bool} (h : t.Fits r) (hs : t.shape = .methodDefinition kind isStatic key value) :
    value.shape.kind = .functionExpression := by
  induction h with
  | ofBlock _ ih | ofVariables _ ih | ofExpression _ ih | initialVariables _ ih | ofName _ ih
  | propertyName _ ih | ownerName _ ih | identifier _ ih | function _ ih => exact ih hs
  | constructor hvalue | classMethod _ hvalue | slotMethod _ hvalue =>
    cases hs
    exact hvalue.kind_method
  | _ => cases hs

namespace SourceUnit

variable {u : SourceUnit} {config : Config} {base : Arena} {m key value : NodeId}
  {kind : MethodKind} {isStatic : Bool}

theorem ReadFrom.kind_methodValue (h : u.ReadFrom config base)
    (hs : u.arena.shape? m = some (.methodDefinition kind isStatic key value)) :
    u.arena.kind? value = some .functionExpression := by
  have hbase := h.shape?_written hs nofun nofun
  rcases h.grammatical.fits hbase with ⟨body, hbody⟩ | ⟨r, hfits⟩
  · cases hbody
  · have hkind := hfits.kind_methodValue (h.grammatical.shape_tree hbase)
    have hmem : value ∈ base.children .full m := by
      rw [Arena.children_of_shape? hbase]
      simp [Shape.children, Shape.kind, Kind.fields, Shape.field]
    have hlt := Nat.lt_trans (h.parsed.child_lt hmem) (Arena.lt_size_of_shape? hbase)
    exact h.unit.arena.kind?_eq ((h.grammatical.kind?_tree hlt).trans (congrArg some hkind))

theorem kind_getter_build (config : Config) (id : UnitId) (a : Arena) {property : NodeId}
    (hm : ((build config id a).facts.accessors.get? property).bind (·.getter) = some m) :
    (build config id a).arena.kind? m = some .methodDefinition := by
  have h : ∀ property m,
      ((build config id a).facts.accessors.get? property).bind (·.getter) = some m →
        (build config id a).arena.kind? m = some .methodDefinition := by
    refine attachComments_induction (motive := fun u => ∀ property m,
      (u.facts.accessors.get? property).bind (·.getter) = some m →
        u.arena.kind? m = some .methodDefinition) ?_ ?_ ?_ config
    · exact fun u f hu hf property m hm => (hf.getters hm).elim (hu property m) fun h => h
    · intro u cls name tag location hu property m hm
      exact (u.extends_addMeta cls name tag location).kind?_eq (hu property m hm)
    · intro property m hm
      rw [show (ofArena config _).facts.accessors = ∅ from rfl, NodeTable.get?_empty] at hm
      cases hm
  exact h property m hm

end SourceUnit

inductive Memo.GivesBetween {α : Type} (m : Memo) (compute : Resolving α) (x : α) (m' : Memo) : Prop
  | intro {m₁ m₂ : Memo} (before : m.Le m₁) (gives : m₁.Gives compute x m₂) (after : m₂.Le m')

def Program.MethodAt (p : Program) (g : NodeRef) (f : Branch) : Prop :=
  ∃ d kind isStatic key value, d.ref = g ∧
    p.shape? d = some (.methodDefinition kind isStatic key value) ∧ f = (p.anchor d).child value

namespace Analysis

variable {asked : Program → Branch → Prop} {a later : Analysis} {b b' c d f : Branch} {g : NodeRef}
  {m m' : Memo} {r : Option Value}

theorem Reachable.anchor_congr (h : a.Reachable asked) {s : Shape NodeId}
    (hs : a.program.shape? b = some s) (hname : s.kind ≠ .identifier)
    (hproperty : s.kind ≠ .metaProperty) (hr : b'.ref = b.ref) :
    a.program.anchor b' = a.program.anchor b := by
  obtain ⟨u, hu, hus⟩ := Program.unit?_of_shape? hs
  exact Program.anchor_of_written h.sound hu hr (h.assembled.written_of_kind hu hus hname hproperty)

theorem Reachable.kind_function (h : a.Reachable asked) (hf : a.program.MethodAt g f) :
    a.program.kind? f = some .functionExpression := by
  obtain ⟨d, kind, isStatic, key, value, rfl, hs, rfl⟩ := hf
  obtain ⟨u, hu, hus⟩ := Program.unit?_of_shape? hs
  obtain ⟨base, hread⟩ := h.exists_readFrom hu
  have hunit : (a.program.anchor d).unit = d.unit := congrArg NodeRef.unit (h.sound.ref_anchor d)
  rw [Program.kind?_of_unit? (b := (a.program.anchor d).child value) (hunit ▸ hu)]
  exact hread.kind_methodValue hus

theorem Reachable.exists_getter (h : a.Reachable asked) {u : SourceUnit}
    (hu : a.unit? d.unit = some u) {getter : NodeId}
    (hget : (u.facts.accessors.get? d.target).bind (·.getter) = some getter) :
    ∃ c f, u.arena.branchTo getter = some c ∧ c.ref = ⟨d.unit, getter⟩ ∧
      a.program.MethodAt ⟨d.unit, getter⟩ f := by
  have hkind : u.arena.kind? getter = some .methodDefinition := by
    obtain ⟨source, base, -, namespaces, outline, rfl⟩ := h.assembled.exists_build hu
    exact SourceUnit.kind_getter_build a.program.config d.unit base hget
  rw [u.arena.kind?_eq_map] at hkind
  obtain ⟨s, hs, hkind⟩ := Option.map_eq_some_iff.mp hkind
  cases s with
  | methodDefinition kind isStatic key value =>
    have hwritten := h.assembled.written_of_kind hu hs nofun nofun
    obtain ⟨c, hto, rfl, hbelow, hunit, -⟩ := h.sound.exists_branchTo hu
      (Nat.lt_of_not_le (of_decide_eq_false hwritten))
    obtain ⟨hid, hsound⟩ := h.sound.unit d.unit u hu
    have href : c.ref = ⟨d.unit, c.target⟩ := by
      rw [Branch.ref, hbelow.unit_eq]
      exact congrArg (NodeRef.mk · _) (hsound.unit.trans hid)
    have hshape := Program.shape?_of_unit? hunit hs
    exact ⟨c, _, hto, href, c, kind, isStatic, key, value, href, hshape, rfl⟩
  | _ => cases hkind

def ReadsGetter (a : Analysis) (b : Branch) (g : NodeRef) : Prop :=
  a.program.kind? b = some .memberExpression ∧ ∃ d u, ((definition b).run a).1 = some d ∧
    a.program.kind? d = some .metaProperty ∧ a.unit? d.unit = some u ∧
    (u.facts.accessors.get? d.target).bind (·.getter) = some g.node ∧ d.unit = g.unit

def CallsMethod (a : Analysis) (c : Branch) (g : NodeRef) : Prop :=
  ∃ callee arguments d, a.program.shape? c = some (.callExpression callee arguments) ∧
    a.program.kind? (c.child callee) = some .memberExpression ∧
    ((definition (c.child callee)).run a).1 = some d ∧ d.ref = g

def ReturnedBy (a : Analysis) (b f : Branch) : Prop :=
  ∃ m m', a.memo.Le m ∧
    m.Gives (Resolve.returnValue a.program a.program.answer f).run ((value b).run a).1 m' ∧
    m'.Le ((value b).run a).2.memo

theorem Clean.gives (h : a.Clean .value b) : a.memo.Gives (a.program.answer .value b).run
    ((value b).run a).1 ((value b).run a).2.memo := by
  cases hrun : (a.program.answer .value b).run.run ⟨{}, a.memo⟩ with | mk r s
  have haborted : s.walk.aborted = false := by
    unfold Clean at h
    rwa [hrun] at h
  have hwalk : {} = s.walk := (a.program.answer_sound _ _ _ _ _ hrun).1.walk_eq haborted
  have hvalue : ((value b).run a).1 = r := congrArg Prod.fst hrun
  have hmemo : ((value b).run a).2.memo = s.memo := congrArg (fun x => x.2.memo) hrun
  rw [Memo.Gives, hrun, hvalue, hmemo, hwalk]

theorem Reachable.answer_congr (h : a.Reachable asked)
    (hk : a.program.kind? b = some .memberExpression) (hr : b'.ref = b.ref) {q : Query}
    (hs : a.program.HasSlot q b) : a.program.answer q b' = a.program.answer q b := by
  obtain ⟨s, hshape, -⟩ := Option.map_eq_some_iff.mp hk
  obtain ⟨u, hu, -⟩ := Program.unit?_of_shape? hshape
  rw [Program.kind?_of_unit? hu] at hk
  refine hs.answer_congr h.sound h.assembled hu hr ?_ ?_
  · simp [SourceUnit.isPropertyName, hk]
  · simp [SourceUnit.isPlainProperty, hk]

theorem gives_member (h : a.Reachable asked) (hm : a.program.Grown m)
    (hk : a.program.kind? b = some .memberExpression)
    (hd : ((a.program.answer .definition b).run.run ⟨{}, m⟩).1 = some d)
    (hb : m.Gives (a.program.answer .value b).run r m') :
    ∃ m₁ m₂, m.Le m₁ ∧ a.program.Grown m₁ ∧ m₁.Gives (a.program.answer .value d).run r m₂ ∧
      m₂.Le m' := by
  obtain ⟨b₁, m₂, href, hgives, hle⟩ := Program.gives_step hm ⟨_, hk, rfl⟩ hb rfl
  obtain ⟨s, hs, hkind⟩ := Option.map_eq_some_iff.mp hk
  have hanchor : (a.program.anchor b₁).ref = b.ref := (h.sound.ref_anchor b₁).trans href
  have hstep : a.program.step a.program.answer .value b₁ =
      a.program.answer .definition (a.program.anchor b₁) >>= a.program.answer .value := by
    rw [Program.step, Resolve.valueStep, Program.shape?_congr hanchor, hs]
    cases s with
    | memberExpression object property computed => rfl
    | _ => cases hkind
  rw [hstep, h.answer_congr hk hanchor ⟨_, hk, rfl⟩] at hgives
  obtain ⟨k, hk⟩ := (Finds.ask .value fun _ => trivial).exists_plan a.program.answer
  obtain ⟨m₁, hfirst, hsecond⟩ := hgives.of_bind hd hk
  have hadv := (a.program.answer_sound _ _ _ _ _ hfirst).1
  exact ⟨m₁, m₂, hadv.memo, hadv.grown hm, hsecond, hle⟩

theorem gives_method (h : a.Reachable asked) (hm : a.program.Grown m)
    (hf : a.program.MethodAt d.ref f) (hd : m.Gives (a.program.answer .value d).run r m') :
    r = some (.ofBranch f) := by
  have hkind := h.kind_function hf
  obtain ⟨e, kind, isStatic, key, value, href, hs, rfl⟩ := hf
  have hslot : a.program.HasSlot .value d :=
    ⟨.methodDefinition, by rw [Program.kind?, ← Program.shape?_congr href, hs]; rfl, rfl⟩
  obtain ⟨d₁, m₂, hr, hgives, -⟩ := Program.gives_step hm hslot hd rfl
  have hanchor : a.program.anchor d₁ = a.program.anchor e :=
    h.anchor_congr hs (by simp [Shape.kind]) (by simp [Shape.kind]) (hr.trans href.symm)
  have hstep : a.program.step a.program.answer .value d₁ =
      a.program.answer .value ((a.program.anchor e).child value) := by
    rw [Program.step, hanchor, Resolve.valueStep, Program.shape?_congr (h.sound.ref_anchor e), hs]
    rfl
  rw [hstep, Program.answer_value_self hkind rfl] at hgives
  cases hgives
  rfl

theorem gives_getter (h : a.Reachable asked) (hm : a.program.Grown m) {u : SourceUnit}
    {getter : NodeId} (hk : a.program.kind? d = some .metaProperty) (hu : a.unit? d.unit = some u)
    (hget : (u.facts.accessors.get? d.target).bind (·.getter) = some getter)
    (hf : a.program.MethodAt ⟨d.unit, getter⟩ f)
    (hd : m.Gives (a.program.answer .value d).run r m') :
    m.GivesBetween (Resolve.returnValue a.program a.program.answer f).run r m' := by
  obtain ⟨d₁, m₂, href, hgives, hle⟩ := Program.gives_step hm ⟨_, hk, rfl⟩ hd rfl
  obtain ⟨c, -, hto, hc, -⟩ := h.exists_getter hu hget
  obtain ⟨s, hs, hkind⟩ := Option.map_eq_some_iff.mp hk
  have hanchor : (a.program.anchor d₁).ref = d.ref := (h.sound.ref_anchor d₁).trans href
  obtain ⟨hunit, htarget⟩ := Branch.ref_eq_iff.mp hanchor
  have hstep : a.program.step a.program.answer .value d₁ = (do
      let function ← a.program.answer .value c
      Resolve.returnValue a.program a.program.answer (← Resolve.ofOption function.branch?)) := by
    cases s with
    | metaProperty key =>
      rw [← Program.shape?_congr hanchor] at hs
      rw [Program.step, Program.valueStep_metaProperty hs,
        Program.metaValue_getter (hunit ▸ hu) (htarget ▸ hget), hto, Resolve.bind_ofOption_some]
    | _ => cases hkind
  rw [hstep] at hgives
  have hnext (v : Value) : ∃ k : Plan (Option Value), (Resolve.ofOption v.branch? >>=
      Resolve.returnValue a.program a.program.answer).run = k.run a.program.answer :=
    (Finds.bind (Resolve.branch?_finds fun _ => Query.holds_true .value v) fun _ =>
      Resolve.returnValue_finds a.program.closed_true fun _ => trivial).exists_plan _
  rcases hgives.split hnext with ⟨hnone, -⟩ | ⟨v, m₁, hfirst, hsecond⟩
  · cases gives_method h hm (hc ▸ hf) hnone
  · cases gives_method h hm (hc ▸ hf) hfirst
    exact ⟨(a.program.answer_sound _ _ _ _ _ hfirst).1.memo, hsecond, hle⟩

theorem gives_call (h : a.Reachable asked) (hm : a.program.Grown m) {callee : NodeId}
    {arguments : List NodeId} (hs : a.program.shape? c = some (.callExpression callee arguments))
    (hk : a.program.kind? (c.child callee) = some .memberExpression)
    (hd : ((a.program.answer .definition (c.child callee)).run.run ⟨{}, m⟩).1 = some d)
    (hf : a.program.MethodAt d.ref f) (hc : m.Gives (a.program.answer .value c).run r m') :
    m.GivesBetween (Resolve.returnValue a.program a.program.answer f).run r m' := by
  have hslot : a.program.HasSlot .value c := ⟨.callExpression, by rw [Program.kind?, hs]; rfl, rfl⟩
  obtain ⟨c₁, m₂, href, hgives, hle⟩ := Program.gives_step hm hslot hc rfl
  have hanchor : (a.program.anchor c₁).ref = c.ref := (h.sound.ref_anchor c₁).trans href
  have hcallee : ((a.program.anchor c₁).child callee).ref = (c.child callee).ref :=
    congrArg (fun x : NodeRef => (⟨x.unit, callee⟩ : NodeRef)) hanchor
  have hstep : a.program.step a.program.answer .value c₁ =
      a.program.answer .value (c.child callee) >>=
        Resolve.calledValue a.program a.program.answer (a.program.anchor c₁) := by
    rw [Program.step, Resolve.valueStep, Program.shape?_congr hanchor, hs,
      ← h.answer_congr hk hcallee ⟨_, hk, rfl⟩]
    rfl
  have hmethod {v : Option Value} {m₁ : Memo}
      (hv : m.Gives (a.program.answer .value (c.child callee)).run v m₁) :
      v = some (.ofBranch f) := by
    obtain ⟨m₃, m₄, -, hgrown, hvalue, -⟩ := gives_member h hm hk hd hv
    exact gives_method h hgrown hf hvalue
  rw [hstep] at hgives
  have hnext (v : Value) : ∃ k : Plan (Option Value), (Resolve.calledValue a.program
      a.program.answer (a.program.anchor c₁) v).run = k.run a.program.answer :=
    (Resolve.calledValue_finds a.program.closed_true (fun _ => trivial) fun _ =>
      Query.holds_true .value v).exists_plan _
  rcases hgives.split hnext with ⟨hnone, -⟩ | ⟨v, m₁, hfirst, hsecond⟩
  · cases hmethod hnone
  · cases hmethod hfirst
    have hfunction : Resolve.calledValue a.program a.program.answer (a.program.anchor c₁)
        (.ofBranch f) = Resolve.returnValue a.program a.program.answer f :=
      Resolve.calledValue_function (h.kind_function hf) rfl
    rw [hfunction] at hsecond
    exact ⟨(a.program.answer_sound _ _ _ _ _ hfirst).1.memo, hsecond, hle⟩

theorem ReadsGetter.exists_method (hr : a.ReadsGetter b g) (h : a.Reachable asked) :
    ∃ f, a.program.MethodAt g f := by
  obtain ⟨-, d, u, -, -, hu, hget, hunit⟩ := hr
  obtain ⟨-, f, -, -, hf⟩ := h.exists_getter hu hget
  rw [hunit] at hf
  exact ⟨f, hf⟩

theorem ReadsGetter.returnedBy (hr : a.ReadsGetter b g) (h : a.Reachable asked)
    (hf : a.program.MethodAt g f) (hclean : a.Clean .value b) : a.ReturnedBy b f := by
  obtain ⟨hk, d, u, hd, hproperty, hu, hget, hunit⟩ := hr
  obtain ⟨m₁, m₂, hle, hgrown, hvalue, hle'⟩ := gives_member h h.grown hk hd hclean.gives
  have hf' : a.program.MethodAt ⟨d.unit, g.node⟩ f := by rwa [hunit]
  obtain ⟨hle₁, hgives, hle₂⟩ := gives_getter h hgrown hproperty hu hget hf' hvalue
  exact ⟨_, _, hle.trans hle₁, hgives, hle₂.trans hle'⟩

theorem CallsMethod.returnedBy (hc : a.CallsMethod c g) (h : a.Reachable asked)
    (hf : a.program.MethodAt g f) (hclean : a.Clean .value c) : a.ReturnedBy c f := by
  obtain ⟨callee, arguments, d, hs, hk, hd, rfl⟩ := hc
  obtain ⟨hle, hgives, hle'⟩ := gives_call h h.grown hs hk hd hf hclean.gives
  exact ⟨_, _, hle, hgives, hle'⟩

theorem ReturnedBy.value_eq (hb : a.ReturnedBy b f) (hc : later.ReturnedBy c f)
    (hprogram : later.program = a.program) (hle : ((value b).run a).2.memo.Le later.memo) :
    ((value c).run later).1 = ((value b).run a).1 := by
  obtain ⟨m₁, m₂, -, hfirst, hle₂⟩ := hb
  obtain ⟨m₃, m₄, hle₃, hsecond, -⟩ := hc
  rw [hprogram] at hsecond
  obtain ⟨t, ht⟩ : ∃ t : Plan (Option Value),
      (Resolve.returnValue a.program a.program.answer f).run = t.run a.program.answer :=
    (Resolve.returnValue_finds a.program.closed_true fun _ => trivial).exists_plan _
  rw [ht] at hfirst hsecond
  have heval := (Plan.run_advances a.program.answer_sound hfirst).2 rfl
  have heval' := (Plan.run_advances a.program.answer_sound hsecond).2 rfl
  have hknown : m₂.Le m₄ := ((hle₂.trans hle).trans hle₃).trans hsecond.le
  exact Option.some.inj (heval'.symm.trans (Plan.eval_mono (fun q b r => hknown.known) heval))

/-- Reading a property stands for what calling its getter stands for. Whichever of the two is asked
about first, and whatever else is asked in between, the other one gives the same answer. -/
theorem value_getter (h : a.Reachable fun _ _ => True) (questions : List Question) (g : NodeRef)
    (b c : Branch) :
    (let later := Question.askAll questions ((value b).run a).2
     a.ReadsGetter b g → later.CallsMethod c g → a.Clean .value b → later.Clean .value c →
       ((value c).run later).1 = ((value b).run a).1) ∧
    (let later := Question.askAll questions ((value c).run a).2
     a.CallsMethod c g → later.ReadsGetter b g → a.Clean .value c → later.Clean .value b →
       ((value b).run later).1 = ((value c).run a).1) := by
  have hprogram (b : Branch) :
      (Question.askAll questions ((value b).run a).2).program = a.program :=
    (program_askAll questions _).trans (program_ask (.value b) a)
  have hlater (b : Branch) :
      (Question.askAll questions ((value b).run a).2).Reachable fun _ _ => True :=
    (h.ask (q := .value b) trivial).askAll questions
  refine ⟨fun hb hc hcleanb hcleanc => ?_, fun hc hb hcleanc hcleanb => ?_⟩
  · obtain ⟨f, hf⟩ := hb.exists_method h
    have hreturned := hc.returnedBy (hlater b) (hprogram b ▸ hf) hcleanc
    exact (hb.returnedBy h hf hcleanb).value_eq hreturned (hprogram b) (le_askAll _ _)
  · obtain ⟨f, hf⟩ := hb.exists_method (hlater c)
    have hreturned := hb.returnedBy (hlater c) hf hcleanb
    have hreturned' := hc.returnedBy h (hprogram c ▸ hf) hcleanc
    exact hreturned'.value_eq hreturned (hprogram c) (le_askAll _ _)

theorem value_getter_object : ∃ a b c g, ofSources {} Imports.none
      ["class A { /** @getter size */ function getSize() { return 1; } } local a = A(); a.size; a.getSize();"] =
        .ok a ∧
    (let later := Question.askAll [.label b] ((value b).run a).2
     a.ReadsGetter b g ∧ later.CallsMethod c g ∧ a.Clean .value b ∧ later.Clean .value c ∧
       ((value c).run later).1 = ((value b).run a).1) ∧
    (let later := Question.askAll [.label b] ((value c).run a).2
     a.CallsMethod c g ∧ later.ReadsGetter b g ∧ a.Clean .value c ∧ later.Clean .value b ∧
       ((value b).run later).1 = ((value c).run a).1) := by
  let b : Branch := ⟨⟨0⟩, ⟨16⟩, [⟨17⟩, ⟨23⟩]⟩
  let c : Branch := ⟨⟨0⟩, ⟨21⟩, [⟨22⟩, ⟨23⟩]⟩
  let property : Branch := ⟨⟨0⟩, ⟨25⟩, [⟨8⟩, ⟨23⟩]⟩
  let method : Branch := ⟨⟨0⟩, ⟨6⟩, [⟨7⟩, ⟨8⟩, ⟨23⟩]⟩
  have hbuilt : (ofSources {} Imports.none
      ["class A { /** @getter size */ function getSize() { return 1; } } local a = A(); a.size; a.getSize();"]).toOption.any
      (fun a => (a.unit? ⟨0⟩).any fun u =>
        let laterB := Question.askAll [.label b] ((value b).run a).2
        let laterC := Question.askAll [.label b] ((value c).run a).2
        decide (a.program.kind? b = some .memberExpression ∧
          a.program.kind? property = some .metaProperty ∧
          (u.facts.accessors.get? property.target).bind (·.getter) = some method.target ∧
          a.program.shape? c = some (.callExpression ⟨20⟩ []) ∧
          a.program.kind? (c.child ⟨20⟩) = some .memberExpression ∧
          ((definition b).run a).1 = some property ∧
          ((definition (c.child ⟨20⟩)).run laterB).1 = some method ∧
          a.Clean .value b ∧ laterB.Clean .value c ∧
          ((definition (c.child ⟨20⟩)).run a).1 = some method ∧
          ((definition b).run laterC).1 = some property ∧
          a.Clean .value c ∧ laterC.Clean .value b)) = true := by decide +kernel
  obtain ⟨a, ha, h⟩ := exists_ok hbuilt
  obtain ⟨u, hu, h⟩ := (Option.any_eq_true _ _).mp h
  obtain ⟨hk, hproperty, hget, hs, hcallee, hread, hcalled, hcleanb, hcleanc, hcalled', hread',
    hcleanc', hcleanb'⟩ := of_decide_eq_true h
  have hreachable : a.Reachable fun _ _ => True := .ofSources ha
  obtain ⟨hfirst, hsecond⟩ := value_getter hreachable [.label b] method.ref b c
  have hr : a.ReadsGetter b method.ref := ⟨hk, property, u, hread, hproperty, hu, hget, rfl⟩
  have hr' : (Question.askAll [.label b] ((value c).run a).2).ReadsGetter b method.ref :=
    ⟨hk, property, u, hread', hproperty, hu, hget, rfl⟩
  have hc : a.CallsMethod c method.ref := ⟨⟨20⟩, [], method, hs, hcallee, hcalled', rfl⟩
  have hc' : (Question.askAll [.label b] ((value b).run a).2).CallsMethod c method.ref :=
    ⟨⟨20⟩, [], method, hs, hcallee, hcalled, rfl⟩
  exact ⟨a, b, c, method.ref, ha, ⟨hr, hc', hcleanb, hcleanc, hfirst hr hc' hcleanb hcleanc⟩,
    hc, hr', hcleanc', hcleanb', hsecond hc hr' hcleanc' hcleanb'⟩

end Analysis

end SquirrelAnalyzer
