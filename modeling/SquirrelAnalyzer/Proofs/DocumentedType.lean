import SquirrelAnalyzer.Proofs.Sequel
import SquirrelAnalyzer.Proofs.Trail

namespace SquirrelAnalyzer

def Program.Returns (p : Program) (f : Branch) (type : String) : Prop :=
  ∃ u kind, p.unit? f.unit = some u ∧ u.arena.kind? f.target = some kind ∧
    kind.isFunction = true ∧ u.facts.returnOverrides.get? f.target = some type

theorem Program.Returns.written {p : Program} {f : Branch} {type : String} {u : SourceUnit}
    (h : p.Returns f type) (ha : p.Assembled) (hu : p.unit? f.unit = some u) :
    u.arena.isSynthetic f.target = false := by
  obtain ⟨v, kind, hv, hk, hfunction, -⟩ := h
  obtain rfl := Option.some.inj (hu.symm.trans hv)
  rw [u.arena.kind?_eq_map] at hk
  obtain ⟨s, hs, rfl⟩ := Option.map_eq_some_iff.mp hk
  refine ha.written_of_kind hu hs ?_ ?_
  · intro hname
    rw [hname] at hfunction
    cases hfunction
  · intro hproperty
    rw [hproperty] at hfunction
    cases hfunction

namespace Resolve

variable {p : Program} {ask : Ask} {b c f : Branch} {type : String}

theorem returnValue_documented (h : p.Returns f type) :
    returnValue p ask f = (lookupType p ask f type <|> pure (.nominal type)) := by
  obtain ⟨u, kind, hu, hk, -, htype⟩ := h
  rw [u.arena.kind?_eq_map] at hk
  obtain ⟨s, hs, -⟩ := Option.map_eq_some_iff.mp hk
  unfold returnValue
  rw [hu, bind_ofOption_some, hs, bind_ofOption_some, htype]

theorem run_returnValue_documented (h : p.Returns f type) (s : Progress) :
    (returnValue p ask f).run.run s =
      (((lookupType p ask f type).run.run s).1.or (some (.nominal type)),
        ((lookupType p ask f type).run.run s).2) := by
  rw [returnValue_documented h, OptionT.run_orElse, Option.elimM, StateT.run_bind]
  cases hs : (lookupType p ask f type).run.run s with | mk o s'
  cases o <;> rfl

end Resolve

namespace Analysis

def typeAt (context : Branch) (type : String) : Asking (Option Value) :=
  walk fun p => (Resolve.lookupType p p.answer context type).run

def documentedValue (b : Branch) : Asking (Option Value) :=
  walk fun p => (Resolve.documentedValue p p.answer b).run

/-- What the node of a branch stands for is what a function returns, which is found as the value of
another branch: the callee of a call, or the getter of a property known from documentation. -/
inductive Invokes (a : Analysis) (b : Branch) : Branch → Branch → Prop
  | call {callee : NodeId} {arguments : List NodeId} {f : Branch} {made : Option Branch}
      (hs : a.program.shape? b = some (.callExpression callee arguments))
      (hf : ((value ((a.program.anchor b).child callee)).run a).1 = some (.node f false made)) :
      Invokes a b ((a.program.anchor b).child callee) f
  | getter {u : SourceUnit} {key getter : NodeId} {c f : Branch} {v : Value}
      (hs : a.program.shape? b = some (.metaProperty key)) (hu : a.program.unit? b.unit = some u)
      (hget : (u.facts.accessors.get? b.target).bind (·.getter) = some getter)
      (hto : u.arena.branchTo getter = some c) (hv : ((value c).run a).1 = some v)
      (hf : v.branch? = some f) : Invokes a b c f

variable {a : Analysis} {asked : Program → Branch → Prop} {b c f : Branch} {type : String}

theorem Invokes.step (hi : a.Invokes b c f) (h : a.Reachable asked) {kind : Kind}
    (hk : a.program.kind? f = some kind) (hfunction : kind.isFunction = true) {b' : Branch}
    (href : b'.ref = b.ref) (ask : Ask) :
    a.program.HasSlot .value b ∧ ∃ (v : Value) (next : Value → Resolve Value),
      ((value c).run a).1 = some v ∧
      a.program.step ask .value b' = ask .value c >>= next ∧
      next v = Resolve.returnValue a.program ask f := by
  cases hi with
  | @call callee arguments f made hs hf =>
    obtain ⟨u, hu, hus⟩ := Program.unit?_of_shape? hs
    have hwritten := h.assembled.written_of_kind hu hus nofun nofun
    have hanchor := Program.anchor_of_written h.sound hu href hwritten
    have hshape := (Program.shape?_congr (h.sound.ref_anchor b)).trans hs
    have hstep : a.program.step ask .value b' =
        Resolve.callValue a.program ask (a.program.anchor b) callee := by
      rw [Program.step, hanchor, Resolve.valueStep, hshape]
      rfl
    rw [Resolve.callValue_eq] at hstep
    exact ⟨⟨.callExpression, by rw [Program.kind?, hs]; rfl, rfl⟩, _, _, hf, hstep,
      Resolve.calledValue_function hk hfunction⟩
  | @getter u key getter c f v hs hu hget hto hv hf =>
    obtain ⟨hunit, htarget⟩ := Branch.ref_eq_iff.mp ((h.sound.ref_anchor b').trans href)
    have hshape : a.program.shape? (a.program.anchor b') = some (.metaProperty key) := by
      rw [Program.shape?_congr ((h.sound.ref_anchor b').trans href), hs]
    have hstep : a.program.step ask .value b' = (do
        let function ← ask .value c
        Resolve.returnValue a.program ask (← Resolve.ofOption function.branch?)) := by
      rw [Program.step, Program.valueStep_metaProperty hshape,
        Program.metaValue_getter (hunit ▸ hu) (htarget ▸ hget), hto, Resolve.bind_ofOption_some]
    refine ⟨⟨.metaProperty, by rw [Program.kind?, hs]; rfl, rfl⟩, _, _, hv, hstep, ?_⟩
    rw [hf, Resolve.bind_ofOption_some]

theorem Invokes.returned (hi : a.Invokes b c f) (h : a.Reachable asked) {kind : Kind}
    (hk : a.program.kind? f = some kind) (hfunction : kind.isFunction = true)
    (hclean : a.Clean .value b) :
    ∃ m, ((value c).run a).2.memo.Gives
      (Resolve.returnValue a.program a.program.answer f).run ((value b).run a).1 m := by
  have hslot := (hi.step h hk hfunction rfl a.program.answer).1
  cases hrun : (a.program.answer .value b).run.run ⟨{}, a.memo⟩ with | mk r s
  have haborted : s.walk.aborted = false := by
    unfold Clean at hclean
    rwa [hrun] at hclean
  have hvalue : ((value b).run a).1 = r := congrArg Prod.fst hrun
  obtain ⟨b', m', href, hgives, -⟩ := Program.gives_step h.grown hslot hrun haborted
  obtain ⟨-, v, next, hv, hstep, hnext⟩ := hi.step h hk hfunction href a.program.answer
  obtain ⟨t, ht⟩ : ∃ t : Plan (Option Value),
      (Resolve.returnValue a.program a.program.answer f).run = t.run a.program.answer :=
    (Resolve.returnValue_finds a.program.closed_true fun _ => trivial).exists_plan _
  rw [hstep] at hgives
  have hplan : (next v).run = t.run a.program.answer := by rw [hnext, ht]
  obtain ⟨m₁, hfirst, hsecond⟩ := hgives.of_bind hv hplan
  have hm₁ : ((value c).run a).2.memo = m₁ := congrArg (fun x => x.2.memo) hfirst
  rw [hnext] at hsecond
  exact ⟨m', hvalue ▸ hm₁ ▸ hsecond⟩

theorem Invokes.gives (hi : a.Invokes b c f) (h : a.Reachable asked)
    (hr : a.program.Returns f type) (hclean : a.Clean .value b) :
    ∃ o m, ((value c).run a).2.memo.Gives
        (Resolve.lookupType a.program a.program.answer f type).run o m ∧
      ((value b).run a).1 = o.or (some (.nominal type)) := by
  obtain ⟨u, kind, hu, hkind, hfunction, -⟩ := id hr
  have hk : a.program.kind? f = some kind := by rw [Program.kind?_of_unit? hu, hkind]
  obtain ⟨m, hgives⟩ := hi.returned h hk hfunction hclean
  unfold Memo.Gives at hgives
  rw [Resolve.run_returnValue_documented hr] at hgives
  obtain ⟨ho, hs⟩ := Prod.mk.inj hgives
  exact ⟨_, m, Prod.ext rfl hs, ho.symm⟩

theorem Invokes.trail (hi : a.Invokes b c f) (h : a.Reachable Program.Trail) :
    a.program.Trail f := by
  have hvalue {c : Branch} {v : Value} (hc : a.program.Trail c)
      (hv : ((value c).run a).1 = some v) : Query.Holds a.program.Trail .value v :=
    h.trail_ask (q := .value c) hc v hv
  cases hi with
  | call hs hf =>
    obtain ⟨u, hu, hus⟩ := Program.unit?_of_shape? hs
    have hwritten := h.assembled.written_of_kind hu hus nofun nofun
    have hanchor := h.sound.trail_of_below hu (h.sound.anchor_below hu hwritten)
    have hshape := (Program.shape?_congr (h.sound.ref_anchor b)).trans hs
    refine (hvalue (h.closed_trail.childOf hanchor hshape ?_) hf).1
    simp [Shape.operands, Shape.children, Shape.kind, Kind.fields, Shape.field]
  | @getter u key getter c f v hs hu hget hto hv hf =>
    have hholds := hvalue (h.sound.trail_of_below hu (Arena.branchTo_below hto)) hv
    cases v with
    | node f' i made =>
      cases hf
      exact hholds.1
    | nominal name => cases hf

theorem Invokes.value_eq (hi : a.Invokes b c f) (h : a.Reachable asked)
    (hr : a.program.Returns f type) (hclean : a.Clean .value b) (hw : a.program.Written)
    {b' c' : Branch} (hi' : a.Invokes b' c' f) (hclean' : a.Clean .value b') :
    ((value b').run a).1 = ((value b).run a).1 := by
  obtain ⟨o, m, hgives, hvalue⟩ := hi.gives h hr hclean
  obtain ⟨o', m', hgives', hvalue'⟩ := hi'.gives h hr hclean'
  obtain ⟨t, hlookup⟩ : ∃ t : Plan (Option Value),
      (Resolve.lookupType a.program a.program.answer f type).run = t.run a.program.answer :=
    (Resolve.lookupType_finds a.program.closed_true fun _ => trivial).exists_plan _
  have hgrown (c : Branch) : a.program.Grown ((value c).run a).2.memo :=
    grown_ask (q := .value c) h.grown
  rw [hlookup] at hgives hgives'
  obtain ⟨n, hn⟩ := hgives.settled (h.sound.rooted hw) (hgrown c)
  obtain ⟨n', hn'⟩ := hgives'.settled (h.sound.rooted hw) (hgrown c')
  have hmono {k : Nat} (hk : k ≤ max n n') {x : Option Value}
      (hx : t.eval (a.program.settled k) = some x) :
      t.eval (a.program.settled (max n n')) = some x :=
    Plan.eval_mono (fun _ _ _ => Program.settled_mono hk) hx
  obtain rfl := Option.some.inj ((hmono (Nat.le_max_left n n') hn).symm.trans
    (hmono (Nat.le_max_right n n') hn'))
  rw [hvalue, hvalue']

theorem run_documentedValue {d : Branch} (hd : ((definition b).run a).1 = some d)
    (htype : (a.unit? d.unit).bind (·.facts.typeOverrides.get? d.target) = some type) :
    ((documentedValue b).run a).1 = ((typeAt d type).run ((definition b).run a).2).1 := by
  have htype : (a.program.unit? d.unit).bind (·.facts.typeOverrides.get? d.target) = some type :=
    htype
  have hrest (ask : Ask) :
      (Resolve.ofOption ((a.program.unit? d.unit).bind (·.facts.typeOverrides.get? d.target)) >>=
        fun type => Resolve.lookupType a.program ask d type : Resolve Value) =
        Resolve.lookupType a.program ask d type := by
    rw [htype, Resolve.bind_ofOption_some]
  have hlookup : Finds (fun _ => True) True (fun ask => Resolve.lookupType a.program ask d type)
      (Query.Holds (fun _ => True) .value) :=
    Resolve.lookupType_finds a.program.closed_true fun _ => trivial
  have hrun := run_walk_some (F := fun p ask => ask .definition b)
    (G := fun p ask d => do
      let type ← Resolve.ofOption ((p.unit? d.unit).bind (·.facts.typeOverrides.get? d.target))
      Resolve.lookupType p ask d type)
    (Finds.ask .definition fun _ => trivial) hd ((funext hrest).symm ▸ hlookup)
  unfold documentedValue Resolve.documentedValue
  refine (congrArg Prod.fst hrun).trans ?_
  exact congrArg (fun x : Resolve Value => (x.run.run { memo := ((definition b).run a).2.memo }).1)
    (hrest a.program.answer)

/-- A type that is documented for a function or for another declaration is looked up from the branch
by which the declaration is reached. That is in place, so it is the same for all ways to reach it,
unless the branch leads through a declaration that is recorded under an owner of its own unit. -/
theorem value_documented (h : a.Reachable Program.Trail) :
    (∀ b c f type, a.Invokes b c f → a.program.Returns f type → a.Clean .value b →
      (a.program.Placed f ∨ a.program.Detours f) ∧
      ((value b).run a).1 =
        (((typeAt f type).run ((value c).run a).2).1).or (some (.nominal type)) ∧
      (a.program.Written → ∀ b' c' f', a.Invokes b' c' f' → f'.ref = f.ref →
        a.program.Placed f → a.program.Placed f' → a.Clean .value b' →
        ((value b').run a).1 = ((value b).run a).1)) ∧
    ∀ b d type, a.program.Trail b → ((definition b).run a).1 = some d →
      (a.unit? d.unit).bind (·.facts.typeOverrides.get? d.target) = some type →
      (a.program.Placed d ∨ a.program.Detours d) ∧
      ((documentedValue b).run a).1 = ((typeAt d type).run ((definition b).run a).2).1 := by
  refine ⟨fun b c f type hi hr hclean => ⟨?_, ?_, ?_⟩, fun b d type hb hd htype => ⟨?_, ?_⟩⟩
  · exact h.placed_or_detours (hi.trail h)
  · obtain ⟨o, m, hgives, hvalue⟩ := hi.gives h hr hclean
    rw [hvalue]
    exact congrArg (fun x => x.1.or (some (.nominal type))) hgives.symm
  · rintro hw b' c' f' hi' href ⟨u, hu, -, hplaced⟩ ⟨u', hu', -, hplaced'⟩ hclean'
    obtain ⟨hunit, htarget⟩ := Branch.ref_eq_iff.mp href
    rw [hunit] at hu'
    obtain rfl := Option.some.inj (hu.symm.trans hu')
    have hwritten := hr.written h.assembled hu
    have hf := hplaced hwritten
    rw [← htarget, hplaced' (htarget.symm ▸ hwritten)] at hf
    obtain rfl := Option.some.inj hf
    exact hi.value_eq h hr hclean hw hi' hclean'
  · exact h.placed_or_detours (h.trail_ask (q := .definition b) hb d hd)
  · exact run_documentedValue hd htype

theorem value_documented_class : ∃ (a : Analysis) (b c f x d : Branch), ofSources {} Imports.none
      ["class T {} class A { /** @returns {T} */ function m() {} } A.m();",
        "/** @type {T} */ local x = null; x;"] = .ok a ∧
    a.Reachable Program.Trail ∧ a.Invokes b c f ∧ a.program.Returns f "T" ∧ a.Clean .value b ∧
    a.program.Trail x ∧ ((definition x).run a).1 = some d ∧
    (a.unit? d.unit).bind (·.facts.typeOverrides.get? d.target) = some "T" ∧
    ((a.program.Placed f ∨ a.program.Detours f) ∧
      ((value b).run a).1 =
        (((typeAt f "T").run ((value c).run a).2).1).or (some (.nominal "T")) ∧
      (a.program.Written → ∀ b' c' f', a.Invokes b' c' f' → f'.ref = f.ref →
        a.program.Placed f → a.program.Placed f' → a.Clean .value b' →
        ((value b').run a).1 = ((value b).run a).1)) ∧
    (a.program.Placed d ∨ a.program.Detours d) ∧
    ((documentedValue x).run a).1 = ((typeAt d "T").run ((definition x).run a).2).1 := by
  let b : Branch := ⟨⟨0⟩, ⟨13⟩, [⟨14⟩, ⟨15⟩]⟩
  let f : Branch := ⟨⟨0⟩, ⟨6⟩, [⟨7⟩, ⟨8⟩, ⟨9⟩, ⟨15⟩]⟩
  let x : Branch := ⟨⟨1⟩, ⟨4⟩, [⟨5⟩, ⟨6⟩]⟩
  let d : Branch := ⟨⟨1⟩, ⟨2⟩, [⟨3⟩, ⟨6⟩]⟩
  have hbuilt : (ofSources {} Imports.none
      ["class T {} class A { /** @returns {T} */ function m() {} } A.m();",
        "/** @type {T} */ local x = null; x;"]).toOption.any (fun a =>
      (a.unit? ⟨0⟩).any fun u => (a.unit? ⟨1⟩).any fun v => decide (
        a.program.anchor b = b ∧
        a.program.shape? b = some (.callExpression ⟨12⟩ []) ∧
        ((value (b.child ⟨12⟩)).run a).1 = some (.node f false none) ∧
        u.arena.kind? ⟨6⟩ = some .functionExpression ∧
        u.facts.returnOverrides.get? ⟨6⟩ = some "T" ∧ a.Clean .value b ∧
        v.arena.branchTo ⟨4⟩ = some x ∧ ((definition x).run a).1 = some d ∧
        v.facts.typeOverrides.get? ⟨2⟩ = some "T")) = true := by decide +kernel
  obtain ⟨a, ha, h⟩ := exists_ok hbuilt
  obtain ⟨u, hu, h⟩ := (Option.any_eq_true _ _).mp h
  obtain ⟨v, hv, h⟩ := (Option.any_eq_true _ _).mp h
  obtain ⟨hanchor, hs, hf, hk, hreturns, hclean, hto, hd, htype⟩ := of_decide_eq_true h
  have hreachable : a.Reachable Program.Trail := .ofSources ha
  have hi := Invokes.call hs (hanchor.symm ▸ hf)
  have hr : a.program.Returns f "T" := ⟨u, _, hu, hk, rfl, hreturns⟩
  have hx : a.program.Trail x := hreachable.sound.trail_of_below hv (Arena.branchTo_below hto)
  have htype : (a.unit? d.unit).bind (·.facts.typeOverrides.get? d.target) = some "T" :=
    Option.bind_eq_some_iff.mpr ⟨v, hv, htype⟩
  obtain ⟨hfunctions, hdeclarations⟩ := value_documented hreachable
  exact ⟨a, b, _, f, x, d, ha, hreachable, hi, hr, hclean, hx, hd, htype,
    hfunctions b _ f "T" hi hr hclean, hdeclarations x d "T" hx hd htype⟩

theorem value_documented_owner : ∃ (a : Analysis) (b c f g t : Branch),
    ofSources {} Imports.none
      ["class A {} function f() { class T {} /** @returns {T} */ function A::m() {} } A.m();"] =
        .ok a ∧
    a.Invokes b c f ∧ a.program.Returns f "T" ∧ a.Clean .value b ∧
    g.ref = f.ref ∧ a.program.Placed g ∧ ((value b).run a).1 = some (.nominal "T") ∧
    ((typeAt g "T").run a).1 = some (.instanceOf t) := by
  let b : Branch := ⟨⟨0⟩, ⟨16⟩, [⟨17⟩, ⟨18⟩]⟩
  let f : Branch := ⟨⟨0⟩, ⟨10⟩, [⟨2⟩, ⟨18⟩]⟩
  let g : Branch := ⟨⟨0⟩, ⟨10⟩, [⟨11⟩, ⟨12⟩, ⟨18⟩]⟩
  let t : Branch := ⟨⟨0⟩, ⟨6⟩, [⟨11⟩, ⟨12⟩, ⟨18⟩]⟩
  have hbuilt : (ofSources {} Imports.none
      ["class A {} function f() { class T {} /** @returns {T} */ function A::m() {} } A.m();"]
      ).toOption.any (fun a => (a.unit? ⟨0⟩).any fun u => decide (
        a.program.anchor b = b ∧
        a.program.shape? b = some (.callExpression ⟨15⟩ []) ∧
        ((value (b.child ⟨15⟩)).run a).1 = some (.node f false none) ∧
        u.arena.kind? ⟨10⟩ = some .functionDeclaration ∧
        u.facts.returnOverrides.get? ⟨10⟩ = some "T" ∧ a.Clean .value b ∧
        u.isInPlace g = true ∧ u.arena.branchTo ⟨10⟩ = some g ∧
        ((value b).run a).1 = some (.nominal "T") ∧
        ((typeAt g "T").run a).1 = some (.instanceOf t))) = true := by decide +kernel
  obtain ⟨a, ha, h⟩ := exists_ok hbuilt
  obtain ⟨u, hu, h⟩ := (Option.any_eq_true _ _).mp h
  obtain ⟨hanchor, hs, hf, hk, hreturns, hclean, hplace, hto, hvalue, hclass⟩ := of_decide_eq_true h
  have hi := Invokes.call hs (hanchor.symm ▸ hf)
  exact ⟨a, b, _, f, g, t, ha, hi, ⟨u, _, hu, hk, rfl, hreturns⟩, hclean, rfl,
    ⟨u, hu, hplace, fun _ => hto⟩, hvalue, hclass⟩

end Analysis

end SquirrelAnalyzer
