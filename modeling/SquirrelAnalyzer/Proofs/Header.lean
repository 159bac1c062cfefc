import SquirrelAnalyzer.Proofs.Owner
import SquirrelAnalyzer.Proofs.Shadowing

namespace SquirrelAnalyzer

def Kind.rebinds (k : Kind) : Bool := k.isClass || k.isFunction || k == .tableExpression

namespace Analysis.Reachable

variable {asked : Program → Branch → Prop} {a : Analysis} {id : UnitId} {u : SourceUnit}
  {b : Branch} {e m f body : NodeId} {params inner outer : List NodeId} {s : Shape NodeId}
  {name : String}

theorem passes_superclass (h : a.Reachable asked) (hu : a.unit? id = some u)
    (hs : u.arena.shape? m = some s) (hparts : s.classParts? = some (some e, body))
    (hbelow : u.arena.Below u.arena.rootBranch b)
    (hpath : b.target :: b.ancestors = inner ++ e :: m :: outer)
    (hnested : ∀ x ∈ inner ++ [e], ∀ kind, u.arena.kind? x = some kind → kind.rebinds = false)
    (name : String) : ∀ x ∈ inner ++ [e] ++ [m], u.Passes name x := by
  obtain ⟨I, hI⟩ := h.exists_inlines hu
  have hkind {x : NodeId} {t : Shape NodeId} (hx : x ∈ inner ++ [e])
      (ht : u.arena.shape? x = some t) : t.kind.isFunction = false ∧ t.kind.isClass = false := by
    have hfree := hnested x hx t.kind (by rw [u.arena.kind?_eq_map, ht, Option.map_some])
    simp only [Kind.rebinds, Bool.or_eq_false_iff] at hfree
    exact ⟨hfree.1.2, hfree.1.1⟩
  have he : e ∈ s.header ∧ s.kind.isScope = false ∧ s.kind ≠ .classBody := by
    cases s with
    | classDeclaration | classExpression =>
      cases hparts
      exact ⟨by simp [Shape.header], rfl, by simp [Shape.kind]⟩
    | _ => cases hparts
  have halong : ∀ x ∈ inner ++ [e], I x ∧ u.arena.kind? x ≠ some .classBody := by
    refine hbelow.along hpath (hI.header hs he.1) fun x hx hIx c hc => ?_
    obtain ⟨t, ht, hc⟩ := Arena.exists_shape?_of_child hc
    obtain ⟨hfunction, hclass⟩ := hkind (List.mem_of_mem_tail hx) ht
    obtain ⟨hIc, hbody⟩ := hI.child hIx.1 ht hfunction hc
    refine ⟨hIc, fun hk => ?_⟩
    rw [hbody hk] at hclass
    cases hclass
  intro x hx
  rcases List.mem_append.mp hx with hx | hx
  · obtain ⟨hIx, hne⟩ := halong x hx
    obtain ⟨kind, hk⟩ := Arena.exists_kind? (hI.known hIx)
    have hshape := hk
    rw [u.arena.kind?_eq_map] at hshape
    obtain ⟨t, ht, rfl⟩ := Option.map_eq_some_iff.mp hshape
    refine h.passes_of_kind hu hk ?_ (fun hbody => hne (hbody ▸ hk)) name
    rw [← Bool.not_eq_true]
    intro hscope
    have hfunction := (hI.kind hIx ht).2 hscope
    rw [(hkind hx ht).1] at hfunction
    cases hfunction
  · obtain rfl := List.mem_singleton.mp hx
    have hk : u.arena.kind? x = some s.kind := by rw [u.arena.kind?_eq_map, hs, Option.map_some]
    exact h.passes_of_kind hu hk he.2.1 he.2.2 name

theorem passes_qualifier (h : a.Reachable asked) (hu : a.unit? id = some u)
    (hs : u.arena.shape? m = some (.functionDeclaration (some e) f params body))
    (hb : u.arena.Below u.arena.rootBranch b) (hwritten : u.arena.isSynthetic b.target = false)
    (hpath : b.target :: b.ancestors = inner ++ e :: m :: outer) :
    ∀ x ∈ inner ++ [e], u.Passes name x := by
  intro x hx
  rcases h.kind_of_qualifier hu hs hb hwritten hpath x hx with hk | hk
  · exact h.passes_of_kind hu hk rfl nofun name
  · exact h.passes_of_kind hu hk rfl nofun name

end Analysis.Reachable

namespace Resolve

variable {p : Program} {ask : Ask} {u : SourceUnit} {b : Branch} {m e t : NodeId}
  {ids inner outer : List NodeId}

theorem thisAmong_passes (hu : p.unit? b.unit = some u) (hpath : t :: ids = inner ++ e :: outer)
    (hnested : ∀ x ∈ inner ++ [e], ∀ kind, u.arena.kind? x = some kind → kind.rebinds = false)
    (hknown : ∀ x ∈ ids, ∃ s, u.arena.shape? x = some s) :
    thisAmong p ask (Branch.enclosing.go b t ids) =
      thisAmong p ask (Branch.enclosing.go b e outer) := by
  induction inner generalizing t ids with
  | nil =>
    obtain ⟨rfl, rfl⟩ := List.cons.inj hpath
    rfl
  | cons x inner ih =>
    obtain ⟨rfl, hids⟩ : t = x ∧ ids = inner ++ e :: outer := List.cons.inj hpath
    obtain ⟨y, ids, rfl⟩ : ∃ y ys, ids = y :: ys := List.exists_cons_of_ne_nil (by simp [hids])
    have hy : y ∈ inner ++ [e] := by
      cases inner with
      | nil => exact (List.cons.inj hids).1 ▸ List.mem_cons_self
      | cons z inner => exact (List.cons.inj hids).1 ▸ List.mem_cons_self
    obtain ⟨s, hs⟩ := hknown y List.mem_cons_self
    have houter : p.shape? ⟨b.unit, y, ids⟩ = some s := Program.shape?_of_unit? hu hs
    have hfree := hnested y (List.mem_cons_of_mem _ hy) s.kind
      (by rw [u.arena.kind?_eq_map, hs, Option.map_some])
    rw [← ih hids (fun z hz => hnested z (List.mem_cons_of_mem _ hz))
      fun z hz => hknown z (List.mem_cons_of_mem _ hz), Branch.enclosing.go, thisAmong, houter]
    cases s <;> first | rfl | cases hfree

theorem thisAmong_class (hu : p.unit? b.unit = some u) {s : Shape NodeId}
    (hs : u.arena.shape? m = some s) (hclass : s.kind.isClass = true) :
    thisAmong p ask (Branch.enclosing.go b e (m :: outer)) =
      ofOption (some (.instanceOf ⟨b.unit, m, outer⟩)) := by
  have houter : p.shape? ⟨b.unit, m, outer⟩ = some s := Program.shape?_of_unit? hu hs
  rw [Branch.enclosing.go, thisAmong, houter]
  exact if_pos hclass

end Resolve

namespace Program

variable {p : Program} {u : SourceUnit} {b : Branch} {m : NodeId} {name : String}

def definitionFrom (p : Program) (place : Branch) (name : String) (b : Branch) :
    Resolving (Option Branch) := do
  return (← Resolve.guarded p.config.maxDepth ⟨.definition, b.ref⟩
    (Resolve.lookupName p (p.answerWithin p.frameCount) place name (p.arity? (p.anchor b)))).1

theorem PlainName.run_definitionFrom (h : p.PlainName u b name) (hp : p.Sound) (ha : p.Assembled)
    {m : Memo} (hm : p.Grown m) (hdeep : m.Meets p.deep) {place : Branch}
    (hplace : ∀ ask arity, Resolve.lookupName p ask (p.anchor b) name arity =
      Resolve.lookupName p ask place name arity) :
    ((p.answer .definition b).run.run ⟨{}, m⟩).1 =
      ((p.definitionFrom place name b).run ⟨{}, m⟩).1 := by
  have hlooks := h.looksUp hp ha
  rw [run_answer_eq_guarded hm hdeep (hlooks.hasSlot hp)
    fun b' hr ask => hlooks.stepAt_congr hp ha hr ask]
  show ((Resolve.guarded _ _ (Resolve.definitionStep p _ (p.anchor b))).run _).1.1 = _
  rw [h.step_eq hp ha, hplace]
  rfl

end Program

namespace Analysis

variable {a : Analysis} {u : SourceUnit} {b : Branch} {m e : NodeId} {s : Shape NodeId}
  {inner outer : List NodeId}

def definitionFrom (place : Branch) (name : String) (b : Branch) : Asking (Option Branch) :=
  walk fun p => p.definitionFrom place name b

namespace Reachable

variable {name : String} {f body : NodeId} {params : List NodeId}
  (h : a.Reachable fun _ _ => True)
  (hpath : b.target :: (a.program.anchor b).ancestors = inner ++ e :: m :: outer)

include h hpath

theorem definition_of_passed (hb : a.program.PlainName u b name)
    (hpasses : ∀ x ∈ inner ++ [e] ++ [m], u.Passes name x) :
    ((definition b).run a).1 = ((definitionFrom ⟨b.unit, m, outer⟩ name b).run a).1 := by
  obtain ⟨hunit, htarget⟩ := Branch.ref_eq_iff.mp (h.sound.ref_anchor b)
  have hwhole : (a.program.anchor b).target :: (a.program.anchor b).ancestors =
      inner ++ [e] ++ m :: outer := by
    rw [htarget, hpath, List.append_assoc]
    rfl
  refine hb.run_definitionFrom h.sound h.assembled h.grown (h.meets a.program.answer_deep)
    fun ask arity => ?_
  rw [← hunit]
  exact Resolve.lookupName_passes (hunit ▸ hb.unit) hwhole hpasses

theorem definition_of_parameter (hd : 0 < a.program.config.maxDepth)
    (hb : a.program.PlainName u b name)
    (hs : u.arena.shape? m = some (.functionDeclaration (some e) f params body))
    (hpasses : ∀ x ∈ inner ++ [e], u.Passes name x) (hlists : u.Lists name m) :
    ∃ s ∈ u.scope m, s.name = name ∧ ((definition b).run a).1 = some s.declaration := by
  obtain ⟨hunit, htarget⟩ := Branch.ref_eq_iff.mp (h.sound.ref_anchor b)
  have hu : a.program.unit? (a.program.anchor b).unit = some u := hunit ▸ hb.unit
  obtain ⟨s, hmem, hname, hfound⟩ : ∃ s ∈ u.scope m, s.name = name ∧ ∀ ask,
      Resolve.lookupName a.program ask ⟨(a.program.anchor b).unit, e, m :: outer⟩ name
        (a.program.arity? (a.program.anchor b)) = Resolve.ofOption (some s.declaration) := by
    refine Resolve.lookupName_lists hu ?_ hlists
    rw [u.arena.kind?_eq_map, hs]
    rfl
  refine ⟨s, hmem, hname, hb.run_definition h.sound h.assembled h.grown hd fun ask => ?_⟩
  rw [Resolve.lookupName_passes hu (htarget ▸ hpath) hpasses, hfound]

theorem this_of_class (hd : 0 < a.program.config.maxDepth) (hu : a.unit? b.unit = some u)
    (hb : u.arena.shape? b.target = some .thisExpression)
    (hs : u.arena.shape? m = some s) (hclass : s.kind.isClass = true)
    (hnested : ∀ x ∈ inner ++ [e], ∀ kind, u.arena.kind? x = some kind → kind.rebinds = false) :
    ((definition b).run a).1 = some ⟨b.unit, m, outer⟩ ∧
      ((value b).run a).1 = some (.instanceOf ⟨b.unit, m, outer⟩) := by
  obtain ⟨hunit, htarget⟩ := Branch.ref_eq_iff.mp (h.sound.ref_anchor b)
  have hwritten : u.arena.isSynthetic b.target = false :=
    h.assembled.written_of_kind hu hb nofun nofun
  have hv : a.program.unit? (a.program.anchor b).unit = some u := hunit ▸ hu
  have hbelow := h.sound.anchor_below hu hwritten
  have hknown : ∀ x ∈ (a.program.anchor b).ancestors, ∃ t, u.arena.shape? x = some t := by
    intro x hx
    obtain ⟨pre, c, post, -, hc⟩ := hbelow.exists_part hx
    obtain ⟨t, ht, -⟩ := Arena.exists_shape?_of_child hc
    exact ⟨t, ht⟩
  have hthis (ask : Ask) : Resolve.thisValue a.program ask (a.program.anchor b) =
      Resolve.ofOption (some (.instanceOf ⟨b.unit, m, outer⟩)) := by
    rw [Resolve.thisValue, Branch.enclosing,
      Resolve.thisAmong_passes hv (htarget ▸ hpath) hnested hknown,
      Resolve.thisAmong_class hv hs hclass, hunit]
  have hstep {q : Query} {o : Option q.Answer}
      (hfinds : ∀ ask, a.program.stepAt ask q (a.program.anchor b) = Resolve.ofOption o) :
      ((a.program.answer q b).run.run ⟨{}, a.memo⟩).1 = o := by
    have hslot : a.program.HasSlot q b := by
      refine ⟨.thisExpression, ?_, by cases q <;> rfl⟩
      rw [Program.kind?, Program.shape?_of_unit? hu hb]
      rfl
    refine Program.run_answer_immediate h.grown hslot hd (P := fun found => found = o)
      fun b' hr => ⟨o, rfl, fun ask => ?_⟩
    rw [Program.step_eq_stepAt, Program.anchor_of_written h.sound hu hr hwritten, hfinds]
  have hshape : u.arena.shape? (a.program.anchor b).target = some .thisExpression := htarget ▸ hb
  constructor
  · refine hstep (q := .definition) fun ask => ?_
    show Resolve.definitionStep a.program ask (a.program.anchor b) = _
    simp only [Resolve.definitionStep, hv, hshape, Resolve.bind_ofOption_some, hthis]
    rfl
  · refine hstep (q := .value) fun ask => ?_
    show Resolve.valueStep a.program ask (a.program.anchor b) = _
    simp only [Resolve.valueStep, Program.shape?_of_unit? hv hshape, Resolve.bind_ofOption_some,
      hthis]

omit hpath in
theorem passes_function (hu : a.unit? b.unit = some u)
    (hs : u.arena.shape? m = some (.functionDeclaration (some e) f params body))
    (hfree : ∀ q ∈ params, u.arena.parameterText? q ≠ some name) : u.Passes name m := by
  have hk : u.arena.kind? m = some .functionDeclaration := by rw [u.arena.kind?_eq_map, hs]; rfl
  constructor
  · rintro ⟨s, hmem, rfl⟩
    obtain ⟨hbound, htext⟩ := h.bound_of_scope hu hs hmem
    exact hfree _ hbound htext
  · rw [← Bool.not_eq_true]
    intro hbody
    rcases h.kind_of_isMemberBody hu hbody with hclass | hblock
    · rw [hk] at hclass
      cases hclass
    · rw [hk] at hblock
      cases hblock

theorem plainName_of_parameter
    (hs : u.arena.shape? m = some (.functionDeclaration (some e) f params body))
    (hu : a.unit? b.unit = some u) (hk : a.program.kind? b = some .identifier) {d : Branch}
    (hd : ((definition b).run a).1 = some d) (hdu : d.unit = b.unit) (hparam : d.target ∈ params) :
    ∃ name, a.program.PlainName u b name ∧ u.arena.parameterText? d.target = some name := by
  have hdefinitions := Program.definitions_kept h.sound h.listsDeclarations
  have hsubject : (a.program.subject .definition b).ref = b.ref :=
    congrArg Branch.ref (Program.subject_of_indirect hk rfl)
  have hdeclaring : a.program.Declaring d :=
    h.keeps (Program.answer_meets hdefinitions) hd b .identifier hsubject.symm hk rfl
  have hv : a.program.unit? d.unit = some u := hdu ▸ hu
  obtain ⟨kind, hkd, hbindable⟩ :
      ∃ kind, a.program.kind? d = some kind ∧ kind.isBindable = true := by
    rw [Program.kind?_of_unit? hv]
    obtain ⟨kind, hkd, hbindable | rfl⟩ := h.kind_boundName hu hs hparam
    · exact ⟨kind, hkd, hbindable⟩
    · -- what stands for further arguments declares nothing
      have hrest : u.arena.shape? d.target = some .restElement := by
        rw [u.arena.kind?_eq_map] at hkd
        obtain ⟨t, ht, hkt⟩ := Option.map_eq_some_iff.mp hkd
        cases t with
        | restElement => exact ht
        | _ => cases hkt
      obtain ⟨v, hv', ⟨t, ht, hdeclaration⟩ | ⟨⟨⟨⟨name, hname⟩, -⟩, -⟩, -⟩⟩ := hdeclaring
      · obtain rfl := Option.some.inj (hv.symm.trans hv')
        obtain rfl := Option.some.inj (hrest.symm.trans ht)
        cases hdeclaration
      · obtain rfl := Option.some.inj (hv.symm.trans hv')
        rw [hrest] at hname
        cases hname
  rcases h.captured hk hd kind hkd hbindable with
    ⟨-, -, v, hv, hdeclares⟩ | ⟨v, name, hb, -, htext, -⟩
  · obtain rfl := Option.some.inj (hu.symm.trans hv)
    exact absurd hparam (h.not_mem_params_of_qualifier hu hs hpath hdeclares)
  · obtain rfl := Option.some.inj (hu.symm.trans hb.unit)
    exact ⟨name, hb, htext⟩

end Reachable

/-- A name in the superclass of a class, outside of any class, table or function in it, is defined
as if it stood outside the class. `this` is an object of the class there. A name in the owner that a
function is named through is defined as if it stood outside the function, unless a parameter has
that name: then it is defined by such a parameter. No other name there is defined by a parameter. -/
theorem definition_header (h : a.Reachable fun _ _ => True) (hu : a.unit? b.unit = some u)
    (hs : u.arena.shape? m = some s)
    (hpath : b.target :: (a.program.anchor b).ancestors = inner ++ e :: m :: outer) :
    (∀ body, s.classParts? = some (some e, body) →
      (∀ x ∈ inner ++ [e], ∀ kind, u.arena.kind? x = some kind → kind.rebinds = false) →
      (∀ name, a.program.PlainName u b name →
        ((definition b).run a).1 = ((definitionFrom ⟨b.unit, m, outer⟩ name b).run a).1) ∧
      (u.arena.shape? b.target = some .thisExpression → 0 < a.program.config.maxDepth →
        ((definition b).run a).1 = some ⟨b.unit, m, outer⟩ ∧
          ((value b).run a).1 = some (.instanceOf ⟨b.unit, m, outer⟩))) ∧
    ∀ f params body, s = .functionDeclaration (some e) f params body →
      (∀ name, a.program.PlainName u b name →
        ((∀ q ∈ params, u.arena.parameterText? q ≠ some name) →
          ((definition b).run a).1 = ((definitionFrom ⟨b.unit, m, outer⟩ name b).run a).1) ∧
        (∀ q ∈ params, u.arena.parameterText? q = some name → 0 < a.program.config.maxDepth →
          ∃ d, ((definition b).run a).1 = some d ∧ d.unit = b.unit ∧ d.target ∈ params ∧
            u.arena.parameterText? d.target = some name)) ∧
      ∀ d, a.program.kind? b = some .identifier → ((definition b).run a).1 = some d →
        d.unit = b.unit → d.target ∈ params →
        ∃ name, a.program.PlainName u b name ∧ u.arena.parameterText? d.target = some name := by
  obtain ⟨hunit, htarget⟩ := Branch.ref_eq_iff.mp (h.sound.ref_anchor b)
  have hwhole : (a.program.anchor b).target :: (a.program.anchor b).ancestors =
      inner ++ e :: m :: outer := by rw [htarget, hpath]
  have hbelow {name : String} (hb : a.program.PlainName u b name) :=
    h.sound.anchor_below hu (hb.written h.assembled)
  constructor
  · intro body hparts hnested
    refine ⟨fun name hb => ?_, fun hthis hd => ?_⟩
    · exact h.definition_of_passed hpath hb
        (h.passes_superclass hu hs hparts (hbelow hb) hwhole hnested name)
    · have hclass : s.kind.isClass = true := by
        cases s <;> first | rfl | cases hparts
      exact h.this_of_class hpath hd hu hthis hs hclass hnested
  · rintro f params body rfl
    refine ⟨fun name hb => ?_, fun d hk hd hdu hparam =>
      h.plainName_of_parameter hpath hs hu hk hd hdu hparam⟩
    have hpasses : ∀ x ∈ inner ++ [e], u.Passes name x :=
      h.passes_qualifier hu hs (hbelow hb) (htarget ▸ hb.written h.assembled) hwhole
    refine ⟨fun hfree => ?_, fun q hq htext hd => ?_⟩
    · refine h.definition_of_passed hpath hb fun x hx => ?_
      rcases List.mem_append.mp hx with hx | hx
      · exact hpasses x hx
      · exact List.mem_singleton.mp hx ▸ h.passes_function hu hs hfree
    · have hlists := h.lists_parameter hu hs hq htext
      obtain ⟨t, ht, hname, hfound⟩ := h.definition_of_parameter hpath hd hb hs hpasses hlists
      obtain ⟨hbound, htext⟩ := h.bound_of_scope hu hs ht
      have hdu := ((h.sound.unit _ u hu).2.of_mem_scope ht).1.trans (h.sound.unit _ u hu).1
      exact ⟨_, hfound, hdu, hbound, hname ▸ htext⟩

theorem definition_header_outside : ∃ a u b c d,
    ofSources {} Imports.none
      ["class A \x7b\x7d class C extends g(A) \x7b\x7d function A::B::f(b) \x7b\x7d"] = .ok a ∧
    a.unit? ⟨0⟩ = some u ∧ a.program.PlainName u b "A" ∧ a.program.PlainName u c "A" ∧
    ((definition b).run a).1 = some d ∧
    ((definitionFrom ⟨⟨0⟩, ⟨8⟩, [⟨16⟩]⟩ "A" b).run a).1 = some d ∧
    ((definition c).run a).1 = ((definitionFrom ⟨⟨0⟩, ⟨15⟩, [⟨16⟩]⟩ "A" c).run a).1 := by
  let b : Branch := ⟨⟨0⟩, ⟨5⟩, [⟨6⟩, ⟨8⟩, ⟨16⟩]⟩
  let c : Branch := ⟨⟨0⟩, ⟨9⟩, [⟨11⟩, ⟨15⟩, ⟨16⟩]⟩
  let d : Branch := ⟨⟨0⟩, ⟨2⟩, [⟨16⟩]⟩
  have hbuilt : (ofSources {} Imports.none
      ["class A \x7b\x7d class C extends g(A) \x7b\x7d function A::B::f(b) \x7b\x7d"]).toOption.any
        (fun a => (a.unit? ⟨0⟩).any fun u => decide (
          (a.program.anchor b = b ∧ u.arena.shape? b.target = some (.identifier "A") ∧
            u.declaration? b.target = none ∧
            u.arena.shape? ⟨6⟩ = some (.callExpression ⟨4⟩ [b.target]) ∧
            u.arena.shape? ⟨8⟩ = some (.classDeclaration none ⟨3⟩ (some ⟨6⟩) ⟨7⟩) ∧
            u.arena.kind? ⟨5⟩ = some .identifier ∧ u.arena.kind? ⟨6⟩ = some .callExpression ∧
            ((definition b).run a).1 = some d) ∧
          a.program.anchor c = c ∧ u.arena.shape? c.target = some (.identifier "A") ∧
            u.declaration? c.target = none ∧
            u.arena.shape? ⟨11⟩ = some (.memberExpression c.target ⟨10⟩ false) ∧
            u.arena.shape? ⟨15⟩ = some (.functionDeclaration (some ⟨11⟩) ⟨12⟩ [⟨13⟩] ⟨14⟩) ∧
            u.arena.parameterText? ⟨13⟩ = some "b")) = true := by
    decide +kernel
  obtain ⟨a, ha, h⟩ := exists_ok hbuilt
  obtain ⟨u, hu, h⟩ := (Option.any_eq_true _ _).mp h
  obtain ⟨⟨hanchor, hs, hundeclared, hparent, hclass, hk, hcall, hd⟩, hanchor', hs', hundeclared',
    hparent', hfunction, htext⟩ := of_decide_eq_true h
  have hb : a.program.PlainName u b "A" := .of_parent hanchor hu hs hundeclared rfl hparent rfl
  have hc : a.program.PlainName u c "A" := .of_parent hanchor' hu hs' hundeclared' rfl hparent' rfl
  have hreachable : a.Reachable fun _ _ => True := .ofSources ha
  have hpath : b.target :: (a.program.anchor b).ancestors = [⟨5⟩] ++ ⟨6⟩ :: ⟨8⟩ :: [⟨16⟩] := by
    rw [hanchor]
    rfl
  have hpath' : c.target :: (a.program.anchor c).ancestors = [⟨9⟩] ++ ⟨11⟩ :: ⟨15⟩ :: [⟨16⟩] := by
    rw [hanchor']
    rfl
  have hnested : ∀ x ∈ [(⟨5⟩ : NodeId)] ++ [⟨6⟩], ∀ kind, u.arena.kind? x = some kind →
      kind.rebinds = false := by
    simp [hk, hcall, Kind.rebinds, Kind.isClass, Kind.isFunction]
  have houtside := ((definition_header hreachable hu hclass hpath).1 ⟨7⟩ rfl hnested).1 "A" hb
  refine ⟨a, u, b, c, d, ha, hu, hb, hc, hd, houtside ▸ hd, ?_⟩
  exact (((definition_header hreachable hu hfunction hpath').2 _ _ _ rfl).1 "A" hc).1
    (by simp [htext])

theorem definition_header_inside : ∃ a u b c d e q,
    ofSources {} Imports.none
      ["class A \x7b\x7d class C extends this.B \x7b\x7d function A::f(A) \x7b\x7d"] = .ok a ∧
    a.unit? ⟨0⟩ = some u ∧ u.arena.shape? b.target = some .thisExpression ∧
    u.arena.shape? ⟨6⟩ = some (.memberExpression b.target ⟨5⟩ false) ∧
    u.arena.shape? ⟨8⟩ = some (.classDeclaration none ⟨3⟩ (some ⟨6⟩) ⟨7⟩) ∧
    ((definition b).run a).1 = some d ∧ d.target = ⟨8⟩ ∧
    u.arena.shape? ⟨13⟩ = some (.functionDeclaration (some c.target) ⟨10⟩ [q] ⟨12⟩) ∧
    ((definition c).run a).1 = some e ∧ e.target = q ∧
    ((definitionFrom ⟨⟨0⟩, ⟨13⟩, [⟨14⟩]⟩ "A" c).run a).1 = some ⟨⟨0⟩, ⟨2⟩, [⟨14⟩]⟩ := by
  let b : Branch := ⟨⟨0⟩, ⟨4⟩, [⟨6⟩, ⟨8⟩, ⟨14⟩]⟩
  let c : Branch := ⟨⟨0⟩, ⟨9⟩, [⟨13⟩, ⟨14⟩]⟩
  let d : Branch := ⟨⟨0⟩, ⟨8⟩, [⟨14⟩]⟩
  let e : Branch := ⟨⟨0⟩, ⟨11⟩, [⟨13⟩, ⟨14⟩]⟩
  have hbuilt : (ofSources {} Imports.none
      ["class A \x7b\x7d class C extends this.B \x7b\x7d function A::f(A) \x7b\x7d"]).toOption.any
        (fun a => (a.unit? ⟨0⟩).any fun u => decide (
          (u.arena.shape? b.target = some .thisExpression ∧
            u.arena.shape? ⟨6⟩ = some (.memberExpression b.target ⟨5⟩ false) ∧
            u.arena.shape? ⟨8⟩ = some (.classDeclaration none ⟨3⟩ (some ⟨6⟩) ⟨7⟩) ∧
            ((definition b).run a).1 = some d) ∧
          u.arena.shape? ⟨13⟩ = some (.functionDeclaration (some c.target) ⟨10⟩ [e.target] ⟨12⟩) ∧
            ((definition c).run a).1 = some e ∧
            ((definitionFrom ⟨⟨0⟩, ⟨13⟩, [⟨14⟩]⟩ "A" c).run a).1 =
              some ⟨⟨0⟩, ⟨2⟩, [⟨14⟩]⟩)) = true := by
    decide +kernel
  obtain ⟨a, ha, h⟩ := exists_ok hbuilt
  obtain ⟨u, hu, h⟩ := (Option.any_eq_true _ _).mp h
  obtain ⟨⟨hthis, hmember, hclass, hd⟩, hfunction, he, hfrom⟩ := of_decide_eq_true h
  exact ⟨a, u, b, c, d, e, _, ha, hu, hthis, hmember, hclass, hd, rfl, hfunction, he, rfl, hfrom⟩

end Analysis

end SquirrelAnalyzer
