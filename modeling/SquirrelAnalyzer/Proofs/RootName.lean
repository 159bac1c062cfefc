import SquirrelAnalyzer.Proofs.Alias
import SquirrelAnalyzer.Proofs.Shadowing

namespace SquirrelAnalyzer

namespace Program

variable {p : Program} {u : SourceUnit} {b r : Branch} {name : String}

def rootCandidates? (p : Program) (unit : UnitId) (name : String) : Option Candidates :=
  ((p.unit? unit).bind fun u => scopedCandidates? (u.scope u.arena.root) name).or
    (p.importedCandidates? unit name)

theorem rootName?_eq (p : Program) (unit : UnitId) (name : String) :
    p.rootName? unit name = (p.rootCandidates? unit name).map Candidates.first := by
  have hchoice : p.choice none = Candidates.first := rfl
  have htop : p.topLevel? name none = fun u : SourceUnit =>
      (scopedCandidates? (u.scope u.arena.root) name).map Candidates.first := by
    funext u
    rw [topLevel?, scoped?_eq, hchoice]
  rw [rootName?, rootCandidates?, imported?_eq, hchoice, htop, Option.map_or, Option.map_bind]
  rfl

theorem choice_mem (p : Program) (arity : Option Nat) (c : Candidates) :
    p.choice arity c ∈ c.toList :=
  mem_of_variation? (p.variation?_eq arity c.toList)

theorem Selects.congr {c : Candidates} {P Q : Branch → Prop} {d : Branch}
    (h : ∀ x ∈ c.toList, (P x ↔ Q x)) (hs : Selects c P d) : Selects c Q d := by
  rcases hs with ⟨before, after, hlist, hd, hbefore⟩ | ⟨hd, hnone⟩
  · have hmem {x : Branch} (hx : x ∈ before) : x ∈ c.toList := hlist ▸ List.mem_append_left _ hx
    refine .inl ⟨before, after, hlist, (h d ?_).mp hd, fun x hx => ?_⟩
    · rw [hlist]
      exact List.mem_append_right _ List.mem_cons_self
    · exact mt (h x (hmem hx)).mpr (hbefore x hx)
  · exact .inr ⟨hd, fun x hx => mt (h x hx).mpr (hnone x hx)⟩

def TopLevel (p : Program) (u : SourceUnit) (b : Branch) : Prop :=
  ∀ id ∈ (p.anchor b).ancestors, id = u.arena.root ∨
    ∃ kind, u.arena.kind? id = some kind ∧ kind.isScope = false ∧ kind ≠ .classBody

instance (p : Program) (u : SourceUnit) (b : Branch) : Decidable (p.TopLevel u b) :=
  decidable_of_iff (∀ id ∈ (p.anchor b).ancestors, id = u.arena.root ∨
    (u.arena.kind? id).any (fun kind => !kind.isScope && kind ≠ .classBody) = true) (by
      simp [TopLevel, Option.any_eq_true])

/-- The branch ends at an access to the root table. -/
structure RootAccess (p : Program) (u : SourceUnit) (r : Branch) (name : String) : Prop where
  unit : p.unit? r.unit = some u
  shape : ∃ property, u.arena.shape? r.target = some (.rootExpression property) ∧
    u.arena.identifierName? property = some name

theorem RootAccess.refers (h : p.RootAccess u r name) (hp : p.Sound) (ha : p.Assembled) :
    p.Refers (p.rootName? r.unit name) (p.rootName? r.unit name) r.ref := by
  obtain ⟨property, hs, hname⟩ := h.shape
  obtain ⟨hunit, htarget⟩ := Branch.ref_eq_iff.mp (hp.ref_anchor r)
  have hu : p.unit? (p.anchor r).unit = some u := hunit ▸ h.unit
  have hs' : u.arena.shape? (p.anchor r).target = some (.rootExpression property) := htarget ▸ hs
  have hwritten : u.arena.isSynthetic r.target = false := ha.written_of_kind h.unit hs nofun nofun
  have hrefers := Refers.of_steps (r := r) (o := p.rootName? r.unit name) some hp
    (fun q => ⟨.rootExpression, by rw [kind?, shape?_of_unit? h.unit hs]; rfl, by cases q <;> rfl⟩)
    (fun x hx => anchor_of_written hp h.unit hx hwritten)
    (fun ask => by
      simp only [Resolve.definitionStep, hu, hs', hname, Resolve.bind_ofOption_some]
      rw [hunit])
    fun ask => by
      simp only [Resolve.valueStep, shape?_of_unit? hu hs', Resolve.bind_ofOption_some]
      rfl
  rwa [Option.bind_fun_some] at hrefers

theorem PlainName.refers (h : p.PlainName u b name) (hp : p.Sound) (ha : p.Assembled)
    {o : Option Branch} (hfound : ∀ ask, Resolve.lookupName p ask (p.anchor b) name
      (p.arity? (p.anchor b)) = Resolve.ofOption o) :
    p.Refers o (o.filter (·.target ≠ b.target)) b.ref := by
  obtain ⟨hunit, htarget⟩ := Branch.ref_eq_iff.mp (hp.ref_anchor b)
  have hs : p.shape? (p.anchor b) = some (.identifier name) :=
    shape?_of_unit? (hunit ▸ h.unit) (htarget ▸ h.shape)
  have hrefers := Refers.of_steps (r := b) (o := o)
    (fun d => if d.target = b.target then none else some d) hp
    (fun q => ⟨.identifier, by rw [kind?, shape?_of_unit? h.unit h.shape]; rfl, by cases q <;> rfl⟩)
    (fun x hx => anchor_of_written hp h.unit hx (h.written ha))
    (fun ask => (h.step_eq hp ha ask).trans (hfound ask))
    fun ask => by
      simp only [Resolve.valueStep, hs, Resolve.bind_ofOption_some, htarget]
      congr 1
      funext d
      split <;> rfl
  have hsource : (o.bind fun d => if d.target = b.target then none else some d) =
      o.filter (·.target ≠ b.target) := by
    cases o with
    | none => rfl
    | some d => by_cases hd : d.target = b.target <;> simp [hd, Option.filter]
  rwa [hsource] at hrefers

end Program

namespace Analysis.Reachable

variable {asked : Program → Branch → Prop} {a : Analysis} {id : UnitId} {u : SourceUnit}
  {b : Branch} {name : String}

theorem kind_of_root (h : a.Reachable asked) (hu : a.unit? id = some u) {s : ScopedName}
    (hs : s ∈ u.scope u.arena.root) : ∃ kind, a.program.kind? s.declaration = some kind ∧
      Query.isIndirect .definition kind = false ∧ kind ≠ .propertyDefinition := by
  have hfiled := h.filed hu
  have hunit : a.program.unit? s.declaration.unit = some u := by
    obtain ⟨hid, hsound⟩ := h.sound.unit id u hu
    rw [(hsound.of_mem_scope hs).1, hid]
    exact hu
  have hkind {t : Shape NodeId} (ht : u.arena.shape? s.declaration.target = some t) :
      a.program.kind? s.declaration = some t.kind := by
    rw [Program.kind?, Program.shape?_of_unit? hunit ht]
    rfl
  cases hfiled.files u.arena.root s hs with
  | @named t key ht hnamed =>
    refine ⟨_, hkind ht, ?_⟩
    cases t with
    | variableDeclarator | functionDeclaration | classDeclaration | enumDeclaration =>
      exact ⟨rfl, by simp [Shape.kind]⟩
    | _ => cases hnamed
  | rootSlot ht => exact ⟨_, hkind ht, rfl, by simp [Shape.kind]⟩
  | @bound t ht hbound =>
    -- the source file itself binds nothing
    have hroot := hfiled.root
    rw [u.arena.kind?_eq_map, ht] at hroot
    cases t with
    | sourceFile => cases hbound
    | _ => cases hroot

theorem of_mem_rootCandidates? (h : a.Reachable asked) {c : Candidates}
    (hc : a.program.rootCandidates? id name = some c) {d : Branch} (hd : d ∈ c.toList) :
    ¬a.program.HasSlot .definition d ∧ a.program.kind? d ≠ some .propertyDefinition := by
  have hlisted {i : UnitId} {v : SourceUnit} (hv : a.unit? i = some v)
      (hcv : Program.scopedCandidates? (v.scope v.arena.root) name = some c) :
      ¬a.program.HasSlot .definition d ∧ a.program.kind? d ≠ some .propertyDefinition := by
    rw [Candidates.toList_of_ofList? hcv] at hd
    obtain ⟨s, hs, rfl⟩ := List.mem_map.mp hd
    obtain ⟨kind, hk, hdirect, hne⟩ := h.kind_of_root hv (List.mem_filter.mp hs).1
    refine ⟨fun ⟨kind', hk', hi⟩ => ?_, fun he => hne (Option.some.inj (hk.symm.trans he))⟩
    obtain rfl := Option.some.inj (hk.symm.trans hk')
    rw [hdirect] at hi
    cases hi
  rcases Option.or_eq_some_iff.mp hc with hc | ⟨-, hc⟩
  · obtain ⟨v, hv, hcv⟩ := Option.bind_eq_some_iff.mp hc
    exact hlisted hv hcv
  · obtain ⟨v, hv, hcv⟩ := List.exists_of_findSome?_eq_some hc
    obtain ⟨i, -, hi⟩ := List.mem_filterMap.mp hv
    exact hlisted hi hcv

theorem root_mem_anchor (h : a.Reachable fun _ _ => True) (hb : a.program.PlainName u b name) :
    u.arena.root ∈ (a.program.anchor b).ancestors := by
  refine (h.sound.anchor_below hb.unit (hb.written h.assembled)).root_mem fun he => ?_
  have htarget : (a.program.anchor b).target = b.target :=
    congrArg NodeRef.node (h.sound.ref_anchor b)
  have hroot := (h.filed hb.unit).root
  rw [← he, htarget, u.arena.kind?_eq_map, hb.shape] at hroot
  cases hroot

theorem passes_topLevel (h : a.Reachable fun _ _ => True) (hb : a.program.PlainName u b name)
    (htop : a.program.TopLevel u b) {id : NodeId} (hid : id ∈ (a.program.anchor b).ancestors)
    (hne : id ≠ u.arena.root) : u.Passes name id := by
  obtain ⟨kind, hk, hscope, hbody⟩ := (htop id hid).resolve_left hne
  exact h.passes_of_kind hb.unit hk hscope hbody name

theorem passes_root (h : a.Reachable asked) (hu : a.unit? id = some u)
    (hlists : ¬u.Lists name u.arena.root) : u.Passes name u.arena.root := by
  refine ⟨hlists, ?_⟩
  rw [← Bool.not_eq_true]
  intro hbody
  have hroot := (h.filed hu).root
  rcases h.kind_of_isMemberBody hu hbody with hk | hk <;> cases hroot.symm.trans hk

theorem lookupName_topLevel (h : a.Reachable fun _ _ => True) (hb : a.program.PlainName u b name)
    (htop : a.program.TopLevel u b) (ask : Ask) (arity : Option Nat) :
    Resolve.lookupName a.program ask (a.program.anchor b) name arity =
      Resolve.ofOption ((a.program.rootCandidates? b.unit name).map (a.program.choice arity)) := by
  have hu : a.program.unit? b.unit = some u := hb.unit
  have hroot := (h.filed hb.unit).root
  rw [Program.rootCandidates?, hu, Option.bind_some]
  cases hc : Program.scopedCandidates? (u.scope u.arena.root) name with
  | some c =>
    obtain ⟨inner, outer, hpath, hfresh⟩ := List.eq_append_cons_of_mem (h.root_mem_anchor hb)
    obtain ⟨e, hplain⟩ := h.lookupName_plain hb hpath fun id hid =>
      h.passes_topLevel hb htop (hpath ▸ List.mem_append_left _ hid) fun he => hfresh (he ▸ hid)
    have hfound : a.program.scoped? (u.scope u.arena.root) name arity =
        some (a.program.choice arity c) := by
      rw [Program.scoped?_eq, hc, Option.map_some]
    rw [hplain, Resolve.lookupName_scoped hb.unit (by simp [hroot, Kind.isScope]) hfound,
      Option.some_or, Option.map_some]
  | none =>
    have hlists : ¬u.Lists name u.arena.root := by
      intro hlists
      obtain ⟨s, -, -, hfound⟩ := a.program.exists_scoped? arity hlists
      rw [Program.scoped?_eq, hc] at hfound
      cases hfound
    obtain ⟨e, hplain⟩ := h.lookupName_plain hb (List.append_nil _).symm fun id hid => by
      by_cases he : id = u.arena.root
      · exact he ▸ h.passes_root hb.unit hlists
      · exact h.passes_topLevel hb htop hid he
    rw [hplain, Resolve.lookupName_outermost hb.unit, Program.imported?_eq, Option.none_or]

end Analysis.Reachable

namespace Analysis

variable {a : Analysis} {u : SourceUnit} {b r : Branch} {name : String}

def ValuesAgree (a : Analysis) (b b' : Branch) : Prop :=
  ∃ walks walks' s s',
    Plan.Runs a.program (.ask .value b .done) ⟨{}, a.memo⟩ walks ((value b).run a).1 s ∧
    Plan.Runs a.program (.ask .value b' .done) ⟨{}, a.memo⟩ walks' ((value b').run a).1 s' ∧
    ((∀ w ∈ walks ++ walks', w.depth < a.program.config.maxDepth) →
      ((value b).run a).1 = ((value b').run a).1) ∧
    (2 * a.program.size < a.program.config.maxDepth →
      ∀ w ∈ walks ++ walks', w.depth < a.program.config.maxDepth)

theorem Reachable.valuesAgree (h : a.Reachable fun _ _ => True) {d b' : Branch}
    (hb : a.program.Alias d b.ref) (hb' : a.program.Alias d b'.ref)
    (hd : ¬a.program.Alias d d.ref) : a.ValuesAgree b b' := by
  obtain ⟨walks, walks', s, s', hruns, hruns', heq⟩ := hb.value_eq hb' hd h.grown
  refine ⟨walks, walks', s, s', hruns, hruns', heq, fun hlimit w hw => ?_⟩
  have hbounded : w.Bounded a.program := by
    rcases List.mem_append.mp hw with hw | hw
    · exact hruns.bounded (Walk.Bounded.of_visited rfl rfl) w hw
    · exact hruns'.bounded (Walk.Bounded.of_visited rfl rfl) w hw
  exact Nat.lt_of_le_of_lt hbounded.depth_le_frameCount hlimit

theorem Reachable.answer_depth_zero (h : a.Reachable fun _ _ => True)
    (hd : a.program.config.maxDepth = 0) {q : Query} (hslot : a.program.HasSlot q b) :
    ((a.program.answer q b).run.run ⟨{}, a.memo⟩).1 = none := by
  rw [Option.eq_none_iff_forall_ne_some]
  intro x hx
  have hpos := h.keeps a.program.answer_deep hx b (congrArg Branch.ref hslot.subject_eq).symm hslot
  exact Nat.ne_of_gt hpos hd

theorem Reachable.definition_eq_none (h : a.Reachable fun _ _ => True) {source : Option Branch}
    (hb : a.program.Refers none source b.ref) :
    ((a.program.answer .definition b).run.run ⟨{}, a.memo⟩).1 = none := by
  rcases Nat.eq_zero_or_pos a.program.config.maxDepth with hd | hd
  · exact h.answer_depth_zero hd (hb.slot rfl)
  · exact hb.run_definition rfl h.grown hd

/-- A plain name at the top level and an access to the root table are defined by one of the same
candidates. The access takes the first one, however it is called, and so does the name unless it is
called with arguments: then it takes the first one that has room for them. If both take the same,
they have the same value as long as no walk gets as deep as it may, except that the name has none if
its definition, in another unit, has the number of the name. -/
theorem definition_rootName (h : a.Reachable fun _ _ => True) (hb : a.program.PlainName u b name)
    (htop : a.program.TopLevel u b) (hr : a.program.RootAccess u r name) :
    (∀ c, a.program.rootCandidates? b.unit name = some c → 0 < a.program.config.maxDepth →
      ((definition r).run a).1 = some c.first ∧ ∃ d, ((definition b).run a).1 = some d ∧
        (∀ arguments, a.program.CalledWith b arguments → arguments ≠ [] →
          Program.Selects c (a.program.Takes arguments.length) d) ∧
        ((∀ arguments, a.program.CalledWith b arguments → arguments = []) → d = c.first) ∧
        (d.target = b.target → d.unit ≠ b.unit ∧ ((value b).run a).1 = none) ∧
        (d.target ≠ b.target → d = c.first → a.ValuesAgree b r)) ∧
    (a.program.rootCandidates? b.unit name = none ∨ a.program.config.maxDepth = 0 →
      ((definition b).run a).1 = none ∧ ((definition r).run a).1 = none ∧
        ((value b).run a).1 = none ∧ ((value r).run a).1 = none) := by
  have hunit : r.unit = b.unit :=
    (h.sound.unit _ u hr.unit).1.symm.trans (h.sound.unit _ u hb.unit).1
  have hroot := hr.refers h.sound h.assembled
  have hname := hb.refers h.sound h.assembled fun ask => h.lookupName_topLevel hb htop ask _
  rw [hunit, Program.rootName?_eq] at hroot
  refine ⟨fun c hc hd => ?_, fun hnone => ?_⟩
  · have hlisted {x : Branch} (hx : x ∈ c.toList) := h.of_mem_rootCandidates? hc hx
    rw [hc, Option.map_some] at hroot hname
    refine ⟨hroot.run_definition rfl h.grown hd, _, hname.run_definition rfl h.grown hd, ?_,
      Program.first_of_not_called h.sound c, fun ht => ⟨fun hu => ?_, ?_⟩, fun ht hfirst => ?_⟩
    · intro arguments hcall hne
      exact (Program.selects_of_called h.sound c arguments hcall hne).congr fun x hx =>
        and_iff_left (hlisted hx).2
    · exact (hlisted (a.program.choice_mem _ c)).1 (hname.slot (Branch.ref_eq_iff.mpr ⟨hu, ht⟩))
    · rw [Option.filter_some, if_neg (by simp [ht])] at hname
      exact hname.run_value_none rfl h.grown
    · rw [Option.filter_some, if_pos (by simp [ht]), hfirst] at hname
      exact h.valuesAgree hname hroot fun hself =>
        (hlisted List.mem_cons_self).1 (hself.slot rfl)
  · rcases hnone with hnone | hd
    · rw [hnone, Option.map_none] at hroot hname
      exact ⟨h.definition_eq_none hname, h.definition_eq_none hroot,
        hname.run_value_none rfl h.grown, hroot.run_value_none rfl h.grown⟩
    · exact ⟨h.answer_depth_zero hd (hname.slot rfl), h.answer_depth_zero hd (hroot.slot rfl),
        h.answer_depth_zero hd (hname.slot rfl), h.answer_depth_zero hd (hroot.slot rfl)⟩

theorem definition_rootName_imported : ∃ a u b r d,
    ofSources {} (Imports.ofList [(⟨1⟩, ⟨0⟩)]) ["local x = 1;", "x; ::x;"] = .ok a ∧
    a.program.PlainName u b "x" ∧ a.program.TopLevel u b ∧ a.program.RootAccess u r "x" ∧
    d.unit ≠ b.unit ∧ ((definition b).run a).1 = some d ∧ ((definition r).run a).1 = some d ∧
    ((value b).run a).1 = ((value r).run a).1 := by
  let b : Branch := ⟨⟨1⟩, ⟨0⟩, [⟨1⟩, ⟨5⟩]⟩
  let r : Branch := ⟨⟨1⟩, ⟨3⟩, [⟨4⟩, ⟨5⟩]⟩
  let d : Branch := ⟨⟨0⟩, ⟨2⟩, [⟨3⟩, ⟨4⟩]⟩
  have hbuilt : (ofSources {} (Imports.ofList [(⟨1⟩, ⟨0⟩)])
      ["local x = 1;", "x; ::x;"]).toOption.any (fun a => (a.unit? b.unit).any fun u => decide (
        (a.program.anchor b = b ∧ u.arena.shape? b.target = some (.identifier "x") ∧
          u.declaration? b.target = none ∧
          u.arena.shape? ⟨1⟩ = some (.expressionStatement b.target) ∧ a.program.TopLevel u b) ∧
        (u.arena.shape? r.target = some (.rootExpression ⟨2⟩) ∧
          u.arena.identifierName? ⟨2⟩ = some "x") ∧
        a.program.rootCandidates? b.unit "x" = some ⟨d, []⟩ ∧
        2 * a.program.size < a.program.config.maxDepth)) = true := by
    decide +kernel
  obtain ⟨a, ha, h⟩ := exists_ok hbuilt
  obtain ⟨u, hu, h⟩ := (Option.any_eq_true _ _).mp h
  obtain ⟨⟨hanchor, hs, hundeclared, hparent, htop⟩, ⟨hs', hname⟩, hc, hlimit⟩ :=
    of_decide_eq_true h
  have hb : a.program.PlainName u b "x" := .of_parent hanchor hu hs hundeclared rfl hparent rfl
  have hr : a.program.RootAccess u r "x" := ⟨hu, ⟨2⟩, hs', hname⟩
  obtain ⟨hroot, e, hplain, -, hfirst, -, hvalues⟩ := (definition_rootName (.ofSources ha) hb htop
    hr).1 ⟨d, []⟩ hc (Nat.zero_lt_of_lt hlimit)
  obtain rfl : e = d := hfirst fun arguments ⟨call, hcall, hshape⟩ => by
    rw [hanchor] at hcall
    cases hcall
    have hstatement : a.program.shape? ⟨⟨1⟩, ⟨1⟩, [⟨5⟩]⟩ = some (.expressionStatement b.target) :=
      Program.shape?_of_unit? hu hparent
    cases hstatement.symm.trans hshape
  obtain ⟨walks, walks', -, -, -, -, hagree, hdepth⟩ := hvalues (by decide) rfl
  exact ⟨a, u, b, r, d, ha, hb, htop, hr, by decide, hplain, hroot, hagree (hdepth hlimit)⟩

theorem definition_rootName_called : ∃ a u b r arguments arguments',
    ofSources {} Imports.none
      ["function f(a) {} function f(a, b) {} f(1, 2); ::f(1, 2);"] = .ok a ∧
    a.program.PlainName u b "f" ∧ a.program.RootAccess u r "f" ∧
    a.program.TopLevel u b ∧ a.program.TopLevel u r ∧
    a.program.CalledWith b arguments ∧ a.program.CalledWith r arguments' ∧
    arguments.length = arguments'.length ∧
    ((definition b).run a).1 ≠ ((definition r).run a).1 := by
  let b : Branch := ⟨⟨0⟩, ⟨9⟩, [⟨12⟩, ⟨13⟩, ⟨20⟩]⟩
  let r : Branch := ⟨⟨0⟩, ⟨15⟩, [⟨18⟩, ⟨19⟩, ⟨20⟩]⟩
  let call : Branch := ⟨⟨0⟩, ⟨12⟩, [⟨13⟩, ⟨20⟩]⟩
  let call' : Branch := ⟨⟨0⟩, ⟨18⟩, [⟨19⟩, ⟨20⟩]⟩
  have hbuilt : (ofSources {} Imports.none
      ["function f(a) {} function f(a, b) {} f(1, 2); ::f(1, 2);"]).toOption.any
        (fun a => (a.unit? b.unit).any fun u => decide (
          (a.program.anchor b = b ∧ u.arena.shape? b.target = some (.identifier "f") ∧
            u.declaration? b.target = none ∧
            u.arena.shape? ⟨12⟩ = some (.callExpression b.target [⟨10⟩, ⟨11⟩])) ∧
          (a.program.anchor r = r ∧ u.arena.shape? r.target = some (.rootExpression ⟨14⟩) ∧
            u.arena.identifierName? ⟨14⟩ = some "f" ∧
            u.arena.shape? ⟨18⟩ = some (.callExpression r.target [⟨16⟩, ⟨17⟩])) ∧
          a.program.TopLevel u b ∧ a.program.TopLevel u r ∧
          ((definition b).run a).1 ≠ ((definition r).run a).1)) = true := by
    decide +kernel
  obtain ⟨a, ha, h⟩ := exists_ok hbuilt
  obtain ⟨u, hu, h⟩ := (Option.any_eq_true _ _).mp h
  obtain ⟨⟨hanchor, hs, hundeclared, hparent⟩, ⟨hanchor', hs', hname, hparent'⟩, htop, htop',
    hne⟩ := of_decide_eq_true h
  exact ⟨a, u, b, r, [⟨10⟩, ⟨11⟩], [⟨16⟩, ⟨17⟩], ha,
    .of_parent hanchor hu hs hundeclared rfl hparent rfl, ⟨hu, ⟨14⟩, hs', hname⟩, htop, htop',
    ⟨call, by rw [hanchor]; rfl, Program.shape?_of_unit? hu hparent⟩,
    ⟨call', by rw [hanchor']; rfl, Program.shape?_of_unit? hu hparent'⟩, rfl, hne⟩

end Analysis

end SquirrelAnalyzer
