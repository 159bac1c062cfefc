import SquirrelAnalyzer.Proofs.Inline

namespace SquirrelAnalyzer

namespace Program

variable {p : Program} {u v : SourceUnit} {b : Branch} {name : String} {arity : Option Nat}

def Sees (p : Program) (u : SourceUnit) (b : Branch) (name : String) (scope : NodeId) : Prop :=
  u.Lists name scope ∧ ∃ inner outer, (p.anchor b).ancestors = inner ++ scope :: outer ∧
    ∀ id ∈ inner, u.Passes name id

def FirstImport (p : Program) (unit : UnitId) (name : String) (id : UnitId) (v : SourceUnit) :
    Prop :=
  p.unit? id = some v ∧ v.Lists name v.arena.root ∧
    ∃ before after, p.imports.of unit = before ++ id :: after ∧
      ∀ id ∈ before, ∀ w, p.unit? id = some w → ¬w.Lists name w.arena.root

theorem lists_of_topLevel? {d : Branch} (h : p.topLevel? name arity v = some d) :
    ∃ s ∈ v.scope v.arena.root, s.name = name ∧ s.declaration = d := mem_of_scoped? h

theorem topLevel?_eq_none (h : p.topLevel? name arity v = none) : ¬v.Lists name v.arena.root := by
  intro hlists
  obtain ⟨s, -, -, hfound⟩ := p.exists_scoped? arity hlists
  rw [topLevel?, hfound] at h
  cases h

theorem imported?_eq_findSome? (unit : UnitId) : p.imported? unit name arity =
    (p.imports.of unit).findSome? fun id => (p.unit? id).bind (p.topLevel? name arity) := by
  rw [imported?, ← List.head?_filterMap, List.filterMap_filterMap, List.head?_filterMap]

theorem not_lists_of_imported? {unit : UnitId} (h : p.imported? unit name arity = none) :
    ∀ id ∈ p.imports.of unit, ∀ v, p.unit? id = some v → ¬v.Lists name v.arena.root := by
  rw [imported?_eq_findSome?, List.findSome?_eq_none_iff] at h
  intro id hid v hv
  have hnone := h id hid
  rw [hv, Option.bind_some] at hnone
  exact topLevel?_eq_none hnone

theorem firstImport_of_imported? {unit : UnitId} {d : Branch}
    (h : p.imported? unit name arity = some d) : ∃ id v, p.FirstImport unit name id v ∧
      ∃ s ∈ v.scope v.arena.root, s.name = name ∧ s.declaration = d := by
  rw [imported?_eq_findSome?, List.findSome?_eq_some_iff] at h
  obtain ⟨before, id, after, himports, hfound, hbefore⟩ := h
  obtain ⟨v, hv, hfound⟩ := Option.bind_eq_some_iff.mp hfound
  obtain ⟨s, hs, hname, hd⟩ := lists_of_topLevel? hfound
  refine ⟨id, v, ⟨hv, ⟨s, hs, hname⟩, before, after, himports, ?_⟩, s, hs, hname, hd⟩
  intro i hi w hw
  have hnone := hbefore i hi
  rw [hw, Option.bind_some] at hnone
  exact topLevel?_eq_none hnone

theorem PlainName.run_definition (h : p.PlainName u b name) (hp : p.Sound) (ha : p.Assembled)
    {m : Memo} (hm : p.Grown m) (hd : 0 < p.config.maxDepth) {o : Option Branch}
    (hfound : ∀ ask, Resolve.lookupName p ask (p.anchor b) name (p.arity? (p.anchor b)) =
      Resolve.ofOption o) : ((p.answer .definition b).run.run ⟨{}, m⟩).1 = o := by
  refine run_answer_immediate hm ((h.looksUp hp ha).hasSlot hp) hd (P := fun found => found = o)
    fun b' hr => ⟨o, rfl, fun ask => ?_⟩
  show Resolve.definitionStep p ask (p.anchor b') = _
  rw [anchor_of_written hp h.unit hr (h.written ha), h.step_eq hp ha, hfound]

end Program

namespace Analysis

variable {a : Analysis} {u : SourceUnit} {b : Branch} {name : String}

namespace Reachable

variable (h : a.Reachable fun _ _ => True) (hb : a.program.PlainName u b name)

include h hb

theorem lookupName_plain {inner outer : List NodeId}
    (hpath : (a.program.anchor b).ancestors = inner ++ outer)
    (hpasses : ∀ id ∈ inner, u.Passes name id) :
    ∃ e, ∀ ask arity, Resolve.lookupName a.program ask (a.program.anchor b) name arity =
      Resolve.lookupName a.program ask ⟨b.unit, e, outer⟩ name arity := by
  obtain ⟨hunit, htarget⟩ := Branch.ref_eq_iff.mp (h.sound.ref_anchor b)
  have hu : a.program.unit? (a.program.anchor b).unit = some u := hunit ▸ hb.unit
  have hself : u.Passes name b.target := h.passes_name hb.unit hb.shape name
  obtain ⟨pre, e, he⟩ : ∃ pre e, b.target :: inner = pre ++ [e] :=
    ⟨_, _, (List.dropLast_append_getLast (List.cons_ne_nil _ _)).symm⟩
  have hwhole : (a.program.anchor b).target :: (a.program.anchor b).ancestors =
      pre ++ e :: outer := by
    rw [htarget, hpath, ← List.cons_append, he, List.append_assoc]
    rfl
  refine ⟨e, fun ask arity => ?_⟩
  rw [← hunit]
  refine Resolve.lookupName_passes hu hwhole fun id hid => ?_
  rw [← he] at hid
  rcases List.mem_cons.mp hid with rfl | hid
  · exact hself
  · exact hpasses id hid

theorem definition_of_sees (hd : 0 < a.program.config.maxDepth) {scope : NodeId}
    (hsees : a.program.Sees u b name scope) :
    ∃ s ∈ u.scope scope, s.name = name ∧ ((definition b).run a).1 = some s.declaration := by
  obtain ⟨hlists, inner, outer, hpath, hpasses⟩ := hsees
  obtain ⟨e, hplain⟩ := h.lookupName_plain hb hpath hpasses
  obtain ⟨kind, hkind, hscope⟩ := (h.filed hb.unit).isScope_of_lists hlists
  obtain ⟨s, hs, hname, hfound⟩ : ∃ s ∈ u.scope scope, s.name = name ∧ ∀ ask,
      Resolve.lookupName a.program ask ⟨b.unit, e, scope :: outer⟩ name
        (a.program.arity? (a.program.anchor b)) = Resolve.ofOption (some s.declaration) :=
    Resolve.lookupName_lists hb.unit (by simpa [hkind] using hscope) hlists
  exact ⟨s, hs, hname, hb.run_definition h.sound h.assembled h.grown hd fun ask =>
    (hplain ask _).trans (hfound ask)⟩

theorem definition_of_passes (hd : 0 < a.program.config.maxDepth)
    (hpasses : ∀ id ∈ (a.program.anchor b).ancestors, u.Passes name id) :
    ((definition b).run a).1 =
      a.program.imported? b.unit name (a.program.arity? (a.program.anchor b)) := by
  obtain ⟨e, hplain⟩ := h.lookupName_plain hb (List.append_nil _).symm hpasses
  exact hb.run_definition h.sound h.assembled h.grown hd fun ask =>
    (hplain ask _).trans (Resolve.lookupName_outermost (b := b) hb.unit e)

end Reachable

/-- A plain name is defined by what the nearest scope around it lists under the name, if no body in
which members are seen lies in between. If nothing around it lists the name or shows members, it is
defined at the top level of the first directly imported unit that lists the name, or nowhere. What
scopes list is filed where it belongs. -/
theorem definition_lexical (h : a.Reachable fun _ _ => True) (hd : 0 < a.program.config.maxDepth)
    (hb : a.program.PlainName u b name) :
    (∀ scope, a.program.Sees u b name scope →
      ∃ s ∈ u.scope scope, s.name = name ∧ ((definition b).run a).1 = some s.declaration) ∧
    ((∀ id ∈ (a.program.anchor b).ancestors, u.Passes name id) →
      (((definition b).run a).1 = none ∧ ∀ id ∈ a.program.imports.of b.unit, ∀ v,
        a.unit? id = some v → ¬v.Lists name v.arena.root) ∨
      ∃ id v, a.program.FirstImport b.unit name id v ∧ ∃ s ∈ v.scope v.arena.root, s.name = name ∧
        s.declaration.unit = id ∧ ((definition b).run a).1 = some s.declaration) ∧
    ∀ id v, a.unit? id = some v → ∀ scope, ∀ s ∈ v.scope scope,
      v.arena.Below v.arena.rootBranch s.declaration ∧
        v.arena.Files scope s.name s.declaration := by
  refine ⟨fun scope => h.definition_of_sees hb hd, fun hpasses => ?_, fun id v hv scope s hs => ?_⟩
  · rw [h.definition_of_passes hb hd hpasses]
    cases hfound : a.program.imported? b.unit name (a.program.arity? (a.program.anchor b)) with
    | none => exact .inl ⟨rfl, Program.not_lists_of_imported? hfound⟩
    | some d =>
      obtain ⟨id, v, hfirst, s, hs, hname, rfl⟩ := Program.firstImport_of_imported? hfound
      obtain ⟨hid, hsound⟩ := h.sound.unit id v hfirst.1
      exact .inr ⟨id, v, hfirst, s, hs, hname, (hsound.of_mem_scope hs).1.trans hid, rfl⟩
  · have hfiled := h.filed hv
    exact ⟨hfiled.below scope s hs, hfiled.files scope s hs⟩

theorem definition_lexical_block : ∃ a u b c scope,
    ofSources {} (Imports.ofList [(⟨0⟩, ⟨1⟩), (⟨1⟩, ⟨2⟩)])
      ["local x = 1; \x7b local x = 2; x; \x7d y;", "y <- 1;", "y <- 2;"] = .ok a ∧
    a.program.PlainName u b "x" ∧ a.program.Sees u b "x" scope ∧ scope ≠ u.arena.root ∧
    (∃ s ∈ u.scope scope, s.name = "x" ∧ ((definition b).run a).1 = some s.declaration) ∧
    a.program.PlainName u c "y" ∧ (∀ id ∈ (a.program.anchor c).ancestors, u.Passes "y" id) ∧
    ∃ d, ((definition c).run a).1 = some d ∧ d.unit = ⟨1⟩ := by
  let b : Branch := ⟨⟨0⟩, ⟨8⟩, [⟨9⟩, ⟨10⟩, ⟨13⟩]⟩
  let c : Branch := ⟨⟨0⟩, ⟨11⟩, [⟨12⟩, ⟨13⟩]⟩
  have hbuilt : (ofSources {} (Imports.ofList [(⟨0⟩, ⟨1⟩), (⟨1⟩, ⟨2⟩)])
      ["local x = 1; \x7b local x = 2; x; \x7d y;", "y <- 1;", "y <- 2;"]).toOption.any
        (fun a => (a.unit? b.unit).any fun u => decide (
          (a.program.anchor b = b ∧ u.arena.shape? b.target = some (.identifier "x") ∧
            u.declaration? b.target = none ∧
            u.arena.shape? ⟨9⟩ = some (.expressionStatement b.target) ∧
            u.Lists "x" ⟨10⟩ ∧ u.Passes "x" ⟨9⟩ ∧ (⟨10⟩ : NodeId) ≠ u.arena.root) ∧
          (a.program.anchor c = c ∧ u.arena.shape? c.target = some (.identifier "y") ∧
            u.declaration? c.target = none ∧
            u.arena.shape? ⟨12⟩ = some (.expressionStatement c.target) ∧
            ∀ id ∈ c.ancestors, u.Passes "y" id) ∧
          0 < a.program.config.maxDepth ∧ a.program.imports.of ⟨0⟩ = [⟨1⟩] ∧
          ((a.unit? ⟨1⟩).any fun v => decide (v.Lists "y" v.arena.root)) = true)) = true := by
    decide +kernel
  obtain ⟨a, ha, h⟩ := exists_ok hbuilt
  obtain ⟨u, hu, h⟩ := (Option.any_eq_true _ _).mp h
  obtain ⟨⟨hanchor, hs, hundeclared, hparent, hlists, hpasses, hne⟩,
    ⟨hanchor', hs', hundeclared', hparent', hpasses'⟩, hd, himports, hv⟩ := of_decide_eq_true h
  have hb : a.program.PlainName u b "x" := .of_parent hanchor hu hs hundeclared rfl hparent rfl
  have hc : a.program.PlainName u c "y" := .of_parent hanchor' hu hs' hundeclared' rfl hparent' rfl
  have hsees : a.program.Sees u b "x" ⟨10⟩ :=
    ⟨hlists, [⟨9⟩], [⟨13⟩], congrArg Branch.ancestors hanchor, by simpa using hpasses⟩
  have hpasses' : ∀ id ∈ (a.program.anchor c).ancestors, u.Passes "y" id := by
    rw [hanchor']
    exact hpasses'
  have hreachable : a.Reachable fun _ _ => True := .ofSources ha
  refine ⟨a, u, b, c, ⟨10⟩, ha, hb, hsees, hne, (definition_lexical hreachable hd hb).1 ⟨10⟩ hsees,
    hc, hpasses', ?_⟩
  rcases (definition_lexical hreachable hd hc).2.1 hpasses' with ⟨-, hnone⟩ |
    ⟨id, v, ⟨-, -, before, after, himported, -⟩, s, -, -, hunit, hfound⟩
  · obtain ⟨v, hv, hlists⟩ := (Option.any_eq_true _ _).mp hv
    exact absurd (of_decide_eq_true hlists) (hnone ⟨1⟩ (by simp [c, himports]) v hv)
  · have hid : id ∈ a.program.imports.of c.unit := by
      rw [himported]
      exact List.mem_append_right _ List.mem_cons_self
    rw [himports, List.mem_singleton] at hid
    exact ⟨_, hfound, hunit.trans hid⟩

end Analysis

end SquirrelAnalyzer
