import SquirrelAnalyzer.Proofs.DocumentedType
import SquirrelAnalyzer.Proofs.OwnNode

/-!
What a function without a documented type returns. A lambda stands for its body. Of any other
function the nodes of its own decide: with a yield it makes a generator, and without one its first
return statement counts.
-/

namespace SquirrelAnalyzer

/-- What a function turns out to return: a generator, what a branch stands for, or nothing that is
known. -/
inductive Decision
  | generator
  | argument (b : Branch)
  | nothing
  deriving DecidableEq, Repr

namespace Arena

variable {a : Arena} {s : Shape NodeId} {body b : Branch} {d : Decision} {kind : Kind}

def Yields (a : Arena) (body : Branch) : Prop :=
  ∃ y, a.Own body y ∧ a.kind? y.target = some .yieldExpression

/-- What the body of a function decides that the function returns. -/
inductive Decides (a : Arena) (s : Shape NodeId) (body : Branch) : Decision → Prop
  | lambda (hs : s.kind = .lambdaExpression) : Decides a s body (.argument body)
  | generator (hs : s.kind ≠ .lambdaExpression) (hyields : a.Yields body) :
      Decides a s body .generator
  | argument {r : Branch} {x : NodeId} (hs : s.kind ≠ .lambdaExpression)
      (hyields : ¬ a.Yields body) (hr : a.FirstOwn (· = .returnStatement) body r)
      (hx : a.shape? r.target = some (.returnStatement (some x))) :
      Decides a s body (.argument (r.child x))
  | bare {r : Branch} (hs : s.kind ≠ .lambdaExpression)
      (hyields : ¬ a.Yields body) (hr : a.FirstOwn (· = .returnStatement) body r)
      (hx : a.shape? r.target = some (.returnStatement none)) : Decides a s body .nothing
  | missing (hs : s.kind ≠ .lambdaExpression) (hyields : ¬ a.Yields body)
      (hr : ∀ r, a.Own body r → a.kind? r.target ≠ some .returnStatement) :
      Decides a s body .nothing

def decision (a : Arena) (s : Shape NodeId) (body : Branch) : Decision :=
  if s.kind = .lambdaExpression then .argument body
  else if (a.ownNode? (· = .yieldExpression) body).isSome then .generator
  else
    match a.ownNode? (· = .returnStatement) body with
    | none => .nothing
    | some r =>
      match a.shape? r.target with
      | some (.returnStatement (some x)) => .argument (r.child x)
      | _ => .nothing

theorem accepts_kind : a.Accepts (· = kind) b ↔ a.kind? b.target = some kind := by
  constructor
  · rintro ⟨kind', hk, haccept⟩
    rw [hk, of_decide_eq_true haccept]
  · exact fun hk => ⟨kind, hk, decide_eq_true rfl⟩

namespace FindsOwn

theorem missing_kind (h : a.FindsOwn) : a.ownNode? (· = kind) body = none ↔
    ∀ b, a.Own body b → a.kind? b.target ≠ some kind := by
  rw [h.missing]
  simp only [accepts_kind, ne_eq]

theorem isSome_yield (h : a.FindsOwn) :
    (a.ownNode? (· = .yieldExpression) body).isSome = true ↔ a.Yields body := by
  rw [Option.isSome_iff_ne_none, ne_eq, h.missing_kind, Yields]
  push Not
  rfl

theorem decides_iff (h : a.FindsOwn) : a.Decides s body d ↔ d = a.decision s body := by
  unfold decision
  constructor
  · intro hd
    cases hd with
    | lambda hs => rw [if_pos hs]
    | generator hs hyields => rw [if_neg hs, if_pos (h.isSome_yield.mpr hyields)]
    | argument hs hyields hr hx | bare hs hyields hr hx =>
      rw [if_neg hs, if_neg (mt h.isSome_yield.mp hyields), (h.found _ _ _).mpr hr]
      simp [hx]
    | missing hs hyields hr =>
      rw [if_neg hs, if_neg (mt h.isSome_yield.mp hyields), h.missing_kind.mpr hr]
  · rintro rfl
    split
    · next hs => exact .lambda hs
    next hs =>
    split
    · next hyields => exact .generator hs (h.isSome_yield.mp hyields)
    next hyields =>
    replace hyields := mt h.isSome_yield.mpr hyields
    split
    · next hr => exact .missing hs hyields (h.missing_kind.mp hr)
    next r hr =>
    replace hr := (h.found _ _ _).mp hr
    split
    · next x hx => exact .argument hs hyields hr hx
    · next hother =>
      obtain ⟨t, ht, hkind⟩ := Option.map_eq_some_iff.mp
        ((a.kind?_eq_map r.target).symm.trans (accepts_kind.mp hr.accepted))
      cases t with
      | returnStatement argument =>
        cases argument with
        | none => exact .bare hs hyields hr ht
        | some x => exact absurd ht (hother x)
      | _ => cases hkind

end FindsOwn

end Arena

namespace Decision

def resolve (p : Program) (ask : Ask) : Decision → Resolve Value
  | generator => pure (.nominal p.config.generatorType)
  | argument b => ask .value b
  | nothing => failure

def value (config : Config) : Decision → Asking (Option Value)
  | generator => pure (some (.nominal config.generatorType))
  | argument b => Analysis.value b
  | nothing => pure none

end Decision

/-- The function stands in a unit, has a body, and no type is documented for it. -/
structure Program.Undocumented (p : Program) (f : Branch) (u : SourceUnit) (s : Shape NodeId)
    (body : NodeId) : Prop where
  unit : p.unit? f.unit = some u
  shape : u.arena.shape? f.target = some s
  body : s.functionBody? = some body
  type : u.facts.returnOverrides.get? f.target = none

namespace Resolve

theorem returnValue_undocumented {p : Program} {f : Branch} {u : SourceUnit} {s : Shape NodeId}
    {body : NodeId} (h : p.Undocumented f u s body) (ask : Ask) :
    returnValue p ask f = (u.arena.decision s (f.child body)).resolve p ask := by
  obtain ⟨hu, hs, hbody, htype⟩ := h
  unfold returnValue Arena.decision
  rw [hu, bind_ofOption_some, hs, bind_ofOption_some, htype, hbody]
  simp only [bind_ofOption_some]
  split
  · rfl
  split
  · rfl
  cases u.arena.ownNode? (· = .returnStatement) (f.child body) with
  | none => rfl
  | some r =>
    rw [bind_ofOption_some]
    dsimp only
    cases u.arena.shape? r.target with
    | none => rfl
    | some t =>
      cases t with
      | returnStatement argument => cases argument <;> rfl
      | _ => rfl

end Resolve

namespace Analysis

variable {a : Analysis} {asked : Program → Branch → Prop} {b c f : Branch} {u : SourceUnit}
  {s : Shape NodeId} {body : NodeId}

theorem Reachable.findsOwn (h : a.Reachable asked) {id : UnitId} (hu : a.unit? id = some u) :
    u.arena.FindsOwn := by
  obtain ⟨base, hr⟩ := h.exists_readFrom hu
  exact (hr.sequential (h.sound.unit id u hu).2.ascending).findsOwn

theorem Invokes.value_eq_decision (hi : a.Invokes b c f) (h : a.Reachable asked)
    (hf : a.program.Undocumented f u s body) (hclean : a.Clean .value b) :
    ((value b).run a).1 = (((u.arena.decision s (f.child body)).value a.program.config).run
      ((value c).run a).2).1 := by
  have hk : a.program.kind? f = some s.kind := by
    rw [Program.kind?_of_unit? hf.unit, u.arena.kind?_eq_map, hf.shape, Option.map_some]
  have hfunction : s.kind.isFunction = true := by
    have hbody := hf.body
    cases s with
    | functionDeclaration | functionExpression | lambdaExpression => rfl
    | _ => cases hbody
  obtain ⟨m, hgives⟩ := hi.returned h hk hfunction hclean
  rw [Resolve.returnValue_undocumented hf] at hgives
  have hanswer := congrArg Prod.fst hgives
  rw [← hanswer]
  cases u.arena.decision s (f.child body) <;> rfl

/-- In a source the search of a body finds the first node of the body's own. In an analysis, what
the body of a function without a documented type decides is what the function returns, whoever asks
and whatever invokes it. -/
theorem value_returned :
    (∀ source a, Arena.parse source = .ok a → a.FindsOwn) ∧
    ∀ a : Analysis, a.Reachable (fun _ _ => True) → ∀ f u s body,
      a.program.Undocumented f u s body →
      ∃ d, (∀ d', u.arena.Decides s (f.child body) d' ↔ d' = d) ∧
        (∀ ask, Resolve.returnValue a.program ask f = d.resolve a.program ask) ∧
        ∀ b c, a.Invokes b c f → a.Clean .value b →
          ((value b).run a).1 = ((d.value a.program.config).run ((value c).run a).2).1 := by
  refine ⟨fun source a ha => (Arena.parsed_parse ha).sequential.findsOwn,
    fun a h f u s body hf => ⟨u.arena.decision s (f.child body), fun d' => ?_, ?_, ?_⟩⟩
  · exact (h.findsOwn hf.unit).decides_iff
  · exact Resolve.returnValue_undocumented hf
  · exact fun b c hi hclean => hi.value_eq_decision h hf hclean

theorem value_returned_nested : ∃ (a : Analysis) (arena : Arena) (b c f : Branch) (u : SourceUnit)
      (s : Shape NodeId) (x : Branch),
    Arena.parse "function f() \x7b local g = @() yield 1; if (g) return 2; \x7d f();" = .ok arena ∧
    ofSources {} Imports.none
      ["function f() \x7b local g = @() yield 1; if (g) return 2; \x7d f();"] = .ok a ∧
    a.Reachable (fun _ _ => True) ∧ a.program.Undocumented f u s ⟨11⟩ ∧ a.Invokes b c f ∧
    a.Clean .value b ∧ ((value b).run a).1 = some (.ofBranch x) ∧ arena.FindsOwn ∧
    ∃ d, (∀ d', u.arena.Decides s (f.child ⟨11⟩) d' ↔ d' = d) ∧
      (∀ ask, Resolve.returnValue a.program ask f = d.resolve a.program ask) ∧
      ∀ b c, a.Invokes b c f → a.Clean .value b →
        ((value b).run a).1 = ((d.value a.program.config).run ((value c).run a).2).1 := by
  let b : Branch := ⟨⟨0⟩, ⟨14⟩, [⟨15⟩, ⟨16⟩]⟩
  let f : Branch := ⟨⟨0⟩, ⟨12⟩, [⟨16⟩]⟩
  let x : Branch := ⟨⟨0⟩, ⟨8⟩, [⟨9⟩, ⟨10⟩, ⟨11⟩, ⟨12⟩, ⟨16⟩]⟩
  have hparsed : (Arena.parse
      "function f() \x7b local g = @() yield 1; if (g) return 2; \x7d f();").toOption.any
      (fun _ => true) = true := by decide +kernel
  have hbuilt : (ofSources {} Imports.none
      ["function f() \x7b local g = @() yield 1; if (g) return 2; \x7d f();"]).toOption.any
      (fun a => (a.unit? ⟨0⟩).any fun u => decide (
        a.program.anchor b = b ∧ a.program.shape? b = some (.callExpression ⟨13⟩ []) ∧
        ((value (b.child ⟨13⟩)).run a).1 = some (.node f false none) ∧
        u.arena.shape? ⟨12⟩ = some (.functionDeclaration none ⟨0⟩ [] ⟨11⟩) ∧
        u.facts.returnOverrides.get? ⟨12⟩ = none ∧ a.Clean .value b ∧
        ((value b).run a).1 = some (.ofBranch x))) = true := by decide +kernel
  obtain ⟨arena, harena, -⟩ := exists_ok hparsed
  obtain ⟨a, ha, h⟩ := exists_ok hbuilt
  obtain ⟨u, hu, h⟩ := (Option.any_eq_true _ _).mp h
  obtain ⟨hanchor, hs, hf, hshape, htype, hclean, hvalue⟩ := of_decide_eq_true h
  have hreachable : a.Reachable fun _ _ => True := .ofSources ha
  have hundocumented : a.program.Undocumented f u _ ⟨11⟩ := ⟨hu, hshape, rfl, htype⟩
  obtain ⟨hfinds, hreturned⟩ := value_returned
  exact ⟨a, arena, b, _, f, u, _, x, harena, ha, hreachable, hundocumented,
    .call hs (hanchor.symm ▸ hf), hclean, hvalue, hfinds _ arena harena,
    hreturned a hreachable f u _ _ hundocumented⟩

theorem value_returned_lambda : ∃ (a : Analysis) (b c f : Branch) (u : SourceUnit)
      (s : Shape NodeId) (body : NodeId),
    ofSources {} Imports.none ["local f = @() yield 1; f();"] = .ok a ∧
    a.program.Undocumented f u s body ∧ s.kind.isFunction = true ∧ a.Invokes b c f ∧
    a.Clean .value b ∧ u.arena.Yields (f.child body) ∧
    ((value b).run a).1 ≠ some (.nominal a.program.config.generatorType) := by
  let b : Branch := ⟨⟨0⟩, ⟨7⟩, [⟨8⟩, ⟨9⟩]⟩
  let f : Branch := ⟨⟨0⟩, ⟨3⟩, [⟨4⟩, ⟨5⟩, ⟨9⟩]⟩
  have hbuilt : (ofSources {} Imports.none ["local f = @() yield 1; f();"]).toOption.any
      (fun a => (a.unit? ⟨0⟩).any fun u => decide (
        a.program.anchor b = b ∧ a.program.shape? b = some (.callExpression ⟨6⟩ []) ∧
        ((value (b.child ⟨6⟩)).run a).1 = some (.node f false none) ∧
        u.arena.shape? ⟨3⟩ = some (.lambdaExpression [] ⟨2⟩) ∧
        u.facts.returnOverrides.get? ⟨3⟩ = none ∧
        u.arena.kind? ⟨2⟩ = some .yieldExpression ∧ a.Clean .value b ∧
        ((value b).run a).1 ≠ some (.nominal a.program.config.generatorType))) = true := by
    decide +kernel
  obtain ⟨a, ha, h⟩ := exists_ok hbuilt
  obtain ⟨u, hu, h⟩ := (Option.any_eq_true _ _).mp h
  obtain ⟨hanchor, hs, hf, hshape, htype, hyield, hclean, hvalue⟩ := of_decide_eq_true h
  exact ⟨a, b, _, f, u, _, ⟨2⟩, ha, ⟨hu, hshape, rfl, htype⟩, rfl,
    .call hs (hanchor.symm ▸ hf), hclean, ⟨_, Arena.own_self _ _, hyield⟩, hvalue⟩

end Analysis

end SquirrelAnalyzer
