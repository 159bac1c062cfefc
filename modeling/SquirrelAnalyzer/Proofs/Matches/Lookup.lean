import SquirrelAnalyzer.Proofs.Respelled.Units

namespace SquirrelAnalyzer

namespace Program

variable {p p' : Program} {I : Branch → Prop}

def Rewritten (p p' : Program) (b : Branch) : Prop :=
  ∃ name, p.shape? b = some (.identifier name) ∧ p'.shape? b = some (.literal (.string name))

def RespelledAt (p p' : Program) (id : UnitId) : Prop :=
  (p.unit? id).Rel SourceUnit.Respelled (p'.unit? id)

structure Matches (p p' : Program) (I : Branch → Prop) : Prop where
  config : p.config = p'.config
  left : p.Closed I
  right : p'.Closed I
  unit : ∀ {b}, I b → p.RespelledAt p' b.unit
  kept : ∀ {b}, I b → ¬ p.Rewritten p' b
  imported? : p.imported? = p'.imported?
  aliased? : p.aliased? = p'.aliased?
  ownMembers : ∀ {b}, I b → p.ownMembers b = p'.ownMembers b

theorem RespelledAt.cases {id : UnitId} (h : p.RespelledAt p' id) :
    (p.unit? id = none ∧ p'.unit? id = none) ∨
      ∃ u u', p.unit? id = some u ∧ p'.unit? id = some u' ∧ u.Respelled u' := by
  unfold RespelledAt at h
  generalize p.unit? id = o at h
  generalize p'.unit? id = o' at h
  cases h with
  | none => exact .inl ⟨rfl, rfl⟩
  | some h => exact .inr ⟨_, _, rfl, rfl, h⟩

namespace RespelledAt

variable {b : Branch} (h : p.RespelledAt p' b.unit)

include h

theorem isSome_unit? : (p.unit? b.unit).isSome = (p'.unit? b.unit).isSome := by
  rcases h.cases with ⟨hu, hu'⟩ | ⟨u, u', hu, hu', -⟩
  · rw [hu, hu']
  · rw [hu, hu']
    rfl

theorem shape?_cases : p.shape? b = p'.shape? b ∨ p.Rewritten p' b ∨
    ∃ key s s', p.shape? b = some s ∧ p'.shape? b = some s' ∧ s.Bracketed key s' ∧
      ∀ ancestors, p.Rewritten p' ⟨b.unit, key, ancestors⟩ := by
  unfold Rewritten Program.shape?
  rcases h.cases with ⟨hu, hu'⟩ | ⟨u, u', hu, hu', hr⟩
  · rw [hu, hu']
    exact .inl rfl
  · simp only [hu, hu', Option.bind_some]
    cases hr.arena.node b.target with
    | same hs _ => exact .inl hs
    | name hname => exact .inr (.inl hname)
    | bracket hs hs' hb hk _ => exact .inr (.inr ⟨_, _, _, hs, hs', hb, fun _ => hk⟩)

theorem shape?_cases_of_not (hb : ¬ p.Rewritten p' b) : p.shape? b = p'.shape? b ∨
    ∃ key s s', p.shape? b = some s ∧ p'.shape? b = some s' ∧ s.Bracketed key s' := by
  rcases h.shape?_cases with hs | hr | ⟨key, s, s', hs, hs', hb, -⟩
  · exact .inl hs
  · exact absurd hr hb
  · exact .inr ⟨key, s, s', hs, hs', hb⟩

theorem map_shape? {β : Type} {f : Shape NodeId → β} (hf : Shape.Blind f) :
    (p.shape? b).map f = (p'.shape? b).map f := by
  rcases h.shape?_cases with hs | ⟨name, hs, hs'⟩ | ⟨key, s, s', hs, hs', hb, -⟩
  · rw [hs]
  · rw [hs, hs', Option.map_some, Option.map_some, hf.name]
  · rw [hs, hs', Option.map_some, Option.map_some, hf.even hb]

theorem bind_shape? {β : Type} {f : Shape NodeId → Option β} (hf : Shape.Blind f) :
    (p.shape? b).bind f = (p'.shape? b).bind f :=
  Option.bind_congr_of_map (h.map_shape? hf)

theorem isClass : p.isClass b = p'.isClass b := by
  rw [Program.isClass, Program.isClass, Program.kind?, Program.kind?, Option.map_map,
    Option.map_map]
  exact congrArg (·.getD false) (h.map_shape? Shape.blind_isClass)

theorem isScope :
    ((p.kind? b).map Kind.isScope).getD false = ((p'.kind? b).map Kind.isScope).getD false := by
  rw [Program.kind?, Program.kind?, Option.map_map, Option.map_map]
  exact congrArg (·.getD false) (h.map_shape? Shape.blind_isScope)

theorem anchor : p.anchor b = p'.anchor b := by
  rw [Program.anchor, Program.anchor]
  rcases h.cases with ⟨hu, hu'⟩ | ⟨u, u', hu, hu', hr⟩
  · rw [hu, hu']
  · rw [hu, hu']
    exact hr.arena.anchor b

theorem subject (q : Query) : p.subject q b = p'.subject q b := by
  cases q with
  | value => rfl
  | definition =>
    simp only [Program.subject]
    rcases h.cases with ⟨hu, hu'⟩ | ⟨u, u', hu, hu', hr⟩
    · rw [hu, hu']
    · rw [hu, hu']
      exact hr.arena.leftmost b

theorem accepts (arguments : Nat) : p.accepts arguments b = p'.accepts arguments b := by
  rw [Program.accepts, Program.accepts]
  rcases h.cases with ⟨hu, hu'⟩ | ⟨u, u', hu, hu', hr⟩
  · rw [hu, hu']
  · rw [hu, hu']
    exact hr.arena.accepts arguments b.target

theorem scopeAt : Resolve.scopeAt p b = Resolve.scopeAt p' b := by
  rw [Resolve.scopeAt, Resolve.scopeAt, h.isScope]
  rcases h.cases with ⟨hu, hu'⟩ | ⟨u, u', hu, hu', hr⟩
  · rw [hu, hu']
  · rw [hu, hu']
    simp only [hr.scope]

theorem typeOverride :
    (p.unit? b.unit).bind (·.facts.typeOverrides.get? b.target) =
      (p'.unit? b.unit).bind (·.facts.typeOverrides.get? b.target) := by
  rcases h.cases with ⟨hu, hu'⟩ | ⟨u, u', hu, hu', hr⟩
  · rw [hu, hu']
  · rw [hu, hu', Option.bind_some, Option.bind_some, hr.typeOverrides]

theorem augmented? {call : Branch} (hcall : p.RespelledAt p' call.unit) :
    p.augmented? b call = p'.augmented? b call := by
  have hargs := hcall.bind_shape? Shape.blind_call?
  unfold Program.augmented?
  rcases h.cases with ⟨hu, hu'⟩ | ⟨u, u', hu, hu', hr⟩
  · rw [hu, hu']
    rfl
  · have hposition : u.arena.constructorPosition? b.target =
        u'.arena.constructorPosition? b.target := funext (hr.arena.constructorPosition? b.target)
    simp only [hu, hu', Option.bind_eq_bind, Option.bind_some, hr.augments, hposition,
      ← Option.bind_assoc, hargs]

end RespelledAt

theorem unit_of_parentBranch? {b parent : Branch} (h : b.parentBranch? = some parent) :
    parent.unit = b.unit := by
  unfold Branch.parentBranch? at h
  split at h
  · cases h
  · cases h
    rfl

theorem variation?_congr {arity : Option Nat} {candidates : List Branch}
    (h : ∀ n, ∀ b ∈ candidates, p.accepts n b = p'.accepts n b) :
    p.variation? arity candidates = p'.variation? arity candidates := by
  have hfind (n : Nat) : candidates.find? (p.accepts n) = candidates.find? (p'.accepts n) :=
    List.find?_congr (h n)
  unfold Program.variation?
  simp only [hfind]

theorem scoped?_congr {scope : List ScopedName}
    (h : ∀ n, ∀ s ∈ scope, p.accepts n s.declaration = p'.accepts n s.declaration) (name : String)
    (arity : Option Nat) : p.scoped? scope name arity = p'.scoped? scope name arity := by
  refine variation?_congr fun n b hb => ?_
  obtain ⟨s, hs, rfl⟩ := List.mem_map.mp hb
  exact h n s (List.mem_filter.mp hs).1

namespace Matches

variable (h : p.Matches p' I) {b : Branch} (hb : I b)

include h hb

theorem shape?_cases : p.shape? b = p'.shape? b ∨
    ∃ key s s', p.shape? b = some s ∧ p'.shape? b = some s' ∧ s.Bracketed key s' :=
  (h.unit hb).shape?_cases_of_not (h.kept hb)

theorem map_shape? {β : Type} {f : Shape NodeId → β} (hf : Shape.Even f) :
    (p.shape? b).map f = (p'.shape? b).map f := by
  rcases h.shape?_cases hb with hs | ⟨key, s, s', hs, hs', hb⟩
  · rw [hs]
  · rw [hs, hs', Option.map_some, Option.map_some, hf hb]

theorem kind? : p.kind? b = p'.kind? b := h.map_shape? hb (Shape.even_of_kind fun kind => kind)

theorem isClass : p.isClass b = p'.isClass b := (h.unit hb).isClass

theorem anchor : p.anchor b = p'.anchor b := (h.unit hb).anchor

theorem subject (q : Query) : p.subject q b = p'.subject q b := (h.unit hb).subject q

theorem accepts (arguments : Nat) : p.accepts arguments b = p'.accepts arguments b :=
  (h.unit hb).accepts arguments

theorem rootName? (name : String) : p.rootName? b.unit name = p'.rootName? b.unit name := by
  rw [Program.rootName?, Program.rootName?, h.imported?]
  congr 1
  rcases (h.unit hb).cases with ⟨hu, hu'⟩ | ⟨u, u', hu, hu', hr⟩
  · rw [hu, hu']
    rfl
  · rw [hu, hu', Option.bind_some, Option.bind_some, topLevel?, topLevel?, ← hr.arena.root,
      ← hr.scope]
    exact scoped?_congr (fun n s hs => h.accepts (h.left.scope hb hu hs) n) name none

theorem ownMember? (name : String) (arity : Option Nat) :
    p.ownMember? name arity b = p'.ownMember? name arity b := by
  rw [Program.ownMember?, Program.ownMember?, ← h.ownMembers hb]
  refine variation?_congr fun n c hc => ?_
  obtain ⟨m, hm, rfl⟩ := List.mem_map.mp hc
  exact h.accepts (h.left.ownMember hb (List.mem_filter.mp hm).1) n

theorem augmented? {call : Branch} (hcall : I call) :
    p.augmented? b call = p'.augmented? b call := (h.unit hb).augmented? (h.unit hcall)

theorem parent {parent : Branch} (hparent : b.parentBranch? = some parent) :
    p.RespelledAt p' parent.unit :=
  unit_of_parentBranch? hparent ▸ h.unit hb

theorem arity? : p.arity? b = p'.arity? b := by
  unfold Program.arity?
  cases hparent : b.parentBranch? with
  | none => rfl
  | some parent =>
    have hcall := (h.parent hb hparent).bind_shape? Shape.blind_call?
    simp only [Option.bind_eq_bind, Option.bind_some, ← Option.bind_assoc, hcall]

theorem isPropertyOf {parent : Branch} (hparent : b.parentBranch? = some parent) :
    (p.shape? parent).map (Resolve.isPropertyOf b.target) =
      (p'.shape? parent).map (Resolve.isPropertyOf b.target) := by
  rcases (h.parent hb hparent).shape?_cases with
    hs | ⟨name, hs, hs'⟩ | ⟨key, s, s', hs, hs', hbracket, hkey⟩
  · rw [hs]
  · rw [hs, hs']
    rfl
  · have hne : key ≠ b.target := by
      rintro rfl
      apply h.kept hb
      have hkey := hkey b.ancestors
      rwa [unit_of_parentBranch? hparent] at hkey
    rw [hs, hs']
    cases hbracket <;> simp [Resolve.isPropertyOf, hne]

end Matches

end Program

end SquirrelAnalyzer
