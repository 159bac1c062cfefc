import SquirrelAnalyzer.Proofs.Assembled
import SquirrelAnalyzer.Proofs.Matches.Lookup
import SquirrelAnalyzer.Proofs.Respelled.Built

namespace SquirrelAnalyzer

structure SourceUnit.Stored (id : UnitId) (u u' : SourceUnit) : Prop where
  twin : u.Twin u'
  id : u.id = id
  documents : u.Documents
  recorded : ∀ e ∈ u.namespaces, e.declaration ∈ u.pending

namespace Program

structure Twins (p p' : Program) : Prop where
  config : p.config = p'.config
  imports : p.imports = p'.imports
  places : p.units.size = p'.units.size
  unit : ∀ id, (p.unit? id).Rel (SourceUnit.Stored id) (p'.unit? id)

theorem liveUnits_eq (p : Program) :
    p.liveUnits = (List.range p.units.size).filterMap fun i => p.unit? ⟨i⟩ := by
  have hunits : p.units.toList = (List.range p.units.size).map fun i => (p.unit? ⟨i⟩) := by
    apply List.ext_getElem
    · simp
    · intro i hi hi'
      simp only [Array.length_toList] at hi
      simp [unit?, hi]
  rw [liveUnits, hunits, List.filterMap_map]
  rfl

theorem map_eq_of_forall₂ {α : Type} {f g : SourceUnit → α}
    (hfg : ∀ u u', u.Respelled u' → f u = g u') {us us' : List SourceUnit}
    (h : List.Forall₂ SourceUnit.Respelled us us') : us.map f = us'.map g := by
  induction h with
  | nil => rfl
  | cons hu _ ih => rw [List.map_cons, List.map_cons, hfg _ _ hu, ih]

theorem findSome?_eq_of_forall₂ {α : Type} {f g : SourceUnit → Option α}
    (hfg : ∀ u u', u.Respelled u' → f u = g u') {us us' : List SourceUnit}
    (h : List.Forall₂ SourceUnit.Respelled us us') : us.findSome? f = us'.findSome? g := by
  have hmap := congrArg (List.findSome? id) (map_eq_of_forall₂ hfg h)
  rwa [List.findSome?_map, List.findSome?_map] at hmap

namespace Twins

variable {p p' : Program} (h : p.Twins p') {id : UnitId} {u : SourceUnit} {b : Branch}

include h

theorem stored (hu : p.unit? id = some u) :
    ∃ u', p'.unit? id = some u' ∧ SourceUnit.Stored id u u' := by
  have hrel := h.unit id
  rw [hu] at hrel
  generalize p'.unit? id = o' at hrel
  cases hrel with
  | some hs => exact ⟨_, rfl, hs⟩

theorem atUnit (id : UnitId) : p.RespelledAt p' id := by
  have hrel := h.unit id
  unfold RespelledAt
  generalize p.unit? id = o at hrel
  generalize p'.unit? id = o' at hrel
  cases hrel with
  | none => exact .none
  | some hs => exact .some hs.twin.respelled

theorem forall₂_units (ids : List UnitId) : List.Forall₂ SourceUnit.Respelled
    (ids.filterMap p.unit?) (ids.filterMap p'.unit?) :=
  List.rel_filterMap (R := (· = ·)) (fun id _ he => he ▸ h.atUnit id) (List.forall₂_refl ids)

theorem forall₂_liveUnits : List.Forall₂ SourceUnit.Respelled p.liveUnits p'.liveUnits := by
  have hunits := h.forall₂_units ((List.range p.units.size).map UnitId.mk)
  rw [List.filterMap_map, List.filterMap_map] at hunits
  rw [liveUnits_eq, liveUnits_eq, ← h.places]
  exact hunits

theorem size : p.size = p'.size := by
  rw [Program.size, Program.size,
    map_eq_of_forall₂ (fun u u' hu => hu.arena.size.symm) h.forall₂_liveUnits]

theorem accepts (arguments : Nat) (b : Branch) : p.accepts arguments b = p'.accepts arguments b :=
  (h.atUnit b.unit).accepts arguments

theorem topLevel? (name : String) (arity : Option Nat) {u u' : SourceUnit} (hu : u.Respelled u') :
    p.topLevel? name arity u = p'.topLevel? name arity u' := by
  rw [Program.topLevel?, Program.topLevel?, hu.arena.root, ← hu.scope]
  exact scoped?_congr (fun n s _ => h.accepts n s.declaration) name arity

theorem imported? : p.imported? = p'.imported? := by
  funext unit name arity
  rw [Program.imported?, Program.imported?, ← h.imports]
  exact findSome?_eq_of_forall₂ (fun u u' => h.topLevel? name arity) (h.forall₂_units _)

theorem aliased? : p.aliased? = p'.aliased? := by
  funext name
  exact findSome?_eq_of_forall₂ (fun u u' hu => hu.aliased? name) h.forall₂_liveUnits

theorem recordedMembers (owner : Branch) : p.recordedMembers owner = p'.recordedMembers owner := by
  simp only [Program.recordedMembers, List.flatMap_def]
  rw [map_eq_of_forall₂ (fun u u' hu => by rw [hu.entriesOf]) h.forall₂_liveUnits]

theorem ownMembers (owner : Branch) : p.ownMembers owner = p'.ownMembers owner := by
  unfold Program.ownMembers
  rw [h.recordedMembers]
  rcases (h.atUnit owner.unit).cases with ⟨hu, hu'⟩ | ⟨u, u', hu, hu', hr⟩
  · rw [hu, hu']
  · have hsome : (u.arena.shape? owner.target).isSome = (u'.arena.shape? owner.target).isSome := by
      have hmap := hr.arena.map_shape? (f := fun _ => ()) ⟨fun _ => rfl, fun _ => rfl⟩ owner.target
      rw [← Option.isSome_map, hmap, Option.isSome_map]
    rw [hu, hu', Option.filter_some, Option.filter_some, hsome]
    cases (u'.arena.shape? owner.target).isSome with
    | false => rfl
    | true => exact congrArg (· ++ _) (hr.membersAt owner)

end Twins

end Program

end SquirrelAnalyzer
