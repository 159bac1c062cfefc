import Mathlib.Tactic.Common
import SquirrelAnalyzer.Program.Lookup
import SquirrelAnalyzer.Resolve.Walk

namespace SquirrelAnalyzer

def SourceUnit.plain (u : SourceUnit) : SourceUnit := { u with outline := [] }

namespace Program

def mapUnits (f : SourceUnit → SourceUnit) (p : Program) : Program :=
  { p with units := p.units.map (Option.map f) }

def plain (p : Program) : Program := p.mapUnits SourceUnit.plain

variable (p : Program)

@[simp] theorem unit?_mapUnits (f : SourceUnit → SourceUnit) (id : UnitId) :
    (p.mapUnits f).unit? id = (p.unit? id).map f := by
  simp only [mapUnits, unit?, Array.getElem?_map]
  cases p.units[id.index]? with
  | none => rfl
  | some o => cases o <;> rfl

theorem liveUnits_mapUnits (f : SourceUnit → SourceUnit) :
    (p.mapUnits f).liveUnits = p.liveUnits.map f := by
  simp only [mapUnits, liveUnits, Array.toList_map, List.filterMap_map, List.map_filterMap]
  congr 1

structure PlainOf (q p : Program) : Prop where
  config : q.config = p.config
  imports : q.imports = p.imports
  unit : ∀ id, q.unit? id = (p.unit? id).map SourceUnit.plain

theorem plainOf_plain : p.plain.PlainOf p := ⟨rfl, rfl, p.unit?_mapUnits _⟩

theorem plainOf_of_plain_eq {p p' : Program} (h : p.plain = p'.plain) : p.plain.PlainOf p' := by
  rw [h]
  exact p'.plainOf_plain

theorem filterMap_id_congr {α : Type} {l l' : List (Option α)}
    (h : ∀ i : Nat, l[i]?.join = l'[i]?.join) : l.filterMap id = l'.filterMap id := by
  induction l generalizing l' with
  | nil =>
    refine (List.filterMap_eq_nil_iff.mpr fun o ho => ?_).symm
    obtain ⟨i, hi⟩ := List.mem_iff_getElem?.mp ho
    have hnone := h i
    rw [hi] at hnone
    exact hnone.symm
  | cons o l ih =>
    have hrest : l.filterMap id = l'.tail.filterMap id := by
      apply ih
      intro i
      rw [List.getElem?_tail]
      exact h (i + 1)
    have hfirst := h 0
    cases l' with
    | nil =>
      cases hfirst
      exact hrest
    | cons o' l' =>
      obtain rfl : o = o' := hfirst
      cases o with
      | none => exact hrest
      | some a => exact congrArg (a :: ·) hrest

namespace PlainOf

variable {q p : Program}

theorem liveUnits (h : q.PlainOf p) : q.liveUnits = p.liveUnits.map SourceUnit.plain := by
  rw [← p.liveUnits_mapUnits]
  apply filterMap_id_congr
  intro i
  have hi := (h.unit ⟨i⟩).trans (p.unit?_mapUnits SourceUnit.plain ⟨i⟩).symm
  simp only [unit?] at hi
  rw [Array.getElem?_toList, Array.getElem?_toList]
  exact hi

theorem size (h : q.PlainOf p) : q.size = p.size := by
  simp only [Program.size, h.liveUnits, List.map_map]
  rfl

theorem shape? (h : q.PlainOf p) : q.shape? = p.shape? := by
  funext b
  simp only [Program.shape?, h.unit, Option.bind_map]
  rfl

theorem kind? (h : q.PlainOf p) : q.kind? = p.kind? := by
  funext b
  simp only [Program.kind?, h.shape?]

theorem isClass (h : q.PlainOf p) : q.isClass = p.isClass := by
  funext b
  simp only [Program.isClass, h.kind?]

theorem anchor (h : q.PlainOf p) : q.anchor = p.anchor := by
  funext b
  simp only [Program.anchor, h.unit]
  cases p.unit? b.unit <;> rfl

theorem accepts (h : q.PlainOf p) : q.accepts = p.accepts := by
  funext n b
  simp only [Program.accepts, h.unit]
  cases p.unit? b.unit <;> rfl

theorem variation? (h : q.PlainOf p) : q.variation? = p.variation? := by
  funext arity candidates
  simp only [Program.variation?, h.accepts]

theorem scoped? (h : q.PlainOf p) : q.scoped? = p.scoped? := by
  funext scope name arity
  simp only [Program.scoped?, h.variation?]

theorem topLevel? (h : q.PlainOf p) (name : String) (arity : Option Nat) (u : SourceUnit) :
    q.topLevel? name arity u.plain = p.topLevel? name arity u := by
  simp only [Program.topLevel?, h.scoped?]
  rfl

theorem imported? (h : q.PlainOf p) : q.imported? = p.imported? := by
  funext unit name arity
  have hunits : (q.imports.of unit).filterMap q.unit? =
      ((p.imports.of unit).filterMap p.unit?).map SourceUnit.plain := by
    rw [h.imports, List.map_filterMap]
    congr 1
    funext id
    exact h.unit id
  simp only [Program.imported?, hunits, List.findSome?_map]
  congr 1
  funext u
  exact h.topLevel? name arity u

theorem rootName? (h : q.PlainOf p) : q.rootName? = p.rootName? := by
  funext unit name
  simp only [Program.rootName?, h.imported?, h.unit, Option.bind_map]
  congr 2

theorem recordedMembers (h : q.PlainOf p) : q.recordedMembers = p.recordedMembers := by
  funext owner
  simp only [Program.recordedMembers, h.liveUnits, List.flatMap_map]
  rfl

theorem ownMembers (h : q.PlainOf p) : q.ownMembers = p.ownMembers := by
  funext owner
  simp only [Program.ownMembers, h.unit, h.recordedMembers, Option.filter_map]
  have hshape : (fun u : SourceUnit => (u.arena.shape? owner.target).isSome) ∘ SourceUnit.plain =
      fun u => (u.arena.shape? owner.target).isSome := rfl
  rw [hshape]
  cases (p.unit? owner.unit).filter fun u => (u.arena.shape? owner.target).isSome <;> rfl

theorem ownMember? (h : q.PlainOf p) : q.ownMember? = p.ownMember? := by
  funext name arity owner
  simp only [Program.ownMember?, h.ownMembers, h.variation?]

theorem aliased? (h : q.PlainOf p) : q.aliased? = p.aliased? := by
  funext name
  simp only [Program.aliased?, h.liveUnits, List.findSome?_map]
  rfl

theorem augmented? (h : q.PlainOf p) : q.augmented? = p.augmented? := by
  funext cls call
  simp only [Program.augmented?, h.unit, h.shape?]
  cases p.unit? cls.unit <;> rfl

theorem arity? (h : q.PlainOf p) : q.arity? = p.arity? := by
  funext b
  simp only [Program.arity?, h.shape?]

end PlainOf

end Program

end SquirrelAnalyzer
