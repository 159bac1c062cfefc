import SquirrelAnalyzer.Proofs.InOrder
import SquirrelAnalyzer.Proofs.Reachable

namespace SquirrelAnalyzer

namespace Edit

def changed? (p : Program) : Edit → Option UnitId
  | add _ => some p.nextId
  | replace id _ | remove id => some id
  | setImports _ => none

def source? : Edit → Option String
  | add source | replace _ source => some source
  | remove _ | setImports _ => none

def imports (p : Program) : Edit → Imports
  | setImports imports => imports
  | _ => p.imports

end Edit

namespace Program

structure Edited (p : Program) (e : Edit) (base : Program) : Prop where
  config : base.config = p.config
  imports : base.imports = e.imports p
  kept : ∀ id, e.changed? p ≠ some id → base.unit? id = p.unit? id
  built : ∀ id u, e.changed? p = some id → base.unit? id = some u →
    ∃ source arena, e.source? = some source ∧ Analysis.parseArena source = .ok arena ∧
      u = SourceUnit.build p.config id arena
  loaded : ∀ id, e.changed? p = some id → (base.unit? id).isSome = e.source?.isSome

def dropUnit (p : Program) (id : UnitId) : Program := p.setUnit id none

variable {p base : Program} {e : Edit} {a : Arena} {id : UnitId} {source : String}

theorem unit?_dropUnit_self (p : Program) (id : UnitId) : (p.dropUnit id).unit? id = none := by
  rw [dropUnit, unit?_setUnit]
  by_cases hlt : id.index < p.units.size
  · rw [if_pos ⟨rfl, hlt⟩]
  · rw [if_neg fun h => hlt h.2]
    simp [unit?, Array.getElem?_eq_none (Nat.le_of_not_lt hlt)]

theorem edited_pushUnit (p : Program) (ha : Analysis.parseArena source = .ok a) :
    p.Edited (.add source) (p.pushUnit a) where
  config := rfl
  imports := rfl
  kept id hid := by
    rw [unit?_pushUnit, if_neg]
    rintro rfl
    exact hid rfl
  built id u hid hu := by
    cases hid
    rw [unit?_pushUnit, if_pos rfl] at hu
    cases hu
    exact ⟨source, a, rfl, ha, rfl⟩
  loaded id hid := by
    cases hid
    rw [unit?_pushUnit, if_pos rfl]
    rfl

theorem edited_rebuildUnit (ha : Analysis.parseArena source = .ok a) (hid : (p.unit? id).isSome) :
    p.Edited (.replace id source) (p.rebuildUnit id a) where
  config := rfl
  imports := rfl
  kept id' hne := by
    rw [rebuildUnit, unit?_setUnit, if_neg]
    rintro ⟨rfl, -⟩
    exact hne rfl
  built id' u he hu := by
    cases he
    rw [rebuildUnit, unit?_setUnit, if_pos ⟨rfl, lt_size_of_unit? hid⟩] at hu
    cases hu
    exact ⟨source, a, rfl, ha, rfl⟩
  loaded id' he := by
    cases he
    rw [rebuildUnit, unit?_setUnit, if_pos ⟨rfl, lt_size_of_unit? hid⟩]
    rfl

theorem edited_dropUnit (p : Program) (id : UnitId) : p.Edited (.remove id) (p.dropUnit id) where
  config := rfl
  imports := rfl
  kept id' hne := by
    rw [dropUnit, unit?_setUnit, if_neg]
    rintro ⟨rfl, -⟩
    exact hne rfl
  built id' u he hu := by
    cases he
    rw [unit?_dropUnit_self] at hu
    cases hu
  loaded id' he := by
    cases he
    rw [unit?_dropUnit_self]
    rfl

theorem edited_imports (p : Program) (imports : Imports) :
    p.Edited (.setImports imports) { p with imports } where
  config := rfl
  imports := rfl
  kept _ _ := rfl
  built _ _ h := nomatch h
  loaded _ h := nomatch h

theorem Edited.unit (h : p.Edited e base) (hp : p.Sound) (id : UnitId) (u : SourceUnit)
    (hu : base.unit? id = some u) : u.id = id ∧ u.Sound := by
  by_cases hc : e.changed? p = some id
  · obtain ⟨source, a, -, ha, rfl⟩ := h.built id u hc hu
    exact ⟨SourceUnit.id_build _ _ _, SourceUnit.sound_build _ _ (Analysis.parsed_parseArena ha)⟩
  · rw [h.kept id hc] at hu
    exact hp.unit id u hu

theorem Edited.exists_build (h : p.Edited e base) (hc : e.changed? p = some id)
    (hs : e.source? = some source) : ∃ arena, Analysis.parseArena source = .ok arena ∧
      base.unit? id = some (SourceUnit.build p.config id arena) := by
  have hloaded := h.loaded id hc
  rw [hs, Option.isSome_some] at hloaded
  obtain ⟨u, hu⟩ := Option.isSome_iff_exists.mp hloaded
  obtain ⟨source', arena, hs', ha, rfl⟩ := h.built id u hc hu
  obtain rfl := Option.some.inj (hs.symm.trans hs')
  exact ⟨arena, ha, hu⟩

theorem Edited.unit?_eq_none (h : p.Edited e base) (hc : e.changed? p = some id)
    (hs : e.source? = none) : base.unit? id = none := by
  have hloaded := h.loaded id hc
  rw [hs, Option.isSome_none, Option.isSome_eq_false_iff] at hloaded
  exact Option.isNone_iff_eq_none.mp hloaded

theorem Edited.cleared (h : p.Edited e base) (hc : e.changed? p = some id) : base.Cleared id := by
  intro u hu
  obtain ⟨source, a, -, -, rfl⟩ := h.built id u hc hu
  exact SourceUnit.namespaces_build _ _ _

theorem Edited.recorded_settle (h : p.Edited e base) (hp : p.Sound) (hc : e.changed? p = some id) :
    Recorded base (base.settle id) (base.orderOf (e.changed? p)) := by
  have hr := Program.recorded_settle (h.unit hp) (h.cleared hc)
  unfold orderOf
  rw [hc, Option.toList_some, List.flatMap_append, List.flatMap_singleton]
  exact hr

def outline? (p : Program) (id : UnitId) : Option Outline := (p.unit? id).map (·.outline)

theorem outline?_modifyUnit (p : Program) (id id' : UnitId) {f : SourceUnit → SourceUnit}
    (hf : ∀ u, (f u).outline = u.outline) : (p.modifyUnit id f).outline? id' = p.outline? id' := by
  unfold outline?
  rw [unit?_modifyUnit]
  split
  · rw [Option.map_map]
    exact congrArg (Option.map · _) (funext hf)
  · rfl

theorem outline?_recordUnit (p : Program) (id id' : UnitId) :
    (recordUnit false p id).outline? id' = p.outline? id' := by
  unfold recordUnit
  split
  · rfl
  · refine List.foldlRecOn _ _ (motive := fun q : Program => q.outline? id' = p.outline? id') rfl ?_
    intro q hq d _
    unfold recordDeclaration
    split
    · exact hq
    · rw [← hq]
      exact outline?_modifyUnit q id id' fun u => rfl

theorem outline?_refresh (p : Program) (changed : Option UnitId) (id : UnitId) :
    (p.refresh changed).outline? id = p.outline? id := by
  refine List.foldlRecOn _ _ (motive := fun q : Program => q.outline? id = p.outline? id) ?_ ?_
  · refine List.foldlRecOn _ _ (motive := fun q : Program => q.outline? id = p.outline? id) rfl ?_
    intro q hq id' _
    rw [← hq]
    exact outline?_modifyUnit q id' id fun u => rfl
  · exact fun q hq id' _ => (outline?_recordUnit q id' id).trans hq

theorem outline?_settle (p : Program) {id id' : UnitId} (h : id' ≠ id) :
    (p.settle id).outline? id' = p.outline? id' := by
  rw [← outline?_refresh p (some id), outline?, outline?, settle, unit?_recordUnit_of_ne true _ h]

theorem apply_cases {a a' : Analysis} (hm : a.memo.Within a.program) {e : Edit}
    (h : e.apply a = .ok a') :
    ∃ base, a.program.Edited e base ∧
      ((∃ id source, e.changed? a.program = some id ∧ e.source? = some source ∧
        a'.program = base.settle id) ∨
      (e.source? = none ∧ a'.program = base.refresh (e.changed? a.program))) := by
  cases e with
  | add source =>
    cases hadd : a.add source with
    | error e =>
      rw [Edit.apply, hadd] at h
      cases h
    | ok added =>
      rw [Edit.apply, hadd] at h
      obtain ⟨id, b⟩ := added
      obtain ⟨arena, hs, rfl⟩ := Analysis.of_add hm hadd
      cases h
      exact ⟨_, edited_pushUnit a.program hs, .inl ⟨_, source, rfl, rfl, rfl⟩⟩
  | replace id source =>
    obtain ⟨arena, hs, hid, rfl⟩ := Analysis.of_replace hm h
    exact ⟨_, edited_rebuildUnit hs hid, .inl ⟨id, source, rfl, rfl, rfl⟩⟩
  | remove id =>
    obtain ⟨hid, rfl⟩ := Analysis.of_remove hm h
    exact ⟨_, edited_dropUnit a.program id, .inr ⟨rfl, rfl⟩⟩
  | setImports imports =>
    cases h
    rw [Analysis.setImports_eq hm]
    exact ⟨_, edited_imports a.program imports, .inr ⟨rfl, rfl⟩⟩

theorem Edited.recorded_refresh (h : p.Edited e base) (hp : p.Sound) (hs : e.source? = none) :
    Recorded base (base.refresh (e.changed? p)) (base.orderOf (e.changed? p)) := by
  have hr := Program.recorded_refresh (e.changed? p) (h.unit hp) fun id hc => h.cleared hc
  have hnone (id : UnitId) (hc : e.changed? p = some id) : base.pendingOf id = [] := by
    rw [pendingOf, h.unit?_eq_none hc hs]
    rfl
  unfold orderOf
  rw [List.flatMap_append]
  cases hc : e.changed? p with
  | none =>
    rw [hc] at hr
    rw [Option.toList_none, List.flatMap_nil, List.append_nil]
    exact hr
  | some id =>
    rw [hc] at hr
    rw [Option.toList_some, List.flatMap_singleton, hnone id hc, List.append_nil]
    exact hr

theorem recorded_apply {a a' : Analysis} (hp : a.program.Sound) (hm : a.memo.Within a.program)
    {e : Edit} (h : e.apply a = .ok a') : ∃ base, a.program.Edited e base ∧
      Recorded base a'.program (base.orderOf (e.changed? a.program)) ∧
      ∀ id, e.changed? a.program ≠ some id → a'.program.outline? id = base.outline? id := by
  obtain ⟨base, hbase, ⟨id, source, hc, -, hsettle⟩ | ⟨hs, hrefresh⟩⟩ := apply_cases hm h
  · rw [hsettle]
    refine ⟨base, hbase, hbase.recorded_settle hp hc, fun id' hid => outline?_settle _ ?_⟩
    rintro rfl
    exact hid hc
  · rw [hrefresh]
    exact ⟨base, hbase, hbase.recorded_refresh hp hs, fun id _ => outline?_refresh _ _ id⟩

end Program

end SquirrelAnalyzer
