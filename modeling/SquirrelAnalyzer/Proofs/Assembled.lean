import SquirrelAnalyzer.Proofs.Edited

namespace SquirrelAnalyzer

theorem Arena.shape?_add (a : Arena) (location : Location) (shape : Shape NodeId) (id : NodeId) :
    (a.add location shape).2.shape? id =
      if id.index = a.size then some shape else a.shape? id := by
  unfold Arena.add pushNode Arena.shape? Arena.get? Arena.size
  rw [Array.getElem?_push]
  by_cases h : id.index = a.nodes.size
  · rw [if_pos h, if_pos h]
    rfl
  · rw [if_neg h, if_neg h]

namespace SourceUnit

def Documents (u : SourceUnit) : Prop :=
  ∀ id s, u.arena.isSynthetic id = true → u.arena.shape? id = some s →
    (∃ key, s = .metaProperty key) ∨
      ∃ name property, s = .identifier name ∧ u.declaration? id = some property ∧
        u.arena.isSynthetic property = true

variable {u : SourceUnit}

theorem documents_ofArena (config : Config) {a : Arena} (ha : a.parsedSize = a.size) :
    (ofArena config a).Documents := by
  intro id s hid hs
  have hlt := Arena.lt_size_of_shape? hs
  have hid : a.parsedSize ≤ id.index := of_decide_eq_true hid
  have hlt : id.index < a.size := hlt
  omega

theorem shape?_addMeta (u : SourceUnit) (cls : NodeId) (name : String) (tag : Doc.Attribute)
    (location : Location) (id : NodeId) :
    (u.addMeta cls name tag location).2.arena.shape? id =
      if id.index = u.arena.size + 1 then some (.metaProperty ⟨u.arena.size⟩)
      else if id.index = u.arena.size then some (.identifier name) else u.arena.shape? id := by
  have hsize := u.arena.size_add location (.identifier name)
  have hproperty := (u.arena.add location (.identifier name)).2.shape?_add location
    (.metaProperty ⟨u.arena.size⟩) id
  rw [hsize, u.arena.shape?_add] at hproperty
  exact hproperty

theorem declaration?_addMeta (u : SourceUnit) (cls : NodeId) (name : String) (tag : Doc.Attribute)
    (location : Location) (id : NodeId) :
    (u.addMeta cls name tag location).2.declaration? id =
      if id = ⟨u.arena.size⟩ then some ⟨u.arena.size + 1⟩ else u.declaration? id := by
  have hsize : (u.arena.add location (.identifier name)).2.nodes.size = u.arena.size + 1 :=
    Array.size_push _
  simp only [addMeta, declaration?, NodeTable.get?_insert]
  by_cases hid : id = ⟨u.arena.size⟩
  · rw [if_pos hid]
    subst hid
    simp only [Arena.add, Arena.pushNode, Arena.size, if_true, Option.map_some, Array.size_push]
  · rw [if_neg hid]
    exact congrArg _ (if_neg hid)

theorem Documents.addMeta (h : u.Documents) (hsize : u.arena.parsedSize ≤ u.arena.size)
    (cls : NodeId) (name : String) (tag : Doc.Attribute) (location : Location) :
    (u.addMeta cls name tag location).2.Documents := by
  intro id s hid hs
  have hid : u.arena.isSynthetic id = true := hid
  rw [shape?_addMeta] at hs
  rw [declaration?_addMeta]
  split at hs
  · cases hs
    exact .inl ⟨_, rfl⟩
  split at hs
  · next hkey =>
    cases hs
    have he : id = ⟨u.arena.size⟩ := by
      cases id
      cases hkey
      rfl
    refine .inr ⟨name, ⟨u.arena.size + 1⟩, rfl, if_pos he, decide_eq_true ?_⟩
    show u.arena.parsedSize ≤ u.arena.size + 1
    omega
  · next hkey =>
    have hne : id ≠ ⟨u.arena.size⟩ := by
      rintro rfl
      exact hkey rfl
    rw [if_neg hne]
    exact h id s hid hs

theorem documents_build (config : Config) (id : UnitId) {a : Arena} (ha : a.Parsed) :
    (build config id a).Documents := by
  have h : (build config id a).arena.parsedSize ≤ (build config id a).arena.size ∧
      (build config id a).Documents := by
    refine attachComments_induction
      (motive := fun u => u.arena.parsedSize ≤ u.arena.size ∧ u.Documents) ?_ ?_ ?_ config
    · intro u f hu hnames
      refine ⟨hu.1, fun id s hid hs => ?_⟩
      have hsame : (u.mapFacts f).declaration? id = u.declaration? id := by
        simp only [declaration?, mapFacts, hnames.declarations]
      rw [hsame]
      exact hu.2 id s hid hs
    · intro u cls name tag location hu
      refine ⟨?_, hu.2.addMeta hu.1 cls name tag location⟩
      exact Nat.le_trans hu.1 (u.extends_addMeta cls name tag location).size
    · exact ⟨ha.parsedSize_le, documents_ofArena config ha.whole⟩
  exact h.2

end SourceUnit

namespace Program

def Assembled (p : Program) : Prop :=
  ∀ id u, p.skeleton.unit? id = some u → ∃ source arena,
    Analysis.parseArena source = .ok arena ∧
      u = (SourceUnit.build p.config id arena).recording fun _ => none

variable {p p' base : Program} {e : Edit} {id : UnitId} {u : SourceUnit}

theorem Assembled.congr (h : p.Assembled) (hs : p'.skeleton = p.skeleton) : p'.Assembled := by
  unfold Assembled
  rw [hs, config_of_skeleton hs]
  exact h

theorem Assembled.edited (h : p.Assembled) (he : p.Edited e base) : base.Assembled := by
  intro id u hu
  rw [unit?_skeleton] at hu
  obtain ⟨v, hv, rfl⟩ := Option.map_eq_some_iff.mp hu
  by_cases hc : e.changed? p = some id
  · obtain ⟨source, arena, -, ha, rfl⟩ := he.built id v hc hv
    rw [he.config]
    exact ⟨source, arena, ha, rfl⟩
  · rw [he.kept id hc] at hv
    rw [he.config]
    exact h id _ (by rw [unit?_skeleton, hv]; rfl)

theorem Assembled.pushUnits {sources : List String} {arenas : List Arena} (h : p.Assembled)
    (ha : sources.mapM Analysis.parseArena = .ok arenas) :
    (arenas.foldl pushUnit p).Assembled := by
  induction sources generalizing p arenas with
  | nil =>
    cases ha
    exact h
  | cons source sources ih =>
    obtain ⟨arena, arenas, hs, hrest, rfl⟩ := Analysis.of_mapM_cons ha
    rw [List.foldl_cons]
    exact ih (h.edited (edited_pushUnit p hs)) hrest

theorem assembled_start (config : Config) (imports : Imports) :
    ({ config, imports } : Program).Assembled := by
  intro id u hu
  rw [unit?_skeleton] at hu
  simp [unit?] at hu

theorem Assembled.exists_build (h : p.Assembled) (hu : p.unit? id = some u) : ∃ source arena,
    Analysis.parseArena source = .ok arena ∧ ∃ namespaces outline,
      u = { SourceUnit.build p.config id arena with namespaces, outline } := by
  obtain ⟨source, arena, ha, he⟩ := h id _ (by rw [unit?_skeleton, hu]; rfl)
  exact ⟨source, arena, ha, u.namespaces, u.outline, SourceUnit.eq_of_recording he⟩

theorem Assembled.documents (h : p.Assembled) (hu : p.unit? id = some u) : u.Documents := by
  obtain ⟨source, arena, ha, namespaces, outline, rfl⟩ := h.exists_build hu
  exact SourceUnit.documents_build p.config id (Analysis.parsed_parseArena ha)

end Program

theorem Analysis.Reachable.assembled {asked : Program → Branch → Prop} {a : Analysis}
    (h : a.Reachable asked) : a.program.Assembled := by
  induction h with
  | ofConfig config => exact Program.assembled_start config Imports.none
  | @ofSources config imports sources a h =>
    obtain ⟨arenas, hs, rfl⟩ := Analysis.of_ofSources h
    have hr := Program.recorded_ofArenas config imports (Analysis.parsed_of_mapM hs)
    exact ((Program.assembled_start config imports).pushUnits hs).congr hr.skeleton
  | edit h he ih =>
    obtain ⟨base, hbase, hr, -⟩ := Program.recorded_apply h.sound h.within he
    exact (ih.edited hbase).congr hr.skeleton
  | @ask a _ q _ ih =>
    rw [Analysis.program_ask]
    exact ih

end SquirrelAnalyzer
