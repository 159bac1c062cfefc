import SquirrelAnalyzer.Proofs.Recorded

namespace SquirrelAnalyzer

namespace Program

def orderOf (p : Program) (changed : Option UnitId) : List Branch :=
  (p.others changed ++ changed.toList).flatMap p.pendingOf

def InOrder (p : Program) : Prop := p.Records (p.recordAll (p.orderOf none))

variable {p p' : Program} {d : Branch} {changed : Option UnitId}

theorem liveIds_skeleton (p : Program) : p.skeleton.liveUnits.map (·.id) = p.liveUnits.map (·.id) := by
  rw [skeleton, recording, liveUnits_mapUnits, List.map_map]
  rfl

theorem PlainOf.liveIds (h : p.skeleton.PlainOf p'.skeleton) :
    p.liveUnits.map (·.id) = p'.liveUnits.map (·.id) := by
  rw [← liveIds_skeleton p, h.liveUnits, ← liveIds_skeleton p', List.map_map]
  rfl

theorem PlainOf.orderOf (h : p.skeleton.PlainOf p'.skeleton) : p.orderOf = p'.orderOf := by
  funext changed
  unfold Program.orderOf others
  rw [PlainOf.liveIds h, PlainOf.pendingOf h]

theorem orderOf_congr (h : p.skeleton = p'.skeleton) : p.orderOf = p'.orderOf :=
  PlainOf.orderOf (plainOf_skeleton h)

theorem others_none (p : Program) : p.others none = p.liveUnits.map (·.id) := by
  unfold others
  rw [List.filter_eq_self]
  intro id _
  rfl

theorem Recorded.orderOf (h : Recorded p p' (p.orderOf changed)) :
    p'.Records (p'.recordAll (p'.orderOf changed)) := by
  rw [recordAll_congr h.skeleton, orderOf_congr h.skeleton]
  exact h.records

theorem Recorded.inOrder (h : Recorded p p' (p.orderOf none)) : p'.InOrder := h.orderOf

theorem mem_liveIds (hunit : ∀ id u, p.unit? id = some u → u.id = id ∧ u.Sound) {id : UnitId} :
    id ∈ p.liveUnits.map (·.id) ↔ ∃ u, p.unit? id = some u := by
  constructor
  · intro h
    obtain ⟨u, hu, rfl⟩ := List.mem_map.mp h
    obtain ⟨id, hid⟩ := mem_liveUnits.mp hu
    exact ⟨u, (hunit id u hid).1 ▸ hid⟩
  · rintro ⟨u, hu⟩
    exact List.mem_map.mpr ⟨u, mem_liveUnits.mpr ⟨id, hu⟩, (hunit id u hu).1⟩

theorem mem_orderIds (hunit : ∀ id u, p.unit? id = some u → u.id = id ∧ u.Sound) {id : UnitId}
    {u : SourceUnit} (hu : p.unit? id = some u) : id ∈ p.others changed ++ changed.toList := by
  by_cases hc : changed = some id
  · subst hc
    simp
  · refine List.mem_append_left _ (List.mem_filter.mpr ⟨(mem_liveIds hunit).mpr ⟨u, hu⟩, ?_⟩)
    simpa using Ne.symm hc

theorem mem_orderOf (hunit : ∀ id u, p.unit? id = some u → u.id = id ∧ u.Sound) {id : UnitId}
    {u : SourceUnit} (hu : p.unit? id = some u) (hd : d ∈ u.pending) : d ∈ p.orderOf changed :=
  List.mem_flatMap.mpr ⟨id, mem_orderIds hunit hu, pendingOf_of_unit? hu ▸ hd⟩

theorem exists_unit_of_mem (hd : d ∈ p.orderOf changed) :
    ∃ id u, p.unit? id = some u ∧ d ∈ u.pending := by
  obtain ⟨id, -, hd⟩ := List.mem_flatMap.mp hd
  unfold pendingOf at hd
  cases hu : p.unit? id with
  | none =>
    rw [hu] at hd
    cases hd
  | some u =>
    rw [hu] at hd
    exact ⟨id, u, hu, hd⟩

theorem nodup_orderIds (hunit : ∀ id u, p.unit? id = some u → u.id = id ∧ u.Sound)
    (changed : Option UnitId) : (p.others changed ++ changed.toList).Nodup := by
  refine List.nodup_append.mpr ⟨nodup_others hunit changed, ?_, ?_⟩
  · cases changed <;> simp
  · rintro id hid id' hid' rfl
    rw [Option.mem_toList.mp hid'] at hid
    exact p.notMem_others id hid

theorem nodup_orderOf (hunit : ∀ id u, p.unit? id = some u → u.id = id ∧ u.Sound)
    (changed : Option UnitId) : (p.orderOf changed).Nodup := by
  refine List.nodup_flatMap.mpr ⟨fun id _ => (distinct hunit).nodup id, ?_⟩
  refine (nodup_orderIds hunit changed).imp ?_
  intro id id' hne d hd hd'
  exact hne (((distinct hunit).unit id d hd).symm.trans ((distinct hunit).unit id' d hd'))

theorem Sound.recorded_setImports (h : p.Sound) (imports : Imports) :
    Recorded { p with imports } (p.setImports imports)
      (({ p with imports } : Program).orderOf none) := by
  have hr := recorded_refresh (p := { p with imports }) none h.unit nofun
  unfold orderOf
  rw [Option.toList_none, List.append_nil]
  exact hr

theorem liveUnits_pushUnit (p : Program) (a : Arena) :
    (p.pushUnit a).liveUnits = p.liveUnits ++ [SourceUnit.build p.config p.nextId a] := by
  simp only [pushUnit, liveUnits, Array.toList_push, List.filterMap_append]
  rfl

theorem liveIds_pushUnit (p : Program) (a : Arena) :
    (p.pushUnit a).liveUnits.map (·.id) = p.liveUnits.map (·.id) ++ [p.nextId] := by
  rw [liveUnits_pushUnit, List.map_append, List.map_singleton, SourceUnit.id_build]

theorem others_pushUnit (h : p.Sound) (a : Arena) :
    (p.pushUnit a).others (some p.nextId) = p.liveUnits.map (·.id) := by
  have hold : (p.liveUnits.map (·.id)).filter (some · ≠ some p.nextId) =
      p.liveUnits.map (·.id) := by
    rw [List.filter_eq_self]
    intro id hid
    obtain ⟨u, hu⟩ := (mem_liveIds h.unit).mp hid
    have hne : id ≠ p.nextId := by
      rintro rfl
      rw [unit?_nextId] at hu
      cases hu
    simpa using hne
  unfold others
  rw [liveIds_pushUnit, List.filter_append, hold]
  simp

theorem Sound.recorded_addUnit (h : p.Sound) {a : Arena} (ha : a.Parsed) :
    Recorded (p.pushUnit a) (p.addUnit a) ((p.pushUnit a).orderOf none) := by
  have hr := recorded_settle (fun _ _ => built_pushUnit h.unit ha) (p.cleared_pushUnit a)
  have horder : (p.pushUnit a).orderOf none = ((p.pushUnit a).others (some p.nextId)).flatMap
      (p.pushUnit a).pendingOf ++ (p.pushUnit a).pendingOf p.nextId := by
    unfold orderOf
    rw [others_pushUnit h, others_none, liveIds_pushUnit]
    simp
  rw [horder]
  exact hr

theorem liveIds_pushUnits (p : Program) (arenas : List Arena) :
    (arenas.foldl pushUnit p).liveUnits.map (·.id) =
      p.liveUnits.map (·.id) ++ (List.range' p.units.size arenas.length).map UnitId.mk := by
  induction arenas generalizing p with
  | nil => exact (List.append_nil _).symm
  | cons a arenas ih =>
    have hsize : (p.pushUnit a).units.size = p.units.size + 1 := Array.size_push _
    rw [List.foldl_cons, ih, liveIds_pushUnit, hsize, List.length_cons, List.range'_succ,
      List.append_assoc]
    rfl

theorem recorded_ofArenas (config : Config) (imports : Imports) {arenas : List Arena}
    (ha : ∀ a ∈ arenas, a.Parsed) :
    Recorded (arenas.foldl pushUnit { config, imports }) (ofArenas config imports arenas)
      ((arenas.foldl pushUnit { config, imports }).orderOf none) := by
  have hbare := bare_pushUnits (bare_start config imports) ha
  have hunit (id : UnitId) (u : SourceUnit)
      (hu : (arenas.foldl pushUnit { config, imports }).unit? id = some u) :
      u.id = id ∧ u.Sound := ⟨(hbare id u hu).1, (hbare id u hu).2.1⟩
  have hids := liveIds_pushUnits { config, imports } arenas
  have hlive : ((List.range arenas.length).map UnitId.mk) =
      (arenas.foldl pushUnit { config, imports }).others none := by
    rw [others_none, hids, List.range_eq_range']
    rfl
  have hr := (recorded_bare hbare rfl).recordUnits true (distinct hunit)
    (nodup_others hunit none) nofun
  unfold ofArenas orderOf
  rw [hlive, Option.toList_none, List.append_nil]
  exact hr

end Program

end SquirrelAnalyzer
