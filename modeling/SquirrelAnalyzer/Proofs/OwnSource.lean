import SquirrelAnalyzer.Proofs.Replaced

namespace SquirrelAnalyzer

namespace Question

variable {p p' : Program}

theorem resolve_plainOf (q : Question) (h : p.PlainOf p') :
    q.resolve p p.answer = q.resolve p' p'.answer := by
  rw [h.answer]
  cases q with
  | definition b => rfl
  | value b => rfl
  | label b => simp only [resolve, h.label]
  | superclasses b => simp only [resolve, h.superclasses]
  | members b => simp only [resolve, h.members]
  | findMember b name => simp only [resolve, h.findMember]

theorem resolve_congr (q : Question) (h : p.plain.PlainOf p') :
    q.resolve p p.answer = q.resolve p' p'.answer :=
  (q.resolve_plainOf p.plainOf_plain).symm.trans (q.resolve_plainOf h)

end Question

namespace Program

structure BuiltFrom (p : Program) (sources : List String) : Prop where
  size : p.units.size = sources.length
  unit : ∀ i s, sources[i]? = some s → ∃ arena, Analysis.parseArena s = .ok arena ∧
    p.skeleton.unit? ⟨i⟩ = some ((SourceUnit.build p.config ⟨i⟩ arena).recording fun _ => none)

variable {p p' : Program} {sources : List String} {source : String} {arena : Arena}

theorem BuiltFrom.congr (h : p.BuiltFrom sources) (hs : p'.skeleton = p.skeleton) :
    p'.BuiltFrom sources where
  size := by
    have hsize (p : Program) : p.skeleton.units.size = p.units.size := Array.size_map
    rw [← hsize, hs, hsize, h.size]
  unit i s hi := by
    rw [hs, config_of_skeleton hs]
    exact h.unit i s hi

theorem BuiltFrom.pushUnit (h : p.BuiltFrom sources) (ha : Analysis.parseArena source = .ok arena) :
    (p.pushUnit arena).BuiltFrom (sources ++ [source]) where
  size := by
    have hsize : (p.pushUnit arena).units.size = p.units.size + 1 := Array.size_push _
    rw [hsize, h.size, List.length_append, List.length_singleton]
  unit i s hi := by
    simp only [skeleton, recording, unit?_mapUnits, unit?_pushUnit]
    rcases Nat.lt_trichotomy i sources.length with hlt | rfl | hgt
    · rw [List.getElem?_append_left hlt] at hi
      have hne : (⟨i⟩ : UnitId) ≠ p.nextId := by
        intro he
        have := UnitId.mk.inj he
        rw [h.size] at this
        omega
      rw [if_neg hne]
      obtain ⟨b, hb, hu⟩ := h.unit i s hi
      exact ⟨b, hb, by rw [← unit?_mapUnits]; exact hu⟩
    · rw [List.getElem?_concat_length] at hi
      cases hi
      have he : (⟨sources.length⟩ : UnitId) = p.nextId := by rw [nextId, h.size]
      refine ⟨arena, ha, ?_⟩
      rw [if_pos he, he]
      rfl
    · have hlength : (sources ++ [source]).length ≤ i := by
        rw [List.length_append, List.length_singleton]
        exact hgt
      rw [List.getElem?_eq_none hlength] at hi
      cases hi

theorem BuiltFrom.pushUnits {arenas : List Arena} {rest : List String} (h : p.BuiltFrom sources)
    (ha : rest.mapM Analysis.parseArena = .ok arenas) :
    (arenas.foldl Program.pushUnit p).BuiltFrom (sources ++ rest) := by
  induction rest generalizing p sources arenas with
  | nil =>
    cases ha
    exact (List.append_nil sources).symm ▸ h
  | cons source rest ih =>
    obtain ⟨arena, arenas, hs, hrest, rfl⟩ := Analysis.of_mapM_cons ha
    rw [List.append_cons, List.foldl_cons]
    exact ih (h.pushUnit hs) hrest

theorem BuiltFrom.skeleton_rebuildUnit (h : p.BuiltFrom sources) {id : UnitId}
    (hs : sources[id.index]? = some source) (ha : Analysis.parseArena source = .ok arena) :
    (p.rebuildUnit id arena).skeleton = p.skeleton := by
  obtain ⟨b, hb, hu⟩ := h.unit id.index source hs
  obtain rfl := Except.ok.inj (ha.symm.trans hb)
  simp only [skeleton, recording, unit?_mapUnits] at hu
  obtain ⟨u, hu, he⟩ := Option.map_eq_some_iff.mp hu
  have hu : p.units[id.index]? = some (some u) := Option.join_eq_some_iff.mp hu
  simp only [skeleton, recording, mapUnits, rebuildUnit, setUnit]
  congr 1
  apply Array.ext_getElem?
  intro i
  rw [Array.getElem?_map, Array.getElem?_map, Array.getElem?_setIfInBounds]
  split
  · next hi =>
    subst hi
    rw [hu, if_pos (Array.getElem?_eq_some_iff.mp hu).1]
    exact congrArg (fun u => some (some u)) he.symm
  · rfl

end Program

namespace Analysis

/-- The analyses of some sources, added together or one by one under any imports. -/
inductive Built : List String → Analysis → Prop
  | ofConfig (config : Config) : Built [] (ofConfig config)
  | ofSources {config : Config} {imports : Imports} {sources : List String} {a : Analysis}
      (h : ofSources config imports sources = .ok a) : Built sources a
  | add {sources : List String} {a a' : Analysis} (h : Built sources a) {source : String}
      {id : UnitId} (ha : a.add source = .ok (id, a')) : Built (sources ++ [source]) a'
  | setImports {sources : List String} {a : Analysis} (h : Built sources a) (imports : Imports) :
      Built sources (a.setImports imports)

variable {a a' : Analysis} {sources : List String} {id : UnitId} {source : String}

theorem Built.reachable (h : Built sources a) : a.Reachable fun _ _ => True := by
  induction h with
  | ofConfig config => exact .ofConfig config
  | ofSources h => exact .ofSources h
  | @add sources a a' h source id ha ih =>
    refine ih.edit (e := .add source) ?_
    rw [Edit.apply, ha]
    rfl
  | setImports h imports ih => exact ih.edit (e := .setImports imports) rfl

theorem Built.program (h : Built sources a) :
    a.program.Sound ∧ a.program.InOrder ∧ a.program.BuiltFrom sources := by
  have hempty (config : Config) (imports : Imports) :
      ({ config, imports } : Program).BuiltFrom [] := ⟨rfl, fun i s hi => by cases hi⟩
  induction h with
  | ofConfig config =>
    have hbare := Program.bare_start config Imports.none
    refine ⟨hbare.sound, fun id u hu => ?_, hempty config Imports.none⟩
    simp [Analysis.ofConfig, Program.unit?] at hu
  | @ofSources config imports sources a h =>
    obtain ⟨arenas, hs, rfl⟩ := of_ofSources h
    have hr := Program.recorded_ofArenas config imports (parsed_of_mapM hs)
    exact ⟨(sound_ofSources h).1, hr.inOrder, ((hempty config imports).pushUnits hs).congr hr.skeleton⟩
  | add h ha ih =>
    obtain ⟨hsound, -, hbuilt⟩ := ih
    obtain ⟨arena, hs, rfl⟩ := of_add h.reachable.within ha
    have hr := hsound.recorded_addUnit (parsed_parseArena hs)
    exact ⟨hsound.addUnit (parsed_parseArena hs), hr.inOrder, (hbuilt.pushUnit hs).congr hr.skeleton⟩
  | @setImports sources a h imports ih =>
    obtain ⟨hsound, -, hbuilt⟩ := ih
    have hr := hsound.recorded_setImports imports
    have hbase : ({ a.program with imports } : Program).BuiltFrom sources :=
      ⟨hbuilt.size, hbuilt.unit⟩
    rw [setImports_eq h.reachable.within]
    exact ⟨hsound.setImports imports, hr.inOrder, hbase.congr hr.skeleton⟩

theorem Built.exists_unit (h : Built sources a) (hs : sources[id.index]? = some source) :
    ∃ u, a.unit? id = some u := by
  obtain ⟨arena, -, hu⟩ := h.program.2.2.unit id.index source hs
  simp only [Program.skeleton, Program.recording, Program.unit?_mapUnits] at hu
  obtain ⟨u, hu, -⟩ := Option.map_eq_some_iff.mp hu
  exact ⟨u, hu⟩

/-- Replacing a unit by its own source succeeds, and keeps all entries exactly if every declaration
has the entry it gets when the declarations of that unit are recorded last. Then all answers are
kept. -/
theorem replace_own_source (h : Built sources a) (hs : sources[id.index]? = some source) :
    ∃ a', a.replace id source = .ok a' ∧
      (a'.program.SameEntries a.program ↔ a.program.Stable (a.program.orderOf (some id))) ∧
      (a'.program.SameEntries a.program → ∀ q : Question,
        (q.ask.run { a' with memo := ∅ }).1 = (q.ask.run { a with memo := ∅ }).1) := by
  obtain ⟨hsound, horder, hbuilt⟩ := h.program
  obtain ⟨arena, ha, -⟩ := hbuilt.unit id.index source hs
  obtain ⟨u, hu⟩ := h.exists_unit hs
  have hid : (a.program.unit? id).isSome := Option.isSome_iff_exists.mpr ⟨u, hu⟩
  have hskel := hbuilt.skeleton_rebuildUnit hs ha
  have hparsed := parsed_parseArena ha
  obtain ⟨hsame, hrec⟩ := Program.records_replaceUnit hsound hid hparsed hskel
  refine ⟨ofProgram (a.program.replaceUnit id arena), ?_,
    Program.sameEntries_replaceUnit_iff hsound horder hid hparsed hskel, fun hentries q => ?_⟩
  · rw [replace_of_ok ha, replaceArena_of_live h.reachable.within hid]
  · have hplain := hentries.plain_eq hsame hrec horder (Program.named_recordAll _ _)
      (Program.named_recordAll _ _)
    have hresolve := q.resolve_congr (Program.plainOf_of_plain_eq hplain)
    rw [q.ask_eq_walk]
    exact congrArg (fun r => (r.run {}).1) hresolve

theorem replace_own_source_class : ∃ a a',
    ofSources {} (Imports.ofList [(⟨1⟩, ⟨0⟩)]) ["class A {}", "function A::f() { return 1; }"] =
      .ok a ∧ (∃ u, a.unit? ⟨1⟩ = some u ∧ u.namespaces.length = 1) ∧
    a.replace ⟨0⟩ "class A {}" = .ok a' ∧ a'.program.SameEntries a.program ∧ ∀ q : Question,
      (q.ask.run { a' with memo := ∅ }).1 = (q.ask.run { a with memo := ∅ }).1 := by
  have hbuilt : (ofSources {} (Imports.ofList [(⟨1⟩, ⟨0⟩)])
      ["class A {}", "function A::f() { return 1; }"]).toOption.any (fun a =>
        (a.unit? ⟨1⟩).any (·.namespaces.length = 1) &&
          decide (a.program.pendingOf ⟨0⟩ = [])) = true := by
    decide +kernel
  obtain ⟨a, ha, h⟩ := exists_ok hbuilt
  obtain ⟨hu, hpend⟩ := Bool.and_eq_true_iff.mp h
  obtain ⟨u, hu, hn⟩ := (Option.any_eq_true _ _).mp hu
  have hs : ["class A {}", "function A::f() { return 1; }"][(⟨0⟩ : UnitId).index]? =
      some "class A {}" := rfl
  obtain ⟨a', ha', hiff, hanswers⟩ := replace_own_source (Built.ofSources ha) hs
  obtain ⟨hsound, horder, -⟩ := (Built.ofSources ha).program
  have hsame := hiff.mpr (horder.stable hsound (of_decide_eq_true hpend))
  exact ⟨a, a', ha, ⟨u, hu, of_decide_eq_true hn⟩, ha', hsame, hanswers hsame⟩

theorem replace_own_source_forgets : ∃ a a' b d,
    ofSources {} (Imports.ofList [(⟨1⟩, ⟨0⟩)])
      ["class A {} A.B <- class {}", "function A::B::f() { return 1; } A.B.f;"] = .ok a ∧
    a.replace ⟨0⟩ "class A {} A.B <- class {}" = .ok a' ∧ ¬ a'.program.SameEntries a.program ∧
    ((definition b).run { a with memo := ∅ }).1 = some d ∧
    ((definition b).run { a' with memo := ∅ }).1 = none := by
  let b : Branch := ⟨⟨1⟩, ⟨11⟩, [⟨12⟩, ⟨13⟩, ⟨14⟩]⟩
  let d : Branch := ⟨⟨1⟩, ⟨7⟩, [⟨14⟩]⟩
  have hbuilt : (ofSources {} (Imports.ofList [(⟨1⟩, ⟨0⟩)])
      ["class A {} A.B <- class {}",
        "function A::B::f() { return 1; } A.B.f;"]).toOption.any (fun a =>
        (a.replace ⟨0⟩ "class A {} A.B <- class {}").toOption.any fun a' => decide (
          (a'.unit? ⟨1⟩).map (·.namespaces) ≠ (a.unit? ⟨1⟩).map (·.namespaces) ∧
          ((definition b).run { a with memo := ∅ }).1 = some d ∧
          ((definition b).run { a' with memo := ∅ }).1 = none)) = true := by
    decide +kernel
  obtain ⟨a, ha, h⟩ := exists_ok hbuilt
  obtain ⟨a', ha', h⟩ := exists_ok h
  obtain ⟨hentries, hbefore, hafter⟩ := of_decide_eq_true h
  exact ⟨a, a', b, d, ha, ha', fun hsame => hentries (hsame ⟨1⟩), hbefore, hafter⟩

end Analysis

end SquirrelAnalyzer
