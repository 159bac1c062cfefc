import SquirrelAnalyzer.Proofs.OwnSource

namespace SquirrelAnalyzer

namespace Program

variable {p p' : Program}

theorem skeleton_pushUnit (p : Program) (a : Arena) :
    (p.pushUnit a).skeleton = { p.skeleton with
      units := p.skeleton.units.push
        (some ((SourceUnit.build p.config p.nextId a).recording fun _ => none)) } := by
  simp only [skeleton, recording, mapUnits, pushUnit, Array.map_push, Option.map_some]

theorem skeleton_pushUnit_congr (h : p.skeleton = p'.skeleton) (a : Arena) :
    (p.pushUnit a).skeleton = (p'.pushUnit a).skeleton := by
  have hsize := congrArg (fun p => p.units.size) h
  simp only [skeleton, recording, mapUnits, Array.size_map] at hsize
  have hid : p.nextId = p'.nextId := congrArg UnitId.mk hsize
  rw [skeleton_pushUnit, skeleton_pushUnit, h, config_of_skeleton h, hid]

theorem InOrder.plain_eq (h : p.InOrder) (h' : p'.InOrder) (hs : p.skeleton = p'.skeleton) :
    p.plain = p'.plain := by
  rw [Records.plain_eq h, Records.plain_eq h', ← orderOf_congr hs, ← recordAll_congr hs,
    recording_congr_skeleton hs]

theorem Sound.inOrder_addUnit (h : p.Sound) {a : Arena} (ha : a.Parsed) : (p.addUnit a).InOrder :=
  (h.recorded_addUnit ha).inOrder

theorem inOrder_addUnits {arenas : List Arena} (h : p.Sound) (ho : p.InOrder)
    (ha : ∀ a ∈ arenas, a.Parsed) (hs : p.skeleton = p'.skeleton) :
    (arenas.foldl addUnit p).InOrder ∧
      (arenas.foldl addUnit p).skeleton = (arenas.foldl pushUnit p').skeleton := by
  induction arenas generalizing p p' with
  | nil => exact ⟨ho, hs⟩
  | cons a arenas ih =>
    have hparsed := ha a List.mem_cons_self
    have hstep := (h.recorded_addUnit hparsed).skeleton.trans (skeleton_pushUnit_congr hs a)
    exact ih (h.addUnit hparsed) (h.inOrder_addUnit hparsed)
      (fun b hb => ha b (List.mem_cons_of_mem a hb)) hstep

end Program

namespace Analysis

variable {a a' : Analysis}

def addAll (a : Analysis) : List String → Except EditError (List UnitId × Analysis)
  | [] => .ok ([], a)
  | source :: sources => do
    let (id, a) ← a.add source
    let (ids, a) ← a.addAll sources
    return (id :: ids, a)

theorem exists_arenas {sources : List String}
    (h : ∀ source ∈ sources, ∃ arena, parseArena source = .ok arena) :
    ∃ arenas, sources.mapM parseArena = .ok arenas := by
  induction sources with
  | nil => exact ⟨[], rfl⟩
  | cons source sources ih =>
    obtain ⟨arena, hs⟩ := h source List.mem_cons_self
    obtain ⟨arenas, hrest⟩ := ih fun s hs => h s (List.mem_cons_of_mem source hs)
    refine ⟨arena :: arenas, ?_⟩
    rw [List.mapM_cons, hs, hrest]
    rfl

theorem length_of_mapM {sources : List String} {arenas : List Arena}
    (h : sources.mapM parseArena = .ok arenas) : arenas.length = sources.length := by
  induction sources generalizing arenas with
  | nil =>
    cases h
    rfl
  | cons source sources ih =>
    obtain ⟨arena, rest, -, hrest, rfl⟩ := of_mapM_cons h
    rw [List.length_cons, List.length_cons, ih hrest]

theorem size_addUnit (hp : a.program.Sound) {arena : Arena} (ha : arena.Parsed) :
    (a.program.addUnit arena).units.size = a.program.units.size + 1 := by
  have hsize := congrArg (fun p => p.units.size) (hp.recorded_addUnit ha).skeleton
  simp only [Program.skeleton, Program.recording, Program.mapUnits, Array.size_map] at hsize
  rw [hsize, Program.pushUnit, Array.size_push]

theorem addAll_eq (hp : a.program.Sound) (hm : a.memo = ∅) {sources : List String}
    {arenas : List Arena} (h : sources.mapM parseArena = .ok arenas) :
    a.addAll sources =
      .ok ((List.range' a.program.units.size sources.length).map UnitId.mk,
        ofProgram (arenas.foldl Program.addUnit a.program)) := by
  induction sources generalizing a arenas with
  | nil =>
    cases h
    cases a
    cases hm
    rfl
  | cons source sources ih =>
    obtain ⟨arena, rest, hs, hrest, rfl⟩ := of_mapM_cons h
    have hparsed := parsed_parseArena hs
    have hadded := ih (a := ofProgram (a.program.addUnit arena)) (hp.addUnit hparsed) rfl hrest
    have hwithin : a.memo.Within a.program := hm ▸ Memo.within_empty a.program
    simp only [addAll, add_eq hwithin, hs, Except.map, bind, Except.bind, hadded, pure, Except.pure]
    have hsize : (ofProgram (a.program.addUnit arena)).program.units.size =
        a.program.units.size + 1 := size_addUnit hp hparsed
    rw [hsize, List.length_cons, List.range'_succ]
    rfl

theorem ask_congr (h : a.program.plain.PlainOf a'.program) (hm : a.memo = a'.memo)
    (questions : List Question) :
    (Question.askAll questions a).memo = (Question.askAll questions a').memo ∧ ∀ q : Question,
      (q.ask.run (Question.askAll questions a)).1 = (q.ask.run (Question.askAll questions a')).1 := by
  have hask (q : Question) {a a' : Analysis} (h : a.program.plain.PlainOf a'.program)
      (hm : a.memo = a'.memo) : (q.ask.run a).1 = (q.ask.run a').1 ∧
        (q.ask.run a).2.memo = (q.ask.run a').2.memo := by
    have hrun : (q.resolve a.program a.program.answer).run { memo := a.memo } =
        (q.resolve a'.program a'.program.answer).run { memo := a'.memo } := by
      rw [hm, q.resolve_congr h]
    rw [q.ask_eq_walk]
    exact ⟨congrArg (·.1) hrun, congrArg (fun r => r.2.memo) hrun⟩
  induction questions generalizing a a' with
  | nil => exact ⟨hm, fun q => (hask q h hm).1⟩
  | cons q questions ih =>
    refine ih ?_ (hask q h hm).2
    rw [program_ask, program_ask]
    exact h

/-- Adding sources one by one gives the units that building them together gives, up to their
outlines, and all answers are the same. -/
theorem addAll_ofSources (config : Config) (imports : Imports) {sources : List String}
    (h : ∀ source ∈ sources, ∃ arena, parseArena source = .ok arena) : ∃ ids a b,
    ((ofConfig config).setImports imports).addAll sources = .ok (ids, a) ∧
    ofSources config imports sources = .ok b ∧
    ids = (List.range sources.length).map UnitId.mk ∧ b.program.liveUnits.map (·.id) = ids ∧
    a.program.plain = b.program.plain ∧ ∀ (questions : List Question) (q : Question),
      (q.ask.run (Question.askAll questions a)).1 =
        (q.ask.run (Question.askAll questions b)).1 := by
  obtain ⟨arenas, hs⟩ := exists_arenas h
  have hparsed := parsed_of_mapM hs
  obtain ⟨hsound, hstart, -⟩ := ((Built.ofConfig config).setImports imports).program
  obtain ⟨hinOrder, hskel⟩ := Program.inOrder_addUnits hsound hstart hparsed rfl
  have htogether := Program.recorded_ofArenas config imports hparsed
  have hplain := hinOrder.plain_eq htogether.inOrder (hskel.trans htogether.skeleton.symm)
  have hanswers := @ask_congr (ofProgram _) (ofProgram _) (Program.plainOf_of_plain_eq hplain) rfl
  have hids : (Program.ofArenas config imports arenas).liveUnits.map (·.id) =
      (List.range' 0 sources.length).map UnitId.mk := by
    rw [← Program.liveIds_skeleton, htogether.skeleton, Program.liveIds_skeleton,
      Program.liveIds_pushUnits, length_of_mapM hs]
    rfl
  refine ⟨_, _, ofProgram (Program.ofArenas config imports arenas), addAll_eq hsound rfl hs, ?_, ?_,
    hids, hplain, fun questions => (hanswers questions).2⟩
  · exact ofSources_of_mapM hs
  · rw [List.range_eq_range']
    rfl

theorem addAll_ofSources_owner_last :
    (∀ source ∈ ["function A::f() { return 1; }", "class A {} local a = A(); a.f();"],
      ∃ arena, parseArena source = .ok arena) ∧ ∃ ids a b,
    ((ofConfig {}).setImports (Imports.ofList [(⟨0⟩, ⟨1⟩)])).addAll
      ["function A::f() { return 1; }", "class A {} local a = A(); a.f();"] = .ok (ids, a) ∧
    ofSources {} (Imports.ofList [(⟨0⟩, ⟨1⟩)])
      ["function A::f() { return 1; }", "class A {} local a = A(); a.f();"] = .ok b ∧
    ids = [⟨0⟩, ⟨1⟩] ∧ b.program.liveUnits.map (·.id) = ids ∧
    a.program.plain = b.program.plain ∧ ∀ (questions : List Question) (q : Question),
      (q.ask.run (Question.askAll questions a)).1 =
        (q.ask.run (Question.askAll questions b)).1 := by
  have hparses : ∀ source ∈ ["function A::f() { return 1; }", "class A {} local a = A(); a.f();"],
      ∃ arena, parseArena source = .ok arena := by
    have hall : ["function A::f() { return 1; }", "class A {} local a = A(); a.f();"].all
        (fun source => (parseArena source).toOption.any fun _ => true) = true := by decide +kernel
    intro source hs
    obtain ⟨arena, ha, -⟩ := exists_ok (List.all_eq_true.mp hall source hs)
    exact ⟨arena, ha⟩
  exact ⟨hparses, addAll_ofSources {} (Imports.ofList [(⟨0⟩, ⟨1⟩)]) hparses⟩

end Analysis

end SquirrelAnalyzer
