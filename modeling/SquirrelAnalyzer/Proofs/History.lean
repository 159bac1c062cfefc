import SquirrelAnalyzer.Proofs.Edited
import SquirrelAnalyzer.Proofs.OneByOne

namespace SquirrelAnalyzer

abbrev Sources := UnitId → Option String

def Edit.sources (p : Program) (e : Edit) (s : Sources) : Sources :=
  match e.changed? p with
  | some id => Function.update s id e.source?
  | none => s

namespace Analysis

/-- The analyses that edits and questions lead to, with the sources of their units. -/
inductive History : Sources → Analysis → Prop
  | ofConfig (config : Config) : History (fun _ => none) (ofConfig config)
  | ofSources {config : Config} {imports : Imports} {sources : List String} {a : Analysis}
      (h : ofSources config imports sources = .ok a) : History (fun id => sources[id.index]?) a
  | edit {s : Sources} {a a' : Analysis} (h : History s a) {e : Edit} (he : e.apply a = .ok a') :
      History (e.sources a.program s) a'
  | ask {s : Sources} {a : Analysis} (h : History s a) (q : Question) : History s (q.ask.run a).2

end Analysis

namespace Program

def fresh? (config : Config) (id : UnitId) (source : String) : Option SourceUnit :=
  (Analysis.parseArena source).toOption.map fun arena =>
    (SourceUnit.build config id arena).recording fun _ => none

structure BuiltBy (p : Program) (s : Sources) : Prop where
  loaded : ∀ id, (p.unit? id).isSome = (s id).isSome
  unit : ∀ id, p.skeleton.unit? id = (s id).bind (fresh? p.config id)

variable {p p' base : Program} {s : Sources} {e : Edit} {id : UnitId} {u : SourceUnit}
  {source : String} {arena : Arena}

theorem fresh?_of_parseArena (config : Config) (id : UnitId)
    (h : Analysis.parseArena source = .ok arena) :
    fresh? config id source =
      some ((SourceUnit.build config id arena).recording fun _ => none) := by
  rw [fresh?, h]
  rfl

theorem isSome_skeleton (p : Program) (id : UnitId) :
    (p.skeleton.unit? id).isSome = (p.unit? id).isSome := by
  rw [unit?_skeleton, Option.isSome_map]

theorem BuiltBy.congr (h : p.BuiltBy s) (hs : p'.skeleton = p.skeleton) : p'.BuiltBy s := by
  refine ⟨fun id => ?_, fun id => ?_⟩
  · rw [← isSome_skeleton, hs, isSome_skeleton, h.loaded]
  · rw [hs, config_of_skeleton hs, h.unit]

theorem BuiltBy.plainOf (h : p.BuiltBy s) (h' : p'.BuiltBy s) (hc : p.config = p'.config)
    (hi : p.imports = p'.imports) : p.skeleton.PlainOf p'.skeleton := by
  refine ⟨hc, hi, fun id => ?_⟩
  rw [h.unit, hc, ← h'.unit, unit?_skeleton]
  cases p'.unit? id <;> rfl

theorem BuiltFrom.builtBy {sources : List String} (h : p.BuiltFrom sources) :
    p.BuiltBy fun id => sources[id.index]? := by
  have hunit (id : UnitId) :
      p.skeleton.unit? id = sources[id.index]?.bind (fresh? p.config id) := by
    cases hs : sources[id.index]? with
    | some source =>
      obtain ⟨arena, ha, hu⟩ := h.unit id.index source hs
      rw [hu, Option.bind_some, fresh?_of_parseArena p.config id ha]
    | none =>
      have hlt : p.units.size ≤ id.index := h.size ▸ List.getElem?_eq_none_iff.mp hs
      rw [unit?_skeleton, unit?, Array.getElem?_eq_none hlt]
      rfl
  refine ⟨fun id => ?_, hunit⟩
  rw [← isSome_skeleton, hunit]
  cases hs : sources[id.index]? with
  | none => rfl
  | some source =>
    obtain ⟨arena, ha, -⟩ := h.unit id.index source hs
    rw [Option.bind_some, fresh?_of_parseArena p.config id ha]
    rfl

theorem BuiltBy.edited (h : p.BuiltBy s) (he : p.Edited e base) :
    base.BuiltBy (e.sources p s) := by
  have hsources (id : UnitId) :
      e.sources p s id = if e.changed? p = some id then e.source? else s id := by
    unfold Edit.sources
    cases hc : e.changed? p with
    | none => rfl
    | some id' =>
      by_cases hid : id' = id
      · subst hid
        simp
      · rw [if_neg (by simpa using hid)]
        exact Function.update_of_ne (Ne.symm hid) _ _
  refine ⟨fun id => ?_, fun id => ?_⟩
  · rw [hsources]
    by_cases hc : e.changed? p = some id
    · rw [if_pos hc, he.loaded id hc]
    · rw [if_neg hc, he.kept id hc, h.loaded]
  · rw [hsources, unit?_skeleton, he.config]
    by_cases hc : e.changed? p = some id
    · rw [if_pos hc]
      cases hs : e.source? with
      | none =>
        rw [he.unit?_eq_none hc hs]
        rfl
      | some source =>
        obtain ⟨arena, ha, hu⟩ := he.exists_build hc hs
        rw [hu, Option.bind_some, fresh?_of_parseArena p.config id ha]
        rfl
    · rw [if_neg hc, he.kept id hc, ← h.unit, unit?_skeleton]

end Program

namespace Analysis

variable {a a' : Analysis} {s : Sources}

theorem History.reachable (h : History s a) : a.Reachable fun _ _ => True := by
  induction h with
  | ofConfig config => exact .ofConfig config
  | ofSources h => exact .ofSources h
  | edit _ he ih => exact ih.edit he
  | ask _ q ih => exact ih.ask trivial

theorem History.builtBy (h : History s a) : a.program.BuiltBy s := by
  induction h with
  | ofConfig config => exact (Built.ofConfig config).program.2.2.builtBy
  | ofSources h => exact (Built.ofSources h).program.2.2.builtBy
  | edit h he ih =>
    obtain ⟨base, hbase, hrec, -⟩ := Program.recorded_apply h.reachable.sound h.reachable.within he
    exact (ih.edited hbase).congr hrec.skeleton
  | @ask s a h q ih => exact (program_ask q a).symm ▸ ih

end Analysis

theorem SourceUnit.eq_of_plain {u v : SourceUnit} (h : u.plain = v.plain)
    (ho : u.outline = v.outline) : u = v :=
  calc u = { u.plain with outline := u.outline } := rfl
    _ = { v.plain with outline := v.outline } := by rw [h, ho]
    _ = v := rfl

namespace Program

variable {p p' : Program} {s : Sources}

theorem eq_of_plain (h : p.plain = p'.plain) (ho : ∀ id, p.outline? id = p'.outline? id) :
    p = p' := by
  have hunits : p.units = p'.units := by
    apply Array.ext_getElem?
    intro i
    have hplain : p.units[i]?.map (Option.map SourceUnit.plain) =
        p'.units[i]?.map (Option.map SourceUnit.plain) := by
      rw [← Array.getElem?_map, ← Array.getElem?_map]
      exact congrArg (fun p : Program => p.units[i]?) h
    have houtline := ho ⟨i⟩
    simp only [outline?, unit?] at houtline
    rcases hu : p.units[i]? with - | - | u <;> rcases hu' : p'.units[i]? with - | - | u' <;>
      simp only [hu, hu', Option.map_some, Option.map_none, Option.join_some, Option.join_none,
        reduceCtorEq, Option.some.injEq] at hplain houtline ⊢
    exact SourceUnit.eq_of_plain hplain houtline
  calc p = { p.plain with units := p.units } := rfl
    _ = { p'.plain with units := p'.units } := by rw [h, hunits]
    _ = p' := rfl

theorem imports_setImports (hp : p.Sound) (imports : Imports) :
    (p.setImports imports).imports = imports :=
  imports_of_skeleton (hp.recorded_setImports imports).skeleton

theorem setImports_setImports (hp : p.Sound) (imports : Imports) :
    (p.setImports imports).setImports imports = p.setImports imports := by
  have hfirst := hp.recorded_setImports imports
  have hsecond := (hp.setImports imports).recorded_setImports imports
  have hsame : ({ p.setImports imports with imports } : Program) = p.setImports imports := by
    have heta {q : Program} (h : q.imports = imports) : ({ q with imports } : Program) = q := by
      subst h
      rfl
    exact heta (imports_setImports hp imports)
  -- both rounds record everything from nothing, and neither touches an outline
  apply eq_of_plain
  · exact hsecond.inOrder.plain_eq hfirst.inOrder (hsecond.skeleton.trans (by rw [hsame]))
  · intro id
    exact (outline?_refresh _ none id).trans (by rw [hsame])

end Program

namespace Program

variable {p p' : Program}

theorem plainOf_setImports (hp : p.Sound) (hp' : p'.Sound) {imports : Imports}
    (hs : ({ p with imports } : Program).skeleton.PlainOf
      ({ p' with imports } : Program).skeleton) :
    (p.setImports imports).plain.PlainOf (p'.setImports imports) := by
  have hr := hp.recorded_setImports imports
  have hr' := hp'.recorded_setImports imports
  have hrecords := hr.records
  rw [PlainOf.orderOf hs, PlainOf.recordAll hs] at hrecords
  refine hrecords.plainOf hr'.records ?_
  rw [hr.skeleton, hr'.skeleton]
  exact hs

theorem setImports_eq_recordUnits (p : Program) (imports : Imports) :
    p.setImports imports = (p.liveUnits.map (·.id)).foldl (recordUnit false)
      ((p.liveUnits.map (·.id)).foldl clearNamespaces { p with imports }) := by
  rw [← p.others_none]
  rfl

end Program

namespace Analysis

variable {a a' : Analysis} {s : Sources}

/-- New imports leave nothing of the way to an analysis: the units come to be the same but for their
outlines, and all answers too. The entries are recorded from nothing, by increasing number of the
unit, and once more comes to the same. -/
theorem setImports_forgets (h : History s a) (h' : History s a')
    (hc : a.program.config = a'.program.config) (imports : Imports) :
    (∀ id, ((a.setImports imports).unit? id).map SourceUnit.plain =
      ((a'.setImports imports).unit? id).map SourceUnit.plain) ∧
    (∀ (questions : List Question) (q : Question),
      (q.ask.run (Question.askAll questions (a.setImports imports))).1 =
        (q.ask.run (Question.askAll questions (a'.setImports imports))).1) ∧
    (∃ ids : List UnitId, ids.Pairwise (·.index < ·.index) ∧
      (∀ id, id ∈ ids ↔ (a.unit? id).isSome) ∧
      a.setImports imports = ofProgram (ids.foldl (Program.recordUnit false)
        (ids.foldl Program.clearNamespaces { a.program with imports }))) ∧
    (a.setImports imports).setImports imports = a.setImports imports := by
  have hsound := h.reachable.sound
  have hbuilt : ({ a.program with imports } : Program).BuiltBy s :=
    ⟨h.builtBy.loaded, h.builtBy.unit⟩
  have hbuilt' : ({ a'.program with imports } : Program).BuiltBy s :=
    ⟨h'.builtBy.loaded, h'.builtBy.unit⟩
  have hplain := Program.plainOf_setImports hsound h'.reachable.sound
    (hbuilt.plainOf hbuilt' hc rfl)
  rw [setImports_eq h.reachable.within, setImports_eq h'.reachable.within,
    setImports_eq (Memo.within_empty _)]
  have hunits (id : UnitId) : ((a.program.setImports imports).unit? id).map SourceUnit.plain =
      ((a'.program.setImports imports).unit? id).map SourceUnit.plain :=
    ((Program.plainOf_plain _).unit id).symm.trans (hplain.unit id)
  have hanswers := @ask_congr (ofProgram (a.program.setImports imports))
    (ofProgram (a'.program.setImports imports)) hplain rfl
  refine ⟨hunits, fun questions => (hanswers questions).2, ?_, ?_⟩
  · refine ⟨a.program.liveUnits.map (·.id), ?_, fun id => ?_, ?_⟩
    · exact Program.sorted_liveIds fun id u hu => (hsound.unit id u hu).1
    · rw [Program.mem_liveIds hsound.unit, Option.isSome_iff_exists]
      rfl
    · exact congrArg ofProgram (a.program.setImports_eq_recordUnits imports)
  · exact congrArg ofProgram (Program.setImports_setImports hsound imports)

theorem setImports_forgets_replaced : ∃ s a a' b b',
    ofSources {} (Imports.ofList [(⟨1⟩, ⟨0⟩)])
      ["class A {}", "function A::f() { return 1; } A.f;", "class B {}"] = .ok a ∧
    a.remove ⟨2⟩ = .ok b ∧
    ofSources {} Imports.none ["class B {}", "function A::f() { return 1; } A.f;"] = .ok a' ∧
    a'.replace ⟨0⟩ "class A {}" = .ok b' ∧
    (b.unit? ⟨1⟩).map (·.namespaces) ≠ (b'.unit? ⟨1⟩).map (·.namespaces) ∧
    History s b ∧ History s b' ∧ b.program.config = b'.program.config ∧
    (∀ id, ((b.setImports (Imports.ofList [(⟨1⟩, ⟨0⟩)])).unit? id).map SourceUnit.plain =
      ((b'.setImports (Imports.ofList [(⟨1⟩, ⟨0⟩)])).unit? id).map SourceUnit.plain) ∧
    ∀ q : Question, (q.ask.run (b.setImports (Imports.ofList [(⟨1⟩, ⟨0⟩)]))).1 =
      (q.ask.run (b'.setImports (Imports.ofList [(⟨1⟩, ⟨0⟩)]))).1 := by
  have hbuilt : (ofSources {} (Imports.ofList [(⟨1⟩, ⟨0⟩)])
      ["class A {}", "function A::f() { return 1; } A.f;", "class B {}"]).toOption.any (fun a =>
      (a.remove ⟨2⟩).toOption.any fun b =>
      (ofSources {} Imports.none
        ["class B {}", "function A::f() { return 1; } A.f;"]).toOption.any fun a' =>
      (a'.replace ⟨0⟩ "class A {}").toOption.any fun b' => decide (
        (b.unit? ⟨1⟩).map (·.namespaces) ≠ (b'.unit? ⟨1⟩).map (·.namespaces) ∧
        b.program.config = b'.program.config)) = true := by
    decide +kernel
  obtain ⟨a, ha, hbuilt⟩ := exists_ok hbuilt
  obtain ⟨b, hb, hbuilt⟩ := exists_ok hbuilt
  obtain ⟨a', ha', hbuilt⟩ := exists_ok hbuilt
  obtain ⟨b', hb', hbuilt⟩ := exists_ok hbuilt
  obtain ⟨hentries, hconfig⟩ := of_decide_eq_true hbuilt
  have h : History _ b := (History.ofSources ha).edit (e := .remove ⟨2⟩) hb
  have h' : History _ b' := (History.ofSources ha').edit (e := .replace ⟨0⟩ "class A {}") hb'
  have hsources : (Edit.replace ⟨0⟩ "class A {}").sources a'.program
      (fun id => ["class B {}", "function A::f() { return 1; } A.f;"][id.index]?) =
      (Edit.remove ⟨2⟩).sources a.program
        (fun id =>
          ["class A {}", "function A::f() { return 1; } A.f;", "class B {}"][id.index]?) := by
    funext id
    rcases id with ⟨_ | _ | _ | n⟩ <;> rfl
  rw [hsources] at h'
  obtain ⟨hunits, hanswers, -⟩ := setImports_forgets h h' hconfig (Imports.ofList [(⟨1⟩, ⟨0⟩)])
  exact ⟨_, a, a', b, b', ha, hb, ha', hb', hentries, h, h', hconfig, hunits, hanswers []⟩

end Analysis

end SquirrelAnalyzer
