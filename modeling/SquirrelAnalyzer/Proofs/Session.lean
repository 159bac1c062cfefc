import SquirrelAnalyzer.Proofs.OneByOne

namespace SquirrelAnalyzer

namespace Program

variable {p p' : Program} {id : UnitId} {u : SourceUnit} {added : Option UnitId}

def numbering (p : Program) : List (Option (UnitId × UnitId)) :=
  p.units.toList.map (Option.map fun u => (u.id, u.arena.unit))

def Numbered (p : Program) : Prop :=
  ∀ (i : Nat) (x : UnitId × UnitId), p.numbering[i]? = some (some x) → x = (⟨i⟩, ⟨i⟩)

theorem length_numbering (p : Program) : p.numbering.length = p.units.size := by
  simp [numbering]

theorem unit?_numbering (p : Program) (id : UnitId) :
    (p.unit? id).map (fun u => (u.id, u.arena.unit)) = p.numbering[id.index]?.join := by
  rw [numbering, List.getElem?_map, Array.getElem?_toList, unit?]
  cases p.units[id.index]? <;> rfl

theorem Numbered.unit (h : p.Numbered) (hu : p.unit? id = some u) :
    u.id = id ∧ u.arena.unit = id := by
  have hplace := p.unit?_numbering id
  rw [hu] at hplace
  have hx := h id.index _ (Option.join_eq_some_iff.mp hplace.symm)
  exact Prod.mk.inj hx

theorem numbering_modifyUnit (p : Program) (id : UnitId) {f : SourceUnit → SourceUnit}
    (hf : ∀ u, (f u).id = u.id ∧ (f u).arena.unit = u.arena.unit) :
    (p.modifyUnit id f).numbering = p.numbering := by
  unfold numbering modifyUnit
  apply List.ext_getElem?
  intro i
  rw [List.getElem?_map, List.getElem?_map, Array.getElem?_toList, Array.getElem?_toList,
    Array.getElem?_modify]
  split
  · cases p.units[i]? with
    | none => rfl
    | some o => cases o <;> simp [hf]
  · rfl

theorem numbering_recordUnit (reparent : Bool) (p : Program) (id : UnitId) :
    (recordUnit reparent p id).numbering = p.numbering := by
  unfold recordUnit
  split
  · rfl
  · refine List.foldlRecOn _ _ (motive := fun q : Program => q.numbering = p.numbering) rfl ?_
    intro q hq d _
    unfold recordDeclaration
    split
    · exact hq
    · refine (numbering_modifyUnit q id ?_).trans hq
      exact fun _ => ⟨rfl, rfl⟩

theorem numbering_recordUnits (reparent : Bool) (p : Program) (ids : List UnitId) :
    (ids.foldl (recordUnit reparent) p).numbering = p.numbering := by
  refine List.foldlRecOn _ _ (motive := fun q : Program => q.numbering = p.numbering) rfl ?_
  intro q hq id _
  rw [numbering_recordUnit, hq]

theorem numbering_refresh (changed : Option UnitId) (p : Program) :
    (p.refresh changed).numbering = p.numbering := by
  unfold refresh
  rw [numbering_recordUnits]
  refine List.foldlRecOn _ _ (motive := fun q : Program => q.numbering = p.numbering) rfl ?_
  intro q hq id _
  refine (numbering_modifyUnit q id ?_).trans hq
  exact fun _ => ⟨rfl, rfl⟩

theorem numbering_settle (p : Program) (id : UnitId) : (p.settle id).numbering = p.numbering := by
  rw [settle, numbering_recordUnit, numbering_refresh]

theorem SourceUnit.unit_build (config : Config) (id : UnitId) (a : Arena) :
    (SourceUnit.build config id a).arena.unit = id :=
  SourceUnit.attachComments_induction (motive := fun u => u.arena.unit = id) (fun _ _ h _ => h)
    (fun _ _ _ _ _ h => h) rfl config

theorem numbering_pushUnit (p : Program) (a : Arena) :
    (p.pushUnit a).numbering = p.numbering ++ [some (p.nextId, p.nextId)] := by
  simp [numbering, pushUnit, SourceUnit.unit_build]

theorem numbering_setUnit (p : Program) (id : UnitId) (o : Option SourceUnit) :
    (p.setUnit id o).numbering =
      p.numbering.set id.index (o.map fun u => (u.id, u.arena.unit)) := by
  simp [numbering, setUnit, List.map_set]

theorem numbering_addUnit (p : Program) (a : Arena) :
    (p.addUnit a).numbering = p.numbering ++ [some (p.nextId, p.nextId)] := by
  rw [addUnit, numbering_settle, numbering_pushUnit]

theorem numbering_replaceUnit (p : Program) (id : UnitId) (a : Arena) :
    (p.replaceUnit id a).numbering = p.numbering.set id.index (some (id, id)) := by
  rw [replaceUnit, numbering_settle, rebuildUnit, numbering_setUnit, Option.map_some, SourceUnit.id_build,
    SourceUnit.unit_build]

theorem numbering_removeUnit (p : Program) (id : UnitId) :
    (p.removeUnit id).numbering = p.numbering.set id.index none := by
  rw [removeUnit, numbering_refresh, numbering_setUnit, Option.map_none]

theorem unit?_removeUnit_self (p : Program) (id : UnitId) : (p.removeUnit id).unit? id = none := by
  rw [← Option.map_eq_none_iff, unit?_numbering, numbering_removeUnit, List.getElem?_set,
    if_pos rfl]
  split <;> rfl

theorem numbering_setImports (p : Program) (imports : Imports) :
    (p.setImports imports).numbering = p.numbering := numbering_refresh none _

inductive Renumbers (p p' : Program) : Option UnitId → Prop
  | kept (h : p'.numbering = p.numbering) : Renumbers p p' none
  | added (h : p'.numbering = p.numbering ++ [some (p.nextId, p.nextId)]) :
      Renumbers p p' (some p.nextId)
  | replaced (id : UnitId) (hid : (p.unit? id).isSome)
      (h : p'.numbering = p.numbering.set id.index (some (id, id))) : Renumbers p p' none
  | removed (id : UnitId) (h : p'.numbering = p.numbering.set id.index none) : Renumbers p p' none

namespace Renumbers

theorem numbered (h : p.Renumbers p' added) (hp : p.Numbered) : p'.Numbered := by
  intro i x hx
  cases h with
  | kept h => exact hp i x (h ▸ hx)
  | added h =>
    rw [h] at hx
    rcases Nat.lt_trichotomy i p.numbering.length with hlt | rfl | hgt
    · rw [List.getElem?_append_left hlt] at hx
      exact hp i x hx
    · rw [List.getElem?_concat_length] at hx
      cases hx
      rw [nextId, length_numbering]
    · have hlength : (p.numbering ++ [some (p.nextId, p.nextId)]).length ≤ i := by
        rw [List.length_append, List.length_singleton]
        exact hgt
      rw [List.getElem?_eq_none hlength] at hx
      cases hx
  | replaced id hid h =>
    rw [h, List.getElem?_set] at hx
    split at hx
    · next he =>
      split at hx
      · cases hx
        rw [← he]
      · cases hx
    · exact hp i x hx
  | removed id h =>
    rw [h, List.getElem?_set] at hx
    split at hx
    · split at hx <;> cases hx
    · exact hp i x hx

theorem size (h : p.Renumbers p' added) :
    p'.units.size = p.units.size + added.toList.length := by
  rw [← length_numbering, ← length_numbering]
  cases h with
  | kept h => rw [h]; rfl
  | added h => rw [h, List.length_append]; rfl
  | replaced id hid h => rw [h, List.length_set]; rfl
  | removed id h => rw [h, List.length_set]; rfl

theorem ids (h : p.Renumbers p' added) :
    (List.range p.units.size).map UnitId.mk ++ added.toList =
      (List.range p'.units.size).map UnitId.mk := by
  rw [h.size]
  cases h with
  | added h => rw [Option.toList_some, List.length_singleton, List.range_succ, List.map_append]; rfl
  | _ => exact List.append_nil _

theorem retired (h : p.Renumbers p' added) (hid : id.index < p.units.size)
    (hu : p.unit? id = none) : p'.unit? id = none := by
  have hplace := p.unit?_numbering id
  have hplace' := p'.unit?_numbering id
  rw [hu, Option.map_none] at hplace
  rw [← Option.map_eq_none_iff, hplace']
  cases h with
  | kept h => rw [h, ← hplace]
  | added h => rw [h, List.getElem?_append_left (length_numbering p ▸ hid), ← hplace]
  | replaced id' hid' h =>
    have hne : id'.index ≠ id.index := fun he => by
      obtain rfl : id' = id := congrArg UnitId.mk he
      rw [hu] at hid'
      cases hid'
    rw [h, List.getElem?_set_ne hne, ← hplace]
  | removed id' h =>
    rw [h, List.getElem?_set]
    split
    · split <;> rfl
    · exact hplace.symm

end Renumbers

end Program

/-- What can be done with an analysis: units come from sources or from arenas. -/
inductive Operation where
  | add (source : String)
  | addArena (arena : Arena)
  | replace (id : UnitId) (source : String)
  | replaceArena (id : UnitId) (arena : Arena)
  | remove (id : UnitId)
  | setImports (imports : Imports)
  | ask (q : Question)

inductive Outcome where
  | added (id : UnitId)
  | done
  | answered (q : Question) (answer : q.Answer)
  | refused (e : EditError)

namespace Outcome

def added? : Outcome → Option UnitId
  | added id => some id
  | _ => none

def refused? : Outcome → Option EditError
  | refused e => some e
  | _ => none

end Outcome

namespace Operation

def change : Operation → Attempt Outcome
  | add source => do return .added (← Analysis.addSource source)
  | addArena arena => do return .added (← Analysis.addUnit arena)
  | replace id source => do
    Analysis.replaceSource id source
    return .done
  | replaceArena id arena => do
    Analysis.replaceUnit id arena
    return .done
  | remove id => do
    let _ ← Analysis.removeUnit id
    return .done
  | setImports imports => do
    Analysis.setImportResolver imports
    return .done
  | ask q => do return .answered q (← q.ask)

def perform (op : Operation) (a : Analysis) : Outcome × Analysis :=
  match op.change.run.run a with
  | (.ok o, a') => (o, a')
  | (.error e, a') => (.refused e, a')

/-- Why an operation is refused: a source does not parse, or else a unit is not there. -/
inductive Refused (a : Analysis) : Operation → EditError → Prop
  | add {source : String} {e : SourceError} (h : Arena.parse source = .error e) :
      Refused a (.add source) (.source e)
  | replace {id : UnitId} {source : String} {e : SourceError}
      (h : Arena.parse source = .error e) : Refused a (.replace id source) (.source e)
  | replaceUnknown {id : UnitId} {source : String} {arena : Arena}
      (h : Arena.parse source = .ok arena) (hid : a.unit? id = none) :
      Refused a (.replace id source) (.unknownUnit id)
  | replaceArena {id : UnitId} {arena : Arena} (hid : a.unit? id = none) :
      Refused a (.replaceArena id arena) (.unknownUnit id)
  | remove {id : UnitId} (hid : a.unit? id = none) : Refused a (.remove id) (.unknownUnit id)

end Operation

namespace Analysis

variable {a : Analysis} {op : Operation} {e : EditError} {id : UnitId} {source : String}

def session : List Operation → Analysis → List Outcome × Analysis
  | [], a => ([], a)
  | op :: ops, a =>
    let rest := session ops (op.perform a).2
    ((op.perform a).1 :: rest.1, rest.2)

theorem perform_of_runs {o : Outcome} {a' : Analysis} (h : op.change.run.run a = (.ok o, a')) :
    op.perform a = (o, a') := by
  rw [Operation.perform, h]

theorem parseArena_eq_error {e : SourceError} (h : Arena.parse source = .error e) :
    parseArena source = .error (.source e) := by
  rw [parseArena, h]
  rfl

theorem perform_refused (hm : a.memo.Within a.program) (h : op.Refused a e) :
    op.perform a = (.refused e, a) := by
  have hchange : op.change.run.run a = (.error e, a) := by
    cases h with
    | add h => exact refused_bind (refused_addSource (parseArena_eq_error h))
    | @replace id source e h =>
      have hsource : (replaceSource id source).run.run a = _ := refused_parse (parseArena_eq_error h)
      exact refused_bind hsource
    | @replaceUnknown id source arena h hid =>
      have hsource : (replaceSource id source).run.run a = _ := runs_parse (parseArena_eq_ok_iff.mpr h)
      exact refused_bind (hsource.trans (refused_replaceUnit hid arena))
    | replaceArena hid => exact refused_bind (refused_replaceUnit hid _)
    | remove hid => exact refused_bind (refused_removeUnit hm hid)
  rw [Operation.perform, hchange]

theorem perform_cases (op : Operation) (hg : a.program.Grown a.memo) : (∃ e, op.Refused a e) ∨
    (op.perform a).1.refused? = none ∧
      a.program.Renumbers (op.perform a).2.program (op.perform a).1.added? ∧
      (op.perform a).2.program.Grown (op.perform a).2.memo := by
  have hm := hg.within
  cases op with
  | add source =>
    cases h : Arena.parse source with
    | error e => exact .inl ⟨_, .add h⟩
    | ok arena =>
      right
      rw [perform_of_runs (runs_bind (runs_addSource hm (parseArena_eq_ok_iff.mpr h)))]
      exact ⟨rfl, .added (Program.numbering_addUnit a.program arena), .empty⟩
  | addArena arena =>
    right
    rw [perform_of_runs (runs_bind (runs_lift (run_addUnit hm arena)))]
    exact ⟨rfl, .added (Program.numbering_addUnit a.program arena), .empty⟩
  | replace id source =>
    cases h : Arena.parse source with
    | error e => exact .inl ⟨_, .replace h⟩
    | ok arena =>
      cases hid : a.unit? id with
      | none => exact .inl ⟨_, .replaceUnknown h hid⟩
      | some u =>
        have hlive : (a.unit? id).isSome := hid ▸ rfl
        right
        rw [perform_of_runs
          (runs_bind (runs_replaceSource hm (parseArena_eq_ok_iff.mpr h) hlive))]
        exact ⟨rfl, .replaced id hlive (Program.numbering_replaceUnit a.program id arena), .empty⟩
  | replaceArena id arena =>
    cases hid : a.unit? id with
    | none => exact .inl ⟨_, .replaceArena hid⟩
    | some u =>
      have hlive : (a.unit? id).isSome := hid ▸ rfl
      right
      rw [perform_of_runs (runs_bind (runs_replaceUnit hm hlive arena))]
      exact ⟨rfl, .replaced id hlive (Program.numbering_replaceUnit a.program id arena), .empty⟩
  | remove id =>
    cases hid : a.unit? id with
    | none => exact .inl ⟨_, .remove hid⟩
    | some u =>
      right
      rw [perform_of_runs (runs_bind (runs_removeUnit hm hid))]
      exact ⟨rfl, .removed id (Program.numbering_removeUnit a.program id), .empty⟩
  | setImports imports =>
    right
    rw [perform_of_runs (runs_bind (runs_lift (run_setImportResolver hm imports)))]
    exact ⟨rfl, .kept (Program.numbering_setImports a.program imports), .empty⟩
  | ask q =>
    right
    refine ⟨rfl, .kept ?_, ?_⟩
    · show (q.ask.run a).2.program.numbering = _
      rw [program_ask]
    · show (q.ask.run a).2.program.Grown (q.ask.run a).2.memo
      rw [program_ask]
      exact grown_ask hg

theorem refused_iff (hg : a.program.Grown a.memo) :
    (op.perform a).1 = .refused e ↔ op.Refused a e := by
  constructor
  · intro h
    rcases perform_cases op hg with ⟨e', hrefused⟩ | ⟨ho, -⟩
    · rw [perform_refused hg.within hrefused] at h
      cases h
      exact hrefused
    · rw [h] at ho
      cases ho
  · intro h
    rw [perform_refused hg.within h]

theorem perform_steps (op : Operation) (hg : a.program.Grown a.memo) :
    a.program.Renumbers (op.perform a).2.program (op.perform a).1.added? ∧
      (op.perform a).2.program.Grown (op.perform a).2.memo := by
  rcases perform_cases op hg with ⟨e, hrefused⟩ | ⟨-, hsteps⟩
  · rw [perform_refused hg.within hrefused]
    exact ⟨.kept rfl, hg⟩
  · exact hsteps

theorem session_steps (ops : List Operation) (hg : a.program.Grown a.memo)
    (h : a.program.Numbered) : (session ops a).2.program.Numbered ∧
      (session ops a).2.program.Grown (session ops a).2.memo := by
  induction ops generalizing a with
  | nil => exact ⟨h, hg⟩
  | cons op ops ih =>
    obtain ⟨hmoves, hg⟩ := perform_steps op hg
    exact ih hg (hmoves.numbered h)

theorem ids_session (ops : List Operation) (hg : a.program.Grown a.memo) :
    (List.range a.program.units.size).map UnitId.mk ++
      (session ops a).1.filterMap Outcome.added? =
        (List.range (session ops a).2.program.units.size).map UnitId.mk := by
  induction ops generalizing a with
  | nil => exact List.append_nil _
  | cons op ops ih =>
    obtain ⟨hmoves, hg⟩ := perform_steps op hg
    have hids := hmoves.ids
    have hrest := ih hg
    rw [← hids, List.append_assoc] at hrest
    rw [session, ← hrest]
    cases h : (op.perform a).1.added? with
    | none => rw [List.filterMap_cons_none h]; rfl
    | some id => rw [List.filterMap_cons_some h]; rfl

theorem retired_session (ops : List Operation) (hg : a.program.Grown a.memo)
    (hid : id.index < a.program.units.size) (hu : a.unit? id = none) :
    (session ops a).2.unit? id = none := by
  induction ops generalizing a with
  | nil => exact hu
  | cons op ops ih =>
    obtain ⟨hmoves, hg⟩ := perform_steps op hg
    refine ih hg ?_ (hmoves.retired hid hu)
    rw [hmoves.size]
    exact Nat.lt_add_right _ hid

theorem removed_session (hg : a.program.Grown a.memo)
    (h : ((Operation.remove id).perform a).1 = .done) (ops : List Operation) :
    (session (.remove id :: ops) a).2.unit? id = none := by
  cases hid : a.unit? id with
  | none =>
    rw [perform_refused hg.within (.remove hid)] at h
    cases h
  | some u =>
    have hafter : (Operation.remove id).perform a =
      (.done, ofProgram (a.program.removeUnit id)) :=
        perform_of_runs (runs_bind (runs_removeUnit hg.within hid))
    have hsize : (a.program.removeUnit id).units.size = a.program.units.size :=
      (Program.Renumbers.removed id (Program.numbering_removeUnit a.program id)).size
    rw [session, hafter]
    refine retired_session ops .empty ?_ (Program.unit?_removeUnit_self a.program id)
    have hlive : (a.program.unit? id).isSome := Option.isSome_iff_exists.mpr ⟨u, hid⟩
    exact hsize ▸ Program.lt_size_of_unit? hlive

end Analysis

namespace Program

theorem numbering_pushUnits (p : Program) (arenas : List Arena) :
    (arenas.foldl pushUnit p).numbering = p.numbering ++
      (List.range' p.units.size arenas.length).map fun i => some (⟨i⟩, ⟨i⟩) := by
  induction arenas generalizing p with
  | nil => exact (List.append_nil _).symm
  | cons a arenas ih =>
    have hsize : (p.pushUnit a).units.size = p.units.size + 1 := Array.size_push _
    rw [List.foldl_cons, ih, numbering_pushUnit, hsize, List.length_cons, List.range'_succ,
      List.append_assoc]
    rfl

theorem numbering_ofArenas (config : Config) (imports : Imports) (arenas : List Arena) :
    (ofArenas config imports arenas).numbering =
      (List.range arenas.length).map fun i => some (⟨i⟩, ⟨i⟩) := by
  unfold ofArenas
  rw [numbering_recordUnits, numbering_pushUnits, List.range_eq_range']
  rfl

theorem numbered_ofArenas (config : Config) (imports : Imports) (arenas : List Arena) :
    (ofArenas config imports arenas).Numbered := by
  intro i x hx
  rw [numbering_ofArenas, List.getElem?_map] at hx
  obtain ⟨j, hj, hx⟩ := Option.map_eq_some_iff.mp hx
  obtain ⟨hlt, hj⟩ := List.getElem?_eq_some_iff.mp hj
  rw [List.getElem_range] at hj
  cases hx
  rw [hj]

theorem liveIds_numbering (p : Program) :
    p.liveUnits.map (·.id) = p.numbering.filterMap (Option.map Prod.fst) := by
  rw [numbering, List.filterMap_map, liveUnits, List.map_filterMap]
  congr 1
  funext o
  cases o <;> rfl

theorem liveIds_ofArenas (config : Config) (imports : Imports) (arenas : List Arena) :
    (ofArenas config imports arenas).liveUnits.map (·.id) =
      (List.range arenas.length).map UnitId.mk := by
  rw [liveIds_numbering, numbering_ofArenas, List.filterMap_map, ← List.filterMap_eq_map]
  rfl

end Program

namespace Analysis

/-- Operations are refused for sources that do not parse, and else for units that are not there, and
what is refused changes nothing, now or later. Units get the numbers from 0 on, first those built
together and then those added, and know them; a number is not given twice, and no unit comes back
under the number of one that was removed. -/
theorem session_numbers {config : Config} {imports : Imports} {sources : List String}
    {start : Analysis} (h : ofSources config imports sources = .ok start) (ops : List Operation) :
    let a := (session ops start).2
    (∀ op e, ((op.perform a).1 = .refused e ↔ op.Refused a e) ∧ (op.Refused a e →
      op.perform a = (.refused e, a) ∧ ∀ later, session (op :: later) a =
        (.refused e :: (session later a).1, (session later a).2))) ∧
    (start.program.liveUnits.map (·.id) = (List.range sources.length).map UnitId.mk ∧
      start.program.liveUnits.map (·.id) ++ (session ops start).1.filterMap Outcome.added? =
        (List.range a.program.units.size).map UnitId.mk) ∧
    (∀ id, ((Operation.remove id).perform a).1 = .done →
      ∀ later, (session (.remove id :: later) a).2.unit? id = none) ∧
    (a.program.liveUnits.map (·.id)).Pairwise (·.index < ·.index) ∧
    (∀ u, u ∈ a.program.liveUnits ↔ ∃ id, a.unit? id = some u) ∧
    ∀ id u, a.unit? id = some u → u.id = id ∧ u.arena.unit = id := by
  obtain ⟨arenas, harenas, rfl⟩ := of_ofSources h
  have hlive := Program.liveIds_ofArenas config imports arenas
  have hsize := Program.length_numbering (Program.ofArenas config imports arenas)
  rw [Program.numbering_ofArenas, List.length_map, List.length_range] at hsize
  obtain ⟨hnumbered, hgrown⟩ := session_steps
    (a := ofProgram (Program.ofArenas config imports arenas)) ops .empty
    (Program.numbered_ofArenas config imports arenas)
  refine ⟨fun op e => ⟨refused_iff hgrown, fun hrefused => ?_⟩, ⟨?_, ?_⟩, fun id hremoved => ?_, ?_,
    fun u => Program.mem_liveUnits, fun id u => hnumbered.unit⟩
  · have hperform := perform_refused hgrown.within hrefused
    refine ⟨hperform, fun later => ?_⟩
    rw [session, hperform]
  · rw [← length_of_mapM harenas]
    exact hlive
  · have hids := ids_session (a := ofProgram (Program.ofArenas config imports arenas)) ops .empty
    rw [← hids, ← show _ = (ofProgram (Program.ofArenas config imports arenas)).program.units.size
      from hsize]
    exact congrArg (· ++ _) hlive
  · exact removed_session hgrown hremoved
  · exact Program.sorted_liveIds fun id u hu => (hnumbered.unit hu).1

example (config : Config) : ofSources config Imports.none [] = .ok (ofConfig config) := rfl

theorem session_numbers_removed : ∃ start, ofSources {} Imports.none ["class A \x7b\x7d"] = .ok start ∧
    (session [.add "local b;", .remove ⟨0⟩, .add "class \x7b", .replace ⟨0⟩ "class \x7b",
        .replace ⟨0⟩ "local c;", .remove ⟨0⟩, .add "local c;"] start).1.map
          (fun o => (o.added?, o.refused?.map EditError.message)) =
      [(some ⟨1⟩, none), (none, none),
        (none, some "failed to parse source: 1:7: expected identifier, found `\x7b`"),
        (none, some "failed to parse source: 1:7: expected identifier, found `\x7b`"),
        (none, some "unit0 is not part of this analysis"),
        (none, some "unit0 is not part of this analysis"), (some ⟨2⟩, none)] ∧
    ∀ later, (session (.add "local b;" :: .remove ⟨0⟩ :: later) start).2.unit? ⟨0⟩ = none := by
  have hbuilt : (ofSources {} Imports.none ["class A \x7b\x7d"]).toOption.any (fun start =>
      decide ((session [.add "local b;", .remove ⟨0⟩, .add "class \x7b", .replace ⟨0⟩ "class \x7b",
        .replace ⟨0⟩ "local c;", .remove ⟨0⟩, .add "local c;"] start).1.map
          (fun o => (o.added?, o.refused?.map EditError.message)) =
      [(some ⟨1⟩, none), (none, none),
        (none, some "failed to parse source: 1:7: expected identifier, found `\x7b`"),
        (none, some "failed to parse source: 1:7: expected identifier, found `\x7b`"),
        (none, some "unit0 is not part of this analysis"),
        (none, some "unit0 is not part of this analysis"), (some ⟨2⟩, none)] ∧
      ((session [.add "local b;"] start).2.unit? ⟨0⟩).isSome)) = true := by
    decide +kernel
  obtain ⟨start, hstart, h⟩ := exists_ok hbuilt
  obtain ⟨houtcomes, hlive⟩ := of_decide_eq_true h
  refine ⟨start, hstart, houtcomes, (session_numbers hstart [.add "local b;"]).2.2.1 ⟨0⟩ ?_⟩
  obtain ⟨u, hu⟩ := Option.isSome_iff_exists.mp hlive
  have hgrown : (session [.add "local b;"] start).2.program.Grown
      (session [.add "local b;"] start).2.memo := by
    obtain ⟨arenas, -, rfl⟩ := of_ofSources hstart
    exact (session_steps [.add "local b;"] .empty (Program.numbered_ofArenas {} Imports.none arenas)).2
  rw [perform_of_runs (runs_bind (runs_removeUnit hgrown.within hu))]

end Analysis

end SquirrelAnalyzer
