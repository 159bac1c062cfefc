import SquirrelAnalyzer.Proofs.Parser.Source
import SquirrelAnalyzer.Proofs.Question
import SquirrelAnalyzer.Proofs.Record

/-!
Edits of an analysis as they run: what they write, in which order, and where they stop. Edits forget
all answers before they ask anything, so what comes of them is a matter of the program alone.
-/

namespace SquirrelAnalyzer

/-- A change of an analysis. -/
inductive Edit where
  | add (source : String)
  | replace (id : UnitId) (source : String)
  | remove (id : UnitId)
  | setImports (imports : Imports)

def Edit.apply (a : Analysis) : Edit → Except EditError Analysis
  | add source => (·.2) <$> a.add source
  | replace id source => a.replace id source
  | remove id => a.remove id
  | setImports imports => .ok (a.setImports imports)

namespace Memo

def unitIds (m : Memo) : List UnitId :=
  m.definitions.units.map Prod.fst ++ m.values.units.map Prod.fst

def Within (m : Memo) (p : Program) : Prop := ∀ id ∈ m.unitIds, (p.unit? id).isSome

variable {m : Memo} {p : Program} {id id' : UnitId}

theorem within_empty (p : Program) : (∅ : Memo).Within p := nofun

theorem eq_empty_of_unitIds (h : m.unitIds = []) : m = ∅ := by
  obtain ⟨hd, hv⟩ := List.append_eq_nil_iff.mp h
  obtain ⟨⟨definitions⟩, ⟨values⟩⟩ := m
  obtain rfl : definitions = [] := List.map_eq_nil_iff.mp hd
  obtain rfl : values = [] := List.map_eq_nil_iff.mp hv
  rfl

theorem mem_unitIds_clear : id' ∈ (m.clear id).unitIds ↔ id' ∈ m.unitIds ∧ id' ≠ id := by
  have hclear {α : Type} (t : RefTable α) :
      id' ∈ (t.clear id).units.map Prod.fst ↔ id' ∈ t.units.map Prod.fst ∧ id' ≠ id := by
    simp only [RefTable.clear, List.mem_map, List.mem_filter, decide_eq_true_eq]
    constructor
    · rintro ⟨e, ⟨he, hne⟩, rfl⟩
      exact ⟨⟨e, he, rfl⟩, hne⟩
    · rintro ⟨⟨e, he, rfl⟩, hne⟩
      exact ⟨e, ⟨he, hne⟩, rfl⟩
  rw [unitIds, unitIds, List.mem_append, List.mem_append, clear, hclear, hclear, or_and_right]

theorem clear_of_not_mem (h : id ∉ m.unitIds) : m.clear id = m := by
  have hclear {α : Type} (t : RefTable α) (ht : id ∉ t.units.map Prod.fst) : t.clear id = t := by
    refine congrArg RefTable.mk (List.filter_eq_self.mpr fun e he => decide_eq_true ?_)
    rintro rfl
    exact ht (List.mem_map_of_mem he)
  rw [unitIds, List.mem_append, not_or] at h
  rw [clear, hclear _ h.1, hclear _ h.2]

theorem mem_unitIds_foldl_clear {ids : List UnitId} (h : id ∈ (ids.foldl clear m).unitIds) :
    id ∈ m.unitIds ∧ id ∉ ids := by
  induction ids generalizing m with
  | nil => exact ⟨h, List.not_mem_nil⟩
  | cons x ids ih =>
    obtain ⟨hid, hrest⟩ := ih h
    obtain ⟨hid, hne⟩ := mem_unitIds_clear.mp hid
    exact ⟨hid, List.not_mem_cons_of_ne_of_not_mem hne hrest⟩

theorem mem_unitIds_insert {q : Query} {ref : NodeRef} {r : Option q.Answer}
    (h : id ∈ (m.insert q ref r).unitIds) : id = ref.unit ∨ id ∈ m.unitIds := by
  cases q <;> rcases List.mem_append.mp h with h | h
  · exact (RefTable.mem_units_modifyUnit h).imp_right fun h => List.mem_append.mpr (.inl h)
  · exact .inr (List.mem_append.mpr (.inr h))
  · exact .inr (List.mem_append.mpr (.inl h))
  · exact (RefTable.mem_units_modifyUnit h).imp_right fun h => List.mem_append.mpr (.inr h)

namespace Within

theorem pushUnit (h : m.Within p) (arena : Arena) : m.Within (p.pushUnit arena) := by
  intro id hid
  rw [Program.unit?_pushUnit]
  split
  · rfl
  · exact h id hid

theorem setUnit (h : m.Within p) (id : UnitId) (o : Option SourceUnit) :
    (m.clear id).Within (p.setUnit id o) := by
  intro id' hid'
  obtain ⟨hmem, hne⟩ := mem_unitIds_clear.mp hid'
  rw [Program.unit?_setUnit, if_neg fun he => hne he.1]
  exact h id' hmem

end Within

end Memo

namespace Program

variable {p : Program} {m : Memo} {id : UnitId}

theorem Grown.within (h : p.Grown m) : m.Within p := by
  induction h with
  | empty => exact Memo.within_empty p
  | @insert m q b r _ hready _ _ ih =>
    intro id hid
    rcases Memo.mem_unitIds_insert hid with rfl | hid
    · cases hu : p.unit? (p.subject q b).ref.unit with
      | some u => rfl
      | none =>
        have hkind : p.kind? (p.subject q b) = none := by
          rw [kind?, shape?, show p.unit? (p.subject q b).unit = none from hu]
          rfl
        rw [ready?, hkind] at hready
        cases hready
    · exact ih id hid

theorem mem_loadedIds : id ∈ p.loadedIds ↔ (p.unit? id).isSome := by
  rw [loadedIds, List.mem_filter, and_iff_right_iff_imp]
  intro h
  exact List.mem_map.mpr ⟨id.index, List.mem_range.mpr (lt_size_of_unit? h), rfl⟩

theorem setUnit_none (h : p.unit? id = none) : p.setUnit id none = p := by
  have hunits : p.units.setIfInBounds id.index none = p.units := by
    refine Array.ext_getElem? fun i => ?_
    rw [Array.getElem?_setIfInBounds]
    split
    · next hi =>
      subst hi
      split
      · next hlt =>
        rw [unit?, Array.getElem?_eq_getElem hlt, Option.join_some] at h
        rw [Array.getElem?_eq_getElem hlt, h]
      · next hlt => rw [Array.getElem?_eq_none (Nat.le_of_not_lt hlt)]
    · rfl
  rw [setUnit, hunits]

theorem namespaceEntry?_eq (p : Program) (d : Branch) : p.namespaceEntry? d =
    (p.ownerAndName? d).bind fun x => entryUnder d x.2 (p.freshValue? x.1) := by
  unfold namespaceEntry? ownerAndName? entryUnder
  cases p.unit? d.unit with
  | none => rfl
  | some u =>
    cases p.qualifiedParts? d with
    | none => rfl
    | some parts =>
      cases hname : u.keyName? parts.2 with
      | none => simp [hname]
      | some name =>
        cases hvalue : p.freshValue? parts.1 with
        | none => simp [hname, hvalue]
        | some v => cases hb : v.branch? <;> simp [hname, hvalue, hb]

end Program

namespace Analysis

variable {a a' : Analysis} {p : Program} {id : UnitId} {arena : Arena} {source : String}

theorem run_clearMemo (h : a.memo.Within a.program) :
    clearMemo.run a = ((), ofProgram a.program) := by
  have hmemo : a.program.loadedIds.foldl Memo.clear a.memo = ∅ := by
    refine Memo.eq_empty_of_unitIds (List.eq_nil_iff_forall_not_mem.mpr fun id hid => ?_)
    obtain ⟨hid, hnot⟩ := Memo.mem_unitIds_foldl_clear hid
    exact hnot (Program.mem_loadedIds.mpr (h id hid))
  show ((), { a with memo := _ }) = _
  rw [hmemo]
  rfl

def Changes (change : StateM Analysis Unit) (f : Program → Program) : Prop :=
  ∀ p, change.run (ofProgram p) = ((), ofProgram (f p))

theorem Changes.forM {α : Type} {change : α → StateM Analysis Unit} {f : Program → α → Program}
    (h : ∀ x, Changes (change x) (f · x)) (xs : List α) :
    Changes (xs.forM change) (xs.foldl f) := by
  induction xs with
  | nil => exact fun _ => rfl
  | cons x xs ih =>
    intro p
    exact (run_bind (h x p)).trans (ih (f p x))

theorem run_entryOf_of_none {d : Branch} (h : a.program.ownerAndName? d = none) :
    (entryOf? d).run a = (none, a) := by
  simp [entryOf?, h]
  rfl

theorem run_entryOf_of_some {d owner : Branch} {name : String}
    (h : a.program.ownerAndName? d = some (owner, name)) : (entryOf? d).run a =
      (Program.entryUnder d name ((value owner).run a).1, ((value owner).run a).2) := by
  simp [entryOf?, h]
  rfl

theorem run_entryOf (p : Program) (d : Branch) : ∃ m : Memo, m.Within p ∧
    (entryOf? d).run (ofProgram p) = (p.namespaceEntry? d, ⟨p, m⟩) := by
  rw [p.namespaceEntry?_eq d]
  cases hparts : p.ownerAndName? d with
  | none => exact ⟨∅, Memo.within_empty p, run_entryOf_of_none hparts⟩
  | some x =>
    have hgrown : (ofProgram p).program.Grown ((Question.value x.1).ask.run (ofProgram p)).2.memo :=
      grown_ask .empty
    exact ⟨_, hgrown.within, run_entryOf_of_some hparts⟩

theorem changes_recordDeclaration (reparent : Bool) (id : UnitId) (d : Branch) :
    Changes (recordDeclaration reparent id d) fun p => p.recordDeclaration reparent id d := by
  intro p
  obtain ⟨m, hm, hentry⟩ := run_entryOf p d
  refine (run_bind hentry).trans ((run_bind (run_clearMemo hm)).trans ?_)
  show _ = ((), ofProgram (p.recordDeclaration reparent id d))
  unfold Program.recordDeclaration
  cases p.namespaceEntry? d with
  | none => rfl
  | some e => rfl

theorem changes_resolveNamespaces (reparent : Bool) (id : UnitId) :
    Changes (resolveNamespaces reparent id) (Program.recordUnit reparent · id) := by
  intro p
  show _ = ((), ofProgram (Program.recordUnit reparent p id))
  unfold Program.recordUnit
  cases hu : p.unit? id with
  | none =>
    simp [resolveNamespaces, ofProgram, unit?, hu]
    rfl
  | some u =>
    simp [resolveNamespaces, ofProgram, unit?, hu]
    exact Changes.forM (changes_recordDeclaration reparent id) u.pending p

theorem changes_refreshUnits (ids : List UnitId) :
    Changes (do ids.forM fun id => modifyProgram (·.clearNamespaces id)
                ids.forM (resolveNamespaces false))
      fun p => ids.foldl (Program.recordUnit false) (ids.foldl Program.clearNamespaces p) := by
  intro p
  have hclear : Changes (ids.forM fun id => modifyProgram (·.clearNamespaces id))
      fun p => ids.foldl Program.clearNamespaces p := by
    refine Changes.forM (fun id => ?_) ids
    exact fun _ => rfl
  exact (run_bind (hclear p)).trans (Changes.forM (changes_resolveNamespaces false) ids _)

theorem changes_refreshNamespaces (changed : Option UnitId) :
    Changes (refreshNamespaces changed) (Program.refresh changed) := fun p =>
  changes_refreshUnits ((p.liveUnits.map SourceUnit.id).filter (some · ≠ changed)) p

theorem run_settle (h : a.memo.Within a.program) (id : UnitId) :
    (settle id).run a = ((), ofProgram (a.program.settle id)) :=
  (run_bind (run_clearMemo h)).trans ((run_bind (changes_refreshNamespaces (some id) _)).trans
    (changes_resolveNamespaces true id _))

theorem run_addUnit (h : a.memo.Within a.program) (arena : Arena) :
    (addUnit arena).run a = (a.program.nextId, ofProgram (a.program.addUnit arena)) := by
  have hinsert : (insertUnit arena).run a =
      (a.program.nextId, { a with program := a.program.pushUnit arena }) := rfl
  refine (run_bind hinsert).trans ((run_bind (run_settle (h.pushUnit arena) _)).trans ?_)
  rfl

theorem runs_bind {α β : Type} {change : Attempt α} {next : α → Attempt β} {x : α}
    (h : change.run.run a = (.ok x, a')) :
    (change >>= next).run.run a = (next x).run.run a' := by
  rw [ExceptT.run_bind, StateT.run_bind, h]
  rfl

theorem runs_get {α : Type} {next : Analysis → Attempt α} :
    (get >>= next).run.run a = (next a).run.run a := rfl

theorem refused_bind {α β : Type} {change : Attempt α} {next : α → Attempt β} {e : EditError}
    (h : change.run.run a = (.error e, a')) : (change >>= next).run.run a = (.error e, a') := by
  rw [ExceptT.run_bind, StateT.run_bind, h]
  rfl

theorem runs_lift {α : Type} {change : StateM Analysis α} {x : α} (h : change.run a = (x, a')) :
    (liftM change : Attempt α).run.run a = (.ok x, a') := by
  show (StateT.run (Except.ok <$> change) a : Except EditError α × Analysis) = _
  rw [StateT.run_map, h]
  rfl

theorem refused_parse {α : Type} {next : Arena → Attempt α} {e : EditError}
    (h : parseArena source = .error e) :
    (liftExcept (parseArena source) >>= next).run.run a = (.error e, a) := by
  rw [h]
  rfl

theorem runs_parse {α : Type} {next : Arena → Attempt α} (h : parseArena source = .ok arena) :
    (liftExcept (parseArena source) >>= next).run.run a = (next arena).run.run a := by
  rw [h]
  rfl

theorem runs_addSource (h : a.memo.Within a.program) (hs : parseArena source = .ok arena) :
    (addSource source).run.run a =
      (.ok a.program.nextId, ofProgram (a.program.addUnit arena)) :=
  (runs_parse hs).trans (runs_lift (run_addUnit h arena))

theorem refused_addSource {e : EditError} (hs : parseArena source = .error e) :
    (addSource source).run.run a = (.error e, a) := refused_parse hs

theorem runs_replaceUnit (h : a.memo.Within a.program) (hid : (a.unit? id).isSome)
    (arena : Arena) : (replaceUnit id arena).run.run a =
      (.ok (), ofProgram (a.program.replaceUnit id arena)) := by
  obtain ⟨u, hu⟩ := Option.isSome_iff_exists.mp hid
  have hput : (putUnit id (some (SourceUnit.build a.program.config id arena))).run a =
    ((), ⟨a.program.rebuildUnit id arena, a.memo.clear id⟩) := rfl
  have hsettle : (settle id).run ⟨a.program.rebuildUnit id arena, a.memo.clear id⟩ =
    ((), ofProgram (a.program.replaceUnit id arena)) := run_settle (h.setUnit id _) id
  refine runs_get.trans ?_
  rw [hu]
  exact runs_get.trans ((runs_bind (runs_lift hput)).trans (runs_lift hsettle))

theorem refused_replaceUnit (hid : a.unit? id = none) (arena : Arena) :
    (replaceUnit id arena).run.run a = (.error (.unknownUnit id), a) := by
  refine runs_get.trans ?_
  rw [hid]
  rfl

theorem runs_replaceSource (h : a.memo.Within a.program) (hs : parseArena source = .ok arena)
    (hid : (a.unit? id).isSome) : (replaceSource id source).run.run a =
      (.ok (), ofProgram (a.program.replaceUnit id arena)) :=
  (runs_parse hs).trans (runs_replaceUnit h hid arena)

theorem run_takeUnit (id : UnitId) (a : Analysis) : (takeUnit id).run a =
    (a.unit? id, ⟨a.program.setUnit id none, a.memo.clear id⟩) := rfl

theorem runs_removeUnit {u : SourceUnit} (h : a.memo.Within a.program) (hu : a.unit? id = some u) :
    (removeUnit id).run.run a = (.ok u, ofProgram (a.program.removeUnit id)) := by
  have hclear := runs_lift (run_clearMemo (a := ⟨a.program.setUnit id none, a.memo.clear id⟩)
    (h.setUnit id none))
  have hrefresh := runs_lift (changes_refreshNamespaces (some id) (a.program.setUnit id none))
  refine (runs_bind (runs_lift (run_takeUnit id a))).trans ?_
  rw [hu]
  exact (runs_bind hclear).trans ((runs_bind hrefresh).trans rfl)

theorem refused_removeUnit (h : a.memo.Within a.program) (hid : a.unit? id = none) :
    (removeUnit id).run.run a = (.error (.unknownUnit id), a) := by
  have hmemo : a.memo.clear id = a.memo := by
    refine Memo.clear_of_not_mem fun hmem => ?_
    have hlive : (a.unit? id).isSome := h id hmem
    rw [hid] at hlive
    cases hlive
  have htake : (takeUnit id).run a = (none, a) := by
    rw [run_takeUnit, Program.setUnit_none hid, hmemo, hid]
  exact (runs_bind (runs_lift htake)).trans rfl

theorem run_setImportResolver (h : a.memo.Within a.program) (imports : Imports) :
    (setImportResolver imports).run a = ((), ofProgram (a.program.setImports imports)) := by
  have hset : (modifyProgram fun p => { p with imports }).run a =
    ((), { a with program := { a.program with imports } }) := rfl
  have hclear := run_clearMemo (a := { a with program := { a.program with imports } }) h
  exact (run_bind hset).trans ((run_bind hclear).trans (changes_refreshNamespaces none _))

theorem setImports_eq (h : a.memo.Within a.program) (imports : Imports) :
    a.setImports imports = ofProgram (a.program.setImports imports) := by
  rw [setImports, run_setImportResolver h]

theorem attempt_of_runs {α : Type} {change : Attempt α} {x : α}
    (h : change.run.run a = (.ok x, a')) : attempt change a = .ok (x, a') := by
  rw [attempt, h]

theorem attempt_of_refused {α : Type} {change : Attempt α} {e : EditError}
    (h : change.run.run a = (.error e, a')) : attempt change a = .error e := by
  rw [attempt, h]

theorem add_eq (h : a.memo.Within a.program) (source : String) : a.add source =
    (parseArena source).map fun arena =>
      (a.program.nextId, ofProgram (a.program.addUnit arena)) := by
  cases hs : parseArena source with
  | error e => exact attempt_of_refused (refused_addSource hs)
  | ok arena => exact attempt_of_runs (runs_addSource h hs)

theorem addArena_eq (h : a.memo.Within a.program) (arena : Arena) :
    a.addArena arena = (a.program.nextId, ofProgram (a.program.addUnit arena)) := run_addUnit h arena

theorem replaceArena_of_live (h : a.memo.Within a.program) (hid : (a.unit? id).isSome)
    (arena : Arena) :
    a.replaceArena id arena = .ok (ofProgram (a.program.replaceUnit id arena)) := by
  rw [replaceArena, attempt_of_runs (runs_replaceUnit h hid arena)]
  rfl

theorem replaceArena_of_unknown (hid : a.unit? id = none) (arena : Arena) :
    a.replaceArena id arena = .error (.unknownUnit id) := by
  rw [replaceArena, attempt_of_refused (refused_replaceUnit hid arena)]
  rfl

theorem replace_of_error {e : EditError} (hs : parseArena source = .error e) :
    a.replace id source = .error e := by
  have hrefused : (replaceSource id source).run.run a = (.error e, a) := refused_parse hs
  rw [replace, attempt_of_refused hrefused]
  rfl

theorem replace_of_ok (hs : parseArena source = .ok arena) :
    a.replace id source = a.replaceArena id arena := by
  have hrun : (replaceSource id source).run.run a = (replaceUnit id arena).run.run a :=
    runs_parse hs
  rw [replace, replaceArena, attempt, attempt, hrun]

theorem remove_of_live (h : a.memo.Within a.program) (hid : (a.unit? id).isSome) :
    a.remove id = .ok (ofProgram (a.program.removeUnit id)) := by
  obtain ⟨u, hu⟩ := Option.isSome_iff_exists.mp hid
  rw [remove, attempt_of_runs (runs_removeUnit h hu)]
  rfl

theorem remove_of_unknown (h : a.memo.Within a.program) (hid : a.unit? id = none) :
    a.remove id = .error (.unknownUnit id) := by
  rw [remove, attempt_of_refused (refused_removeUnit h hid)]
  rfl

theorem parseArena_eq_ok_iff {source : String} {arena : Arena} :
    parseArena source = .ok arena ↔ Arena.parse source = .ok arena := by
  unfold parseArena
  cases Arena.parse source with
  | error e => exact ⟨nofun, nofun⟩
  | ok b => simp [Except.mapError]

theorem parsed_parseArena {source : String} {arena : Arena} (h : parseArena source = .ok arena) :
    arena.Parsed := Arena.parsed_parse (parseArena_eq_ok_iff.mp h)

theorem of_mapM_cons {source : String} {sources : List String} {arenas : List Arena}
    (h : (source :: sources).mapM parseArena = .ok arenas) :
    ∃ arena rest, parseArena source = .ok arena ∧ sources.mapM parseArena = .ok rest ∧
      arenas = arena :: rest := by
  rw [List.mapM_cons] at h
  cases hs : parseArena source with
  | error e =>
    rw [hs] at h
    cases h
  | ok arena =>
    cases hrest : sources.mapM parseArena with
    | error e =>
      rw [hs, hrest] at h
      cases h
    | ok rest =>
      rw [hs, hrest] at h
      cases h
      exact ⟨arena, rest, rfl, rfl, rfl⟩

theorem parsed_of_mapM {sources : List String} {arenas : List Arena}
    (h : sources.mapM parseArena = .ok arenas) : ∀ arena ∈ arenas, arena.Parsed := by
  induction sources generalizing arenas with
  | nil =>
    cases h
    exact nofun
  | cons source sources ih =>
    obtain ⟨arena, rest, hs, hrest, rfl⟩ := of_mapM_cons h
    intro x hx
    rcases List.mem_cons.mp hx with rfl | hx
    · exact parsed_parseArena hs
    · exact ih hrest x hx

theorem run_insertUnits (arenas : List Arena) (a : Analysis) : (arenas.mapM insertUnit).run a =
    ((List.range' a.program.units.size arenas.length).map UnitId.mk,
      { a with program := arenas.foldl Program.pushUnit a.program }) := by
  induction arenas generalizing a with
  | nil => rfl
  | cons arena arenas ih =>
    have hinsert : (insertUnit arena).run a =
      (a.program.nextId, { a with program := a.program.pushUnit arena }) := rfl
    have hsize : (a.program.pushUnit arena).units.size = a.program.units.size + 1 :=
      Array.size_push _
    rw [List.mapM_cons]
    refine (run_bind hinsert).trans ((run_bind (ih _)).trans ?_)
    rw [hsize, List.length_cons, List.range'_succ, List.map_cons]
    rfl

theorem build_eq (config : Config) (imports : Imports) (arenas : List Arena) :
    ((build arenas).run (ofProgram { config, imports })).2 =
      ofProgram (Program.ofArenas config imports arenas) := by
  have hinsert := run_insertUnits arenas (ofProgram { config, imports })
  have hrecord := Changes.forM (changes_resolveNamespaces true)
    ((List.range' 0 arenas.length).map UnitId.mk) (arenas.foldl Program.pushUnit { config, imports })
  have hrun : (build arenas).run (ofProgram { config, imports }) = _ :=
    (run_bind hinsert).trans hrecord
  rw [hrun, Program.ofArenas, List.range_eq_range']

theorem ofSources_of_mapM {config : Config} {imports : Imports} {sources : List String}
    {arenas : List Arena} (hs : sources.mapM parseArena = .ok arenas) :
    ofSources config imports sources = .ok (ofProgram (Program.ofArenas config imports arenas)) := by
  rw [ofSources, hs, ← build_eq]
  rfl

theorem of_ofSources {config : Config} {imports : Imports} {sources : List String}
    (h : ofSources config imports sources = .ok a) :
    ∃ arenas, sources.mapM parseArena = .ok arenas ∧
      a = ofProgram (Program.ofArenas config imports arenas) := by
  cases hs : sources.mapM parseArena with
  | error e =>
    rw [ofSources, hs] at h
    cases h
  | ok arenas =>
    rw [ofSources_of_mapM hs] at h
    cases h
    exact ⟨arenas, rfl, rfl⟩

theorem of_add (hm : a.memo.Within a.program) (h : a.add source = .ok (id, a')) :
    ∃ arena, parseArena source = .ok arena ∧ a' = ofProgram (a.program.addUnit arena) := by
  rw [add_eq hm] at h
  cases hs : parseArena source with
  | error e =>
    rw [hs] at h
    cases h
  | ok arena =>
    rw [hs] at h
    cases h
    exact ⟨arena, rfl, rfl⟩

theorem of_replaceArena (hm : a.memo.Within a.program) (h : a.replaceArena id arena = .ok a') :
    (a.unit? id).isSome ∧ a' = ofProgram (a.program.replaceUnit id arena) := by
  cases hu : a.unit? id with
  | none =>
    rw [replaceArena_of_unknown hu] at h
    cases h
  | some u =>
    rw [replaceArena_of_live hm (hu ▸ rfl)] at h
    cases h
    exact ⟨rfl, rfl⟩

theorem of_replace (hm : a.memo.Within a.program) (h : a.replace id source = .ok a') :
    ∃ arena, parseArena source = .ok arena ∧ (a.unit? id).isSome ∧
      a' = ofProgram (a.program.replaceUnit id arena) := by
  cases hs : parseArena source with
  | error e =>
    rw [replace_of_error hs] at h
    cases h
  | ok arena =>
    rw [replace_of_ok hs] at h
    exact ⟨arena, rfl, of_replaceArena hm h⟩

theorem of_remove (hm : a.memo.Within a.program) (h : a.remove id = .ok a') :
    (a.unit? id).isSome ∧ a' = ofProgram (a.program.removeUnit id) := by
  cases hu : a.unit? id with
  | none =>
    rw [remove_of_unknown hm hu] at h
    cases h
  | some u =>
    rw [remove_of_live hm (hu ▸ rfl)] at h
    cases h
    exact ⟨rfl, rfl⟩

theorem sound_apply (hp : a.program.Sound) (hm : a.memo.Within a.program) {e : Edit}
    (h : e.apply a = .ok a') :
    a'.program.Sound ∧ a'.memo = ∅ := by
  cases e with
  | add source =>
    cases hadd : a.add source with
    | error e =>
      rw [Edit.apply, hadd] at h
      cases h
    | ok added =>
      rw [Edit.apply, hadd] at h
      obtain ⟨id, b⟩ := added
      obtain ⟨arena, hs, rfl⟩ := of_add hm hadd
      cases h
      exact ⟨hp.addUnit (parsed_parseArena hs), rfl⟩
  | replace id source =>
    obtain ⟨arena, hs, hid, rfl⟩ := of_replace hm h
    exact ⟨hp.replaceUnit id hid (parsed_parseArena hs), rfl⟩
  | remove id =>
    obtain ⟨hid, rfl⟩ := of_remove hm h
    exact ⟨hp.removeUnit id hid, rfl⟩
  | setImports imports =>
    cases h
    rw [setImports_eq hm]
    exact ⟨hp.setImports imports, rfl⟩

theorem sound_ofSources {config : Config} {imports : Imports} {sources : List String}
    (h : ofSources config imports sources = .ok a) : a.program.Sound ∧ a.memo = ∅ := by
  obtain ⟨arenas, hs, rfl⟩ := of_ofSources h
  exact ⟨Program.sound_ofArenas config imports (parsed_of_mapM hs), rfl⟩

end Analysis

end SquirrelAnalyzer
