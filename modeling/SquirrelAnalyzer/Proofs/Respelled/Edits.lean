import SquirrelAnalyzer.Proofs.Respelled.Kept

namespace SquirrelAnalyzer

structure Arena.Spellings (a a' : Arena) : Prop where
  left : ∃ source, Arena.parse source = .ok a
  right : ∃ source, Arena.parse source = .ok a'
  keys : a.Rekeyed a'

theorem Arena.Spellings.stored {a a' : Arena} (h : a.Spellings a') (config : Config)
    (id : UnitId) : SourceUnit.Stored id (SourceUnit.build config id a)
      (SourceUnit.build config id a') := by
  obtain ⟨source, hparse⟩ := h.left
  obtain ⟨source', hparse'⟩ := h.right
  obtain ⟨tokens, body, hreads⟩ := Arena.reads_parse hparse
  obtain ⟨tokens', body', hreads'⟩ := Arena.reads_parse hparse'
  refine ⟨?_, SourceUnit.id_build config id a,
    SourceUnit.documents_build config id hreads.parsed, ?_⟩
  · exact h.keys.build hreads.parsed hreads'.parsed hreads.nested
      (fun _ => hreads.id_eq) (fun _ => hreads'.id_eq) config id
  · rw [SourceUnit.namespaces_build]
    exact nofun

namespace SourceUnit.Stored

variable {id : UnitId} {u u' : SourceUnit} (h : Stored id u u')

include h

theorem withNamespaces {namespaces : List NamespaceEntry} (outline outline' : Outline)
    (hn : ∀ e ∈ namespaces, e.declaration ∈ u.pending) :
    Stored id { u with namespaces, outline } { u' with namespaces, outline := outline' } := by
  have hr := h.twin.respelled
  have hg := h.twin.grounded
  refine ⟨⟨⟨hr.id, hr.arena, hr.facts, hr.pending, rfl, hr.keys, hr.spelled⟩,
    h.twin.sound.withNamespaces _ _, ?_⟩, h.id, h.documents, hn⟩
  exact ⟨hg.nested, hg.scopes, hg.declarations, hg.metas, hg.getters, hg.aliases⟩

end SourceUnit.Stored

namespace Program

variable {p p' : Program} {id : UnitId}

theorem exists_unit_of_mem_pendingOf {d : Branch} (h : d ∈ p.pendingOf id) :
    ∃ u, p.unit? id = some u ∧ d ∈ u.pending := by
  unfold pendingOf at h
  cases hu : p.unit? id with
  | none =>
    rw [hu] at h
    cases h
  | some u =>
    rw [hu] at h
    exact ⟨u, rfl, h⟩

theorem recordUnit_eq_foldl (reparent : Bool) (p : Program) (id : UnitId) :
    recordUnit reparent p id = (p.pendingOf id).foldl (recordDeclaration reparent id) p := by
  unfold recordUnit pendingOf
  cases p.unit? id <;> rfl

theorem liveIds_eq (h : p.Twins p') : p.liveUnits.map (·.id) = p'.liveUnits.map (·.id) :=
  map_eq_of_forall₂ (fun _ _ hu => hu.id) h.forall₂_liveUnits

namespace Twins

variable (h : p.Twins p')

include h

theorem nextId : p.nextId = p'.nextId := congrArg UnitId.mk h.places

theorem modifyUnit {f f' : SourceUnit → SourceUnit}
    (hf : ∀ u u', p.unit? id = some u → p'.unit? id = some u' → SourceUnit.Stored id u u' →
      SourceUnit.Stored id (f u) (f' u')) : (p.modifyUnit id f).Twins (p'.modifyUnit id f') where
  config := h.config
  imports := h.imports
  places := by
    rw [Program.modifyUnit, Program.modifyUnit, Array.size_modify, Array.size_modify, h.places]
  unit id' := by
    have hrel := h.unit id'
    rw [unit?_modifyUnit, unit?_modifyUnit]
    split
    · next he =>
      subst he
      cases hu : p.unit? id' <;> cases hu' : p'.unit? id' <;> rw [hu, hu'] at hrel <;> cases hrel
      · exact .none
      · next hs => exact .some (hf _ _ hu hu' hs)
    · exact hrel

theorem set {o o' : Option SourceUnit} (ho : o.Rel (SourceUnit.Stored id) o') :
    (p.setUnit id o).Twins (p'.setUnit id o') where
  config := h.config
  imports := h.imports
  places := by simp only [Program.setUnit, Array.size_setIfInBounds, h.places]
  unit id' := by
    rw [unit?_setUnit, unit?_setUnit, ← h.places]
    split
    · next he =>
      rw [he.1]
      exact ho
    · exact h.unit id'

theorem pushUnit {a a' : Arena} (ha : a.Spellings a') : (p.pushUnit a).Twins (p'.pushUnit a') where
  config := h.config
  imports := h.imports
  places := by
    rw [Program.pushUnit, Program.pushUnit, Array.size_push, Array.size_push, h.places]
  unit id := by
    rw [unit?_pushUnit, unit?_pushUnit, ← h.nextId, ← h.config]
    split
    · next he =>
      subst he
      exact .some (ha.stored p.config p.nextId)
    · exact h.unit id

theorem clearNamespaces (id : UnitId) : (p.clearNamespaces id).Twins (p'.clearNamespaces id) :=
  h.modifyUnit fun u u' _ _ hs => hs.withNamespaces u.outline u'.outline nofun

theorem pendingOf (id : UnitId) : p.pendingOf id = p'.pendingOf id := by
  unfold Program.pendingOf
  rcases (h.atUnit id).cases with ⟨hu, hu'⟩ | ⟨u, u', hu, hu', hr⟩
  · rw [hu, hu']
  · rw [hu, hu', Option.map_some, Option.map_some, hr.pending]

theorem namespaceEntry? {d : Branch} (hd : d ∈ p.pendingOf id) :
    p.namespaceEntry? d = Program.namespaceEntry? p' d := by
  obtain ⟨u, hu, hd⟩ := exists_unit_of_mem_pendingOf hd
  obtain ⟨u', hu', hstored⟩ := h.stored hu
  obtain ⟨hbelow, hqualified⟩ := hstored.twin.sound.pending d hd
  obtain ⟨kind, hk, hi, hm⟩ := hqualified.exists_kind
  refine h.matches.namespaceEntry? (kept_of_kind ?_ hi hm)
  rw [kind?_of_unit? (by rw [h.unit_of_below hu hbelow, hu]), hk]

theorem recordDeclaration (reparent : Bool) {d : Branch} (hd : d ∈ p.pendingOf id) :
    (recordDeclaration reparent id p d).Twins (Program.recordDeclaration reparent id p' d) := by
  unfold Program.recordDeclaration
  rw [← h.namespaceEntry? hd]
  cases he : p.namespaceEntry? d with
  | none => exact h
  | some e =>
    refine h.modifyUnit fun u u' hu _ hs => ?_
    rw [← hs.twin.respelled.namespaces]
    refine hs.withNamespaces _ _ fun x hx => ?_
    rcases List.mem_append.mp hx with hx | hx
    · exact hs.recorded x hx
    · obtain rfl := List.mem_singleton.mp hx
      rwa [ declaration_of_namespaceEntry? he, ← pendingOf_of_unit? hu]

theorem recordDeclarations (reparent : Bool) {ds : List Branch} (hd : ds ⊆ p.pendingOf id) :
    (ds.foldl (Program.recordDeclaration reparent id) p).Twins
      (ds.foldl (Program.recordDeclaration reparent id) p') := by
  induction ds generalizing p p' with
  | nil => exact h
  | cons d ds ih =>
    obtain ⟨hd, hds⟩ := List.cons_subset.mp hd
    refine ih (h.recordDeclaration reparent hd) ?_
    rwa [pendingOf_congr (skeleton_recordDeclaration reparent id p d)]

theorem recordUnit (reparent : Bool) (id : UnitId) :
    (recordUnit reparent p id).Twins (Program.recordUnit reparent p' id) := by
  rw [recordUnit_eq_foldl, recordUnit_eq_foldl, ← h.pendingOf]
  exact h.recordDeclarations reparent fun _ hd => hd

theorem foldl {step : Program → UnitId → Program}
    (hstep : ∀ {p p' : Program}, p.Twins p' → ∀ id, (step p id).Twins (step p' id))
    (ids : List UnitId) : (ids.foldl step p).Twins (ids.foldl step p') := by
  induction ids generalizing p p' with
  | nil => exact h
  | cons id ids ih => exact ih (hstep h id)

theorem refresh (changed : Option UnitId) : (p.refresh changed).Twins (p'.refresh changed) := by
  unfold Program.refresh
  dsimp only
  rw [← liveIds_eq h]
  exact (h.foldl (fun h => h.clearNamespaces) _).foldl (fun h => h.recordUnit false) _

theorem settle (id : UnitId) : (p.settle id).Twins (p'.settle id) :=
  (h.refresh (some id)).recordUnit true id

theorem addUnit {a a' : Arena} (ha : a.Spellings a') : (p.addUnit a).Twins (p'.addUnit a') := by
  unfold Program.addUnit
  rw [← h.nextId]
  exact (h.pushUnit ha).settle p.nextId

theorem replaceUnit (id : UnitId) {a a' : Arena} (ha : a.Spellings a') :
    (p.replaceUnit id a).Twins (p'.replaceUnit id a') := by
  have hstored : SourceUnit.Stored id (SourceUnit.build p.config id a)
      (SourceUnit.build p'.config id a') := h.config ▸ ha.stored p.config id
  exact (h.set (.some hstored)).settle id

theorem removeUnit (id : UnitId) : (p.removeUnit id).Twins (p'.removeUnit id) :=
  (h.set .none).refresh (some id)

theorem setImports (imports : Imports) : (p.setImports imports).Twins (p'.setImports imports) := by
  have hset : ({ p with imports } : Program).Twins { p' with imports } :=
    ⟨h.config, rfl, h.places, h.unit⟩
  exact hset.refresh none

end Twins

theorem twins_start (config : Config) (imports : Imports) :
    ({ config, imports } : Program).Twins { config, imports } where
  config := rfl
  imports := rfl
  places := rfl
  unit id := by
    have hnone : ({ config, imports } : Program).unit? id = none := by simp [unit?]
    rw [hnone]
    exact .none

theorem twins_ofArenas (config : Config) (imports : Imports) {arenas arenas' : List Arena}
    (ha : List.Forall₂ Arena.Spellings arenas arenas') :
    (ofArenas config imports arenas).Twins (ofArenas config imports arenas') := by
  have hpush {p p' : Program} (h : p.Twins p') :
      (arenas.foldl pushUnit p).Twins (arenas'.foldl pushUnit p') := by
    induction ha generalizing p p' with
    | nil => exact h
    | cons ha _ ih => exact ih (h.pushUnit ha)
  unfold ofArenas
  dsimp only
  rw [← ha.length_eq]
  exact (hpush (twins_start config imports)).foldl (fun h => h.recordUnit true) _

end Program

end SquirrelAnalyzer
