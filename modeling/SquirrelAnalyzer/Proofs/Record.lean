import SquirrelAnalyzer.Proofs.Bounds
import SquirrelAnalyzer.Proofs.Entries

namespace SquirrelAnalyzer

theorem SourceUnit.Sound.withNamespaces {u : SourceUnit} (h : u.Sound)
    (namespaces : List NamespaceEntry) (outline : Outline) :
    ({ u with namespaces, outline } : SourceUnit).Sound :=
  ⟨h.unit, h.rooted, h.ascending, h.scopes, h.metas, h.pending, h.nodup⟩

namespace Program

variable {p p' : Program} {id : UnitId} {u : SourceUnit}

theorem unit?_modifyUnit (p : Program) (id : UnitId) (f : SourceUnit → SourceUnit) (id' : UnitId) :
    (p.modifyUnit id f).unit? id' = if id' = id then (p.unit? id').map f else p.unit? id' := by
  simp only [modifyUnit, unit?, Array.getElem?_modify]
  by_cases h : id' = id
  · subst h
    cases hu : p.units[id'.index]? with
    | none => simp
    | some o => cases o <;> simp
  · have hi : id.index ≠ id'.index := fun he => h (by cases id; cases id'; simp_all)
    simp [h, hi]

theorem Closed.qualifiedParts? {I : Branch → Prop} (h : p.Closed I) {d owner : Branch}
    {nameNode : NodeId} (hd : I d) (hp : p.qualifiedParts? d = some (owner, nameNode)) :
    I owner := by
  unfold Program.qualifiedParts? at hp
  split at hp
  · next hs =>
    cases hp
    refine h.childOf hd hs ?_
    simp [Shape.operands, Shape.children, Shape.kind, Kind.fields, Shape.field]
  · next hs =>
    cases hp
    refine h.childOf hd hs ?_
    simp [Shape.operands, Shape.children, Shape.kind, Kind.fields, Shape.field]
  · next operator left right hs =>
    obtain ⟨⟨object, property, computed⟩, hm, hp⟩ := Option.map_eq_some_iff.mp hp
    cases hp
    obtain ⟨s, hs', hm⟩ := Option.bind_eq_some_iff.mp hm
    have hleft : I (d.child left) := by
      refine h.childOf hd hs ?_
      simp [Shape.operands, Shape.children, Shape.kind, Kind.fields, Shape.field]
    refine h.childOf hleft hs' ?_
    cases s <;> simp [Shape.member?] at hm
    simp [hm, Shape.operands]
  · cases hp

theorem Closed.freshValue? {I : Branch → Prop} (h : p.Closed I) {b : Branch} {v : Value} (hb : I b)
    (hv : p.freshValue? b = some v) : Query.Holds I .value v := by
  cases hr : (p.answer .value b).run.run {} with | mk r s
  refine (answer_holds h .value b {} r s hb Memo.holds_empty hr).1 v ?_
  unfold Program.freshValue? at hv
  rw [hr] at hv
  exact hv

theorem Closed.namespaceEntry? {I : Branch → Prop} (h : p.Closed I) {d : Branch} (hd : I d)
    {e : NamespaceEntry} (he : p.namespaceEntry? d = some e) : ∃ b, I b ∧ b.ref = e.owner := by
  simp only [ Program.namespaceEntry?, Option.bind_eq_bind, Option.bind_eq_some_iff, Option.pure_def,
    Option.some.injEq] at he
  obtain ⟨-, -, ⟨owner, nameNode⟩, hparts, name, -, v, hv, b, hb, rfl⟩ := he
  have hv := h.freshValue? (h.qualifiedParts? hd hparts) hv
  cases v with
  | nominal name => cases hb
  | node b' i call =>
    cases hb
    exact ⟨_, hv.1, rfl⟩

theorem Sound.namespaceEntry? (h : p.Sound) (hu : p.unit? id = some u) {d : Branch}
    (hd : d ∈ u.pending) {e : NamespaceEntry} (he : p.namespaceEntry? d = some e) :
    ∃ v, p.unit? e.owner.unit = some v ∧ e.owner.node.index < v.arena.size := by
  have hbound : p.InBounds d := h.inBounds_of_below hu ((h.unit id u hu).2.pending d hd).1
  obtain ⟨b, ⟨v, hv, hin⟩, hb⟩ := h.closed.namespaceEntry? hbound he
  rw [← hb]
  exact ⟨v, hv, hin.target⟩

structure Recording (p : Program) (id : UnitId) (pending recorded : List Branch) : Prop where
  sound : p.Sound
  unit : ∀ u, p.unit? id = some u →
    u.pending = pending ∧ (u.namespaces.map (·.declaration)).Sublist recorded

theorem Sound.modifyUnit (h : p.Sound) {f : SourceUnit → SourceUnit}
    (hf : ∀ u, ∃ namespaces outline, f u = { u with namespaces, outline })
    (howner : ∀ u, p.unit? id = some u → ∀ e ∈ (f u).namespaces,
      ∃ v, p.unit? e.owner.unit = some v ∧ e.owner.node.index < v.arena.size)
    (hrec : ∀ u, p.unit? id = some u →
      ((f u).namespaces.map (·.declaration)).Sublist u.pending) :
    (p.modifyUnit id f).Sound := by
  have hkept {r : NodeRef} (hr : ∃ v, p.unit? r.unit = some v ∧ r.node.index < v.arena.size) :
      ∃ v, (p.modifyUnit id f).unit? r.unit = some v ∧ r.node.index < v.arena.size := by
    obtain ⟨v, hv, hlt⟩ := hr
    obtain ⟨namespaces, outline, he⟩ := hf v
    rw [unit?_modifyUnit, hv]
    split
    · refine ⟨f v, rfl, ?_⟩
      rw [he]
      exact hlt
    · exact ⟨v, rfl, hlt⟩
  refine ⟨fun id' u hu => ?_, fun id' u hu e he => ?_, fun id' u hu => ?_⟩
  · rw [unit?_modifyUnit] at hu
    split at hu
    · obtain ⟨v, hv, rfl⟩ := Option.map_eq_some_iff.mp hu
      obtain ⟨namespaces, outline, he⟩ := hf v
      rw [he]
      exact ⟨(h.unit id' v hv).1, (h.unit id' v hv).2.withNamespaces namespaces outline⟩
    · exact h.unit id' u hu
  · rw [unit?_modifyUnit] at hu
    split at hu
    · next hid =>
      obtain ⟨v, hv, rfl⟩ := Option.map_eq_some_iff.mp hu
      exact hkept (howner v (hid ▸ hv) e he)
    · exact hkept (h.owner id' u hu e he)
  · rw [unit?_modifyUnit] at hu
    split at hu
    · next hid =>
      obtain ⟨v, hv, rfl⟩ := Option.map_eq_some_iff.mp hu
      have hrec := hrec v (hid ▸ hv)
      obtain ⟨namespaces, outline, he⟩ := hf v
      rw [he] at hrec ⊢
      exact hrec
    · exact h.recorded id' u hu

theorem Recording.declaration {pending done rest : List Branch} {d : Branch} (reparent : Bool)
    (h : p.Recording id pending done) (hp : done ++ d :: rest = pending) :
    (recordDeclaration reparent id p d).Recording id pending (done ++ [d]) := by
  have hle : done.Sublist (done ++ [d]) := List.sublist_append_left done [d]
  have hd : d ∈ pending := hp ▸ by simp
  unfold recordDeclaration
  split
  · exact ⟨h.sound, fun u hu => ⟨(h.unit u hu).1, (h.unit u hu).2.trans hle⟩⟩
  · next e he =>
    have hdecl := declaration_of_namespaceEntry? he
    have hsub (u : SourceUnit) (hu : p.unit? id = some u) :
        ((u.namespaces ++ [e]).map (·.declaration)).Sublist (done ++ [d]) := by
      rw [List.map_append, List.map_singleton, hdecl]
      exact (h.unit u hu).2.append (List.Sublist.refl [d])
    refine ⟨h.sound.modifyUnit (fun u => ⟨_, _, rfl⟩) ?_ ?_, ?_⟩
    · intro u hu e' he'
      rcases List.mem_append.mp he' with he' | he'
      · exact h.sound.owner id u hu e' he'
      · rw [List.mem_singleton.mp he']
        exact h.sound.namespaceEntry? hu ((h.unit u hu).1 ▸ hd) he
    · intro u hu
      refine (hsub u hu).trans ?_
      rw [(h.unit u hu).1, ← hp, List.append_cons done d rest]
      exact List.sublist_append_left _ rest
    · intro u hu
      rw [recordEntry, unit?_modifyUnit, if_pos rfl] at hu
      obtain ⟨v, hv, rfl⟩ := Option.map_eq_some_iff.mp hu
      exact ⟨(h.unit v hv).1, hsub v hv⟩

theorem Recording.foldl {pending rest : List Branch} (reparent : Bool) {p : Program}
    {done : List Branch} (h : p.Recording id pending done) (hp : done ++ rest = pending) :
    (rest.foldl (recordDeclaration reparent id) p).Recording id pending pending := by
  induction rest generalizing p done with
  | nil =>
    rw [List.append_nil] at hp
    exact hp ▸ h
  | cons d rest ih =>
    apply ih (h.declaration reparent hp)
    rw [← hp, List.append_assoc, List.singleton_append]

def Cleared (p : Program) (id : UnitId) : Prop := ∀ u, p.unit? id = some u → u.namespaces = []

theorem Sound.recordUnit (h : p.Sound) (reparent : Bool) (hc : p.Cleared id) :
    (recordUnit reparent p id).Sound := by
  unfold Program.recordUnit
  split
  · exact h
  · next u hu =>
    have hstart : p.Recording id u.pending [] := by
      refine ⟨h, fun v hv => ?_⟩
      obtain rfl := Option.some.inj (hu.symm.trans hv)
      exact ⟨rfl, by rw [hc u hu]; exact List.Sublist.refl _⟩
    exact (hstart.foldl reparent rfl).sound

theorem unit?_recordUnit_of_ne (reparent : Bool) (p : Program) {id id' : UnitId} (h : id' ≠ id) :
    (Program.recordUnit reparent p id).unit? id' = p.unit? id' := by
  unfold Program.recordUnit
  split
  · rfl
  · refine List.foldlRecOn _ _ (motive := fun q : Program => q.unit? id' = p.unit? id') rfl ?_
    intro q hq d _
    unfold recordDeclaration
    split
    · exact hq
    · rw [recordEntry, unit?_modifyUnit, if_neg h, hq]

theorem Sound.recordUnits (h : p.Sound) (reparent : Bool) {ids : List UnitId} (hn : ids.Nodup)
    (hc : ∀ id ∈ ids, p.Cleared id) :
    (ids.foldl (Program.recordUnit reparent) p).Sound := by
  induction ids generalizing p with
  | nil => exact h
  | cons id ids ih =>
    obtain ⟨hnot, hn⟩ := List.nodup_cons.mp hn
    refine ih (h.recordUnit reparent (hc id List.mem_cons_self)) hn fun id' hid' u hu => ?_
    have hne : id' ≠ id := by
      rintro rfl
      exact hnot hid'
    rw [unit?_recordUnit_of_ne reparent p hne] at hu
    exact hc id' (List.mem_cons_of_mem _ hid') u hu

theorem unit?_recordUnits_of_notMem (reparent : Bool) (p : Program) {ids : List UnitId}
    {id : UnitId} (h : id ∉ ids) :
    (ids.foldl (Program.recordUnit reparent) p).unit? id = p.unit? id := by
  induction ids generalizing p with
  | nil => rfl
  | cons id' ids ih =>
    rw [List.foldl_cons, ih _ fun hid => h (List.mem_cons_of_mem _ hid)]
    refine unit?_recordUnit_of_ne reparent p ?_
    rintro rfl
    exact h List.mem_cons_self

def Bare (p : Program) : Prop :=
  ∀ id u, p.unit? id = some u → u.id = id ∧ u.Sound ∧ u.namespaces = []

theorem Bare.sound (h : p.Bare) : p.Sound where
  unit id u hu := ⟨(h id u hu).1, (h id u hu).2.1⟩
  owner id u hu e he := by
    rw [(h id u hu).2.2] at he
    cases he
  recorded id u hu := by
    rw [(h id u hu).2.2]
    exact List.nil_sublist _

theorem Bare.cleared (h : p.Bare) (id : UnitId) : p.Cleared id := fun u hu => (h id u hu).2.2

theorem unit?_clearNamespaces (p : Program) (id id' : UnitId) :
    (p.clearNamespaces id).unit? id' =
      if id' = id then (p.unit? id').map fun u => { u with namespaces := [] } else p.unit? id' :=
  unit?_modifyUnit p id _ id'

theorem unit?_clear (p : Program) (ids : List UnitId) (id : UnitId) :
    (ids.foldl clearNamespaces p).unit? id =
      if id ∈ ids then (p.unit? id).map fun u => { u with namespaces := [] } else p.unit? id := by
  induction ids generalizing p with
  | nil => simp
  | cons id' ids ih =>
    rw [List.foldl_cons, ih, unit?_clearNamespaces]
    by_cases h : id = id'
    · subst h
      cases p.unit? id <;> simp
    · simp [h]

def others (p : Program) (changed : Option UnitId) : List UnitId :=
  (p.liveUnits.map (·.id)).filter (some · ≠ changed)

theorem notMem_others (p : Program) (id : UnitId) : id ∉ p.others (some id) := by
  simp [others]

theorem nodup_others (hunit : ∀ id u, p.unit? id = some u → u.id = id ∧ u.Sound)
    (changed : Option UnitId) : (p.others changed).Nodup :=
  (nodup_liveIds fun id u hu => (hunit id u hu).1).filter _

theorem bare_clear (changed : Option UnitId)
    (hunit : ∀ id u, p.unit? id = some u → u.id = id ∧ u.Sound)
    (hc : ∀ id, changed = some id → p.Cleared id) :
    ((p.others changed).foldl clearNamespaces p).Bare := by
  intro id u hu
  rw [unit?_clear] at hu
  split at hu
  · obtain ⟨v, hv, rfl⟩ := Option.map_eq_some_iff.mp hu
    exact ⟨(hunit id v hv).1, (hunit id v hv).2.withNamespaces [] v.outline, rfl⟩
  · next hnot =>
    refine ⟨(hunit id u hu).1, (hunit id u hu).2, hc id ?_ u hu⟩
    by_contra hne
    apply hnot
    refine List.mem_filter.mpr ⟨List.mem_map.mpr ⟨u, mem_liveUnits.mpr ⟨id, hu⟩, (hunit id u hu).1⟩, ?_⟩
    simpa using Ne.symm hne

theorem sound_refresh (changed : Option UnitId)
    (hunit : ∀ id u, p.unit? id = some u → u.id = id ∧ u.Sound)
    (hc : ∀ id, changed = some id → p.Cleared id) :
    (p.refresh changed).Sound ∧ ∀ id, changed = some id →
      (p.refresh changed).unit? id = p.unit? id := by
  have hbare := bare_clear changed hunit hc
  refine ⟨hbare.sound.recordUnits false (nodup_others hunit changed) fun id _ => hbare.cleared id,
    ?_⟩
  rintro id rfl
  show ((p.others (some id)).foldl (Program.recordUnit false)
    ((p.others (some id)).foldl clearNamespaces p)).unit? id = p.unit? id
  rw [unit?_recordUnits_of_notMem false _ (p.notMem_others id), unit?_clear,
    if_neg (p.notMem_others id)]

theorem sound_settle (hunit : ∀ id u, p.unit? id = some u → u.id = id ∧ u.Sound)
    (hc : p.Cleared id) : (p.settle id).Sound := by
  obtain ⟨hs, hsame⟩ := sound_refresh (some id) hunit (by rintro _ ⟨⟩; exact hc)
  refine hs.recordUnit true fun u hu => ?_
  rw [hsame id rfl] at hu
  exact hc u hu

theorem unit?_pushUnit (p : Program) (a : Arena) (id : UnitId) :
    (p.pushUnit a).unit? id =
      if id = p.nextId then some (SourceUnit.build p.config p.nextId a) else p.unit? id := by
  simp only [pushUnit, unit?, nextId]
  by_cases h : id = ⟨p.units.size⟩
  · subst h
    simp
  · have hi : id.index ≠ p.units.size := fun he => h (by cases id; simp_all)
    simp [h, Array.getElem?_push, hi]

theorem unit?_setUnit (p : Program) (id : UnitId) (o : Option SourceUnit) (id' : UnitId) :
    (p.setUnit id o).unit? id' =
      if id' = id ∧ id.index < p.units.size then o else p.unit? id' := by
  simp only [setUnit, unit?, Array.getElem?_setIfInBounds]
  by_cases h : id' = id
  · subst h
    by_cases hlt : id'.index < p.units.size
    · simp [hlt]
    · simp [hlt]
  · have hi : id.index ≠ id'.index := fun he => h (by cases id; cases id'; simp_all)
    simp [h, hi]

theorem unit?_nextId (p : Program) : p.unit? p.nextId = none := by
  simp [unit?, nextId]

theorem lt_size_of_unit? (h : (p.unit? id).isSome) : id.index < p.units.size := by
  by_contra hlt
  simp [unit?, Array.getElem?_eq_none (Nat.le_of_not_lt hlt)] at h

theorem built_pushUnit (hunit : ∀ id u, p.unit? id = some u → u.id = id ∧ u.Sound) {a : Arena}
    (ha : a.Parsed) {id : UnitId} {u : SourceUnit} (hu : (p.pushUnit a).unit? id = some u) :
    u.id = id ∧ u.Sound := by
  rw [unit?_pushUnit] at hu
  split at hu
  · next hid =>
    cases hu
    rw [hid]
    exact ⟨SourceUnit.id_build _ _ _, SourceUnit.sound_build _ _ ha⟩
  · exact hunit id u hu

theorem cleared_pushUnit (p : Program) (a : Arena) : (p.pushUnit a).Cleared p.nextId := by
  intro u hu
  rw [unit?_pushUnit, if_pos rfl] at hu
  cases hu
  exact SourceUnit.namespaces_build _ _ _

theorem built_rebuildUnit (hunit : ∀ id u, p.unit? id = some u → u.id = id ∧ u.Sound) (id : UnitId)
    {a : Arena} (ha : a.Parsed) {id' : UnitId} {u : SourceUnit}
    (hu : (p.rebuildUnit id a).unit? id' = some u) : u.id = id' ∧ u.Sound := by
  rw [rebuildUnit, unit?_setUnit] at hu
  split at hu
  · next he =>
    cases hu
    rw [he.1]
    exact ⟨SourceUnit.id_build _ _ _, SourceUnit.sound_build _ _ ha⟩
  · exact hunit id' u hu

theorem cleared_rebuildUnit (hid : (p.unit? id).isSome) (a : Arena) : (p.rebuildUnit id a).Cleared id := by
  intro u hu
  rw [rebuildUnit, unit?_setUnit, if_pos ⟨rfl, lt_size_of_unit? hid⟩] at hu
  cases hu
  exact SourceUnit.namespaces_build _ _ _

theorem Sound.addUnit (h : p.Sound) {a : Arena} (ha : a.Parsed) : (p.addUnit a).Sound :=
  sound_settle (fun _ _ => built_pushUnit h.unit ha) (p.cleared_pushUnit a)

theorem Sound.replaceUnit (h : p.Sound) (id : UnitId) (hid : (p.unit? id).isSome) {a : Arena}
    (ha : a.Parsed) : (p.replaceUnit id a).Sound :=
  sound_settle (p := p.rebuildUnit id a) (fun _ _ => built_rebuildUnit h.unit id ha)
    (cleared_rebuildUnit hid a)

theorem Sound.removeUnit (h : p.Sound) (id : UnitId) (hid : (p.unit? id).isSome) :
    (p.removeUnit id).Sound := by
  have hlt := lt_size_of_unit? hid
  refine (sound_refresh (some id) (fun id' u hu => ?_) ?_).1
  · rw [unit?_setUnit] at hu
    split at hu
    · cases hu
    · exact h.unit id' u hu
  · rintro _ ⟨⟩ u hu
    rw [unit?_setUnit, if_pos ⟨rfl, hlt⟩] at hu
    cases hu

theorem Sound.setImports (h : p.Sound) (imports : Imports) : (p.setImports imports).Sound :=
  (sound_refresh (p := { p with imports }) none h.unit nofun).1

theorem Bare.pushUnit (h : p.Bare) {a : Arena} (ha : a.Parsed) : (p.pushUnit a).Bare := by
  intro id u hu
  by_cases hid : id = p.nextId
  · subst hid
    obtain ⟨hid, hs⟩ := built_pushUnit (fun id u hu => ⟨(h id u hu).1, (h id u hu).2.1⟩) ha hu
    exact ⟨hid, hs, p.cleared_pushUnit a u hu⟩
  · rw [unit?_pushUnit, if_neg hid] at hu
    exact h id u hu

theorem bare_pushUnits {p : Program} (h : p.Bare) {arenas : List Arena}
    (ha : ∀ a ∈ arenas, a.Parsed) : (arenas.foldl Program.pushUnit p).Bare := by
  induction arenas generalizing p with
  | nil => exact h
  | cons a arenas ih =>
    exact ih (h.pushUnit (ha a List.mem_cons_self)) fun b hb => ha b (List.mem_cons_of_mem a hb)

theorem bare_start (config : Config) (imports : Imports) :
    ({ config, imports } : Program).Bare := by
  intro id u hu
  simp [unit?] at hu

theorem sound_ofArenas (config : Config) (imports : Imports) {arenas : List Arena}
    (ha : ∀ a ∈ arenas, a.Parsed) : (ofArenas config imports arenas).Sound := by
  have hbare := bare_pushUnits (bare_start config imports) ha
  refine hbare.sound.recordUnits true ?_ fun id _ => hbare.cleared id
  refine List.pairwise_map.mpr (List.nodup_range.imp ?_)
  exact fun hne he => hne (UnitId.mk.inj he)

end Program

end SquirrelAnalyzer
