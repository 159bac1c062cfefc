import SquirrelAnalyzer.Proofs.Entries
import SquirrelAnalyzer.Proofs.Record

namespace SquirrelAnalyzer

theorem SourceUnit.Sound.unit_pending {u : SourceUnit} (h : u.Sound) {d : Branch}
    (hd : d ∈ u.pending) : d.unit = u.id := by
  rw [← h.unit]
  exact (h.pending d hd).1.unit_eq

namespace Program

def pendingOf (p : Program) (id : UnitId) : List Branch := ((p.unit? id).map (·.pending)).getD []

def Records (p : Program) (f : Entries) : Prop :=
  ∀ id u, p.unit? id = some u → u.namespaces = u.pending.filterMap f

variable {p p' base : Program} {f : Entries} {d : Branch} {id : UnitId} {done : List Branch}

theorem Records.plain_eq (h : p.Records f) : p.plain = p.recording f := by
  apply mapUnits_congr
  intro id u hu
  rw [SourceUnit.plain, SourceUnit.recording, h id u hu]

theorem pendingOf_of_unit? {u : SourceUnit} (hu : p.unit? id = some u) :
    p.pendingOf id = u.pending := by
  simp only [pendingOf, hu, Option.map_some, Option.getD_some]

theorem PlainOf.pendingOf (h : p.skeleton.PlainOf p'.skeleton) : p.pendingOf = p'.pendingOf := by
  have hs (p : Program) (id : UnitId) :
      p.pendingOf id = ((p.skeleton.unit? id).map (·.pending)).getD [] := by
    simp only [Program.pendingOf, skeleton, Program.recording, unit?_mapUnits, Option.map_map]
    rfl
  funext id
  rw [hs, hs, h.unit, Option.map_map]
  rfl

theorem pendingOf_congr (h : p.skeleton = p'.skeleton) : p.pendingOf = p'.pendingOf :=
  PlainOf.pendingOf (plainOf_skeleton h)

theorem Records.plainOf (h : p.Records f) (h' : p'.Records f)
    (hs : p.skeleton.PlainOf p'.skeleton) : p.plain.PlainOf p' := by
  have hrec := PlainOf.recording hs f
  rw [← h.plain_eq, ← h'.plain_eq] at hrec
  refine ⟨hrec.config, hrec.imports, fun id => ?_⟩
  rw [hrec.unit, p'.plainOf_plain.unit, Option.map_map]
  rfl

theorem filterMap_update {l₁ l₂ : List Branch} (e : Option NamespaceEntry)
    (hn : (l₁ ++ d :: l₂).Nodup) (hf : ∀ x ∈ d :: l₂, f x = none) :
    (l₁ ++ d :: l₂).filterMap (Function.update f d e) =
      (l₁ ++ d :: l₂).filterMap f ++ e.toList := by
  obtain ⟨-, htail, hdis⟩ := List.nodup_append.mp hn
  have hfirst : l₁.filterMap (Function.update f d e) = l₁.filterMap f := by
    apply List.filterMap_congr
    intro x hx
    exact Function.update_of_ne (hdis x hx d List.mem_cons_self) e f
  have hlast : l₂.filterMap (Function.update f d e) = [] := by
    rw [List.filterMap_eq_nil_iff]
    intro x hx
    have hne : x ≠ d := by
      rintro rfl
      exact (List.nodup_cons.mp htail).1 hx
    rw [Function.update_of_ne hne]
    exact hf x (List.mem_cons_of_mem d hx)
  have hnone : (d :: l₂).filterMap f = [] := List.filterMap_eq_nil_iff.mpr hf
  rw [List.filterMap_append, List.filterMap_append, hfirst, hnone, List.append_nil,
    List.filterMap_cons, Function.update_self, hlast]
  cases e <;> rfl

structure Recorded (base p : Program) (done : List Branch) : Prop where
  skeleton : p.skeleton = base.skeleton
  records : p.Records (base.recordAll done)

theorem skeleton_modifyUnit (p : Program) (id : UnitId) {f : SourceUnit → SourceUnit}
    (hf : ∀ u, ∃ namespaces outline, f u = { u with namespaces, outline }) :
    (p.modifyUnit id f).skeleton = p.skeleton := by
  simp only [skeleton, recording, mapUnits, modifyUnit]
  congr 1
  apply Array.ext_getElem?
  intro i
  simp only [Array.getElem?_map, Array.getElem?_modify]
  split
  · cases p.units[i]? with
    | none => rfl
    | some o =>
      cases o with
      | none => rfl
      | some u =>
        obtain ⟨namespaces, outline, he⟩ := hf u
        simp only [Option.map_some, he, SourceUnit.recording]
  · rfl

theorem skeleton_recordDeclaration (reparent : Bool) (id : UnitId) (p : Program) (d : Branch) :
    (recordDeclaration reparent id p d).skeleton = p.skeleton := by
  unfold recordDeclaration
  split
  · rfl
  · exact skeleton_modifyUnit p id fun u => ⟨_, _, rfl⟩

theorem Recorded.namespaceEntry?_eq (h : Recorded base p done) (d : Branch) :
    p.namespaceEntry? d = Program.namespaceEntry? (base.recording (base.recordAll done)) d := by
  rw [← p.plainOf_plain.namespaceEntry, h.records.plain_eq, recording_congr_skeleton h.skeleton]

theorem Recorded.declaration (reparent : Bool) (h : Recorded base p done) {l₁ l₂ : List Branch}
    (hp : p.pendingOf id = l₁ ++ d :: l₂) (hn : (l₁ ++ d :: l₂).Nodup)
    (hunit : ∀ id', d ∈ p.pendingOf id' → id' = id) (hnew : ∀ x ∈ d :: l₂, x ∉ done) :
    Recorded base (recordDeclaration reparent id p d) (done ++ [d]) := by
  refine ⟨(skeleton_recordDeclaration reparent id p d).trans h.skeleton, ?_⟩
  have hf (x : Branch) (hx : x ∈ d :: l₂) : base.recordAll done x = none :=
    recordAll_of_notMem (hnew x hx)
  rw [recordAll_concat, ← h.namespaceEntry?_eq]
  unfold recordDeclaration
  cases he : p.namespaceEntry? d with
  | none =>
    have hsame := Function.update_eq_self d (base.recordAll done)
    rw [hf d List.mem_cons_self] at hsame
    rw [hsame]
    exact h.records
  | some e =>
    intro id' u hu
    dsimp only [recordEntry] at hu
    rw [unit?_modifyUnit] at hu
    split at hu
    · next hid =>
      subst hid
      obtain ⟨v, hv, rfl⟩ := Option.map_eq_some_iff.mp hu
      have hv' := h.records id' v hv
      rw [pendingOf_of_unit? hv] at hp
      show v.namespaces ++ [e] = v.pending.filterMap _
      rw [hv', hp, filterMap_update (some e) hn hf]
      rfl
    · next hne =>
      rw [h.records id' u hu]
      apply List.filterMap_congr
      intro x hx
      refine (Function.update_of_ne ?_ _ _).symm
      rintro rfl
      exact hne (hunit id' (pendingOf_of_unit? hu ▸ hx))

structure Distinct (p : Program) : Prop where
  nodup : ∀ id, (p.pendingOf id).Nodup
  unit : ∀ id, ∀ d ∈ p.pendingOf id, d.unit = id

theorem distinct (hunit : ∀ id u, p.unit? id = some u → u.id = id ∧ u.Sound) : p.Distinct where
  nodup id := by
    unfold pendingOf
    cases hu : p.unit? id with
    | none => exact List.nodup_nil
    | some u => exact (hunit id u hu).2.nodup.of_map _
  unit id d hd := by
    unfold pendingOf at hd
    cases hu : p.unit? id with
    | none =>
      rw [hu] at hd
      cases hd
    | some u =>
      rw [hu] at hd
      exact ((hunit id u hu).2.unit_pending hd).trans (hunit id u hu).1

theorem Recorded.foldl (reparent : Bool) (hbase : base.Distinct) {l₁ rest : List Branch}
    (h : Recorded base p done) (hp : base.pendingOf id = l₁ ++ rest)
    (hnew : ∀ x ∈ rest, x ∉ done) :
    Recorded base (rest.foldl (recordDeclaration reparent id) p) (done ++ rest) := by
  induction rest generalizing p done l₁ with
  | nil =>
    rw [List.append_nil]
    exact h
  | cons d rest ih =>
    have hn := hbase.nodup id
    rw [hp] at hn
    have hpend := pendingOf_congr h.skeleton
    have hd : d ∈ base.pendingOf id := by simp [hp]
    have hstep := h.declaration reparent (hpend ▸ hp) hn (fun id' hid' => by
      rw [hpend] at hid'
      rw [← hbase.unit id' d hid', hbase.unit id d hd]) hnew
    rw [List.append_cons done d rest]
    rw [List.append_cons] at hp
    refine ih hstep hp fun x hx hmem => ?_
    rcases List.mem_append.mp hmem with hmem | hmem
    · exact hnew x (List.mem_cons_of_mem d hx) hmem
    · rw [List.mem_singleton.mp hmem] at hx
      exact (List.nodup_cons.mp (List.nodup_append.mp hn).2.1).1 hx

theorem Recorded.recordUnit (reparent : Bool) (hbase : base.Distinct) (h : Recorded base p done)
    (hnew : ∀ d ∈ done, d.unit ≠ id) :
    Recorded base (recordUnit reparent p id) (done ++ base.pendingOf id) := by
  have hpend := congrFun (pendingOf_congr h.skeleton) id
  unfold Program.recordUnit
  cases hu : p.unit? id with
  | none =>
    rw [pendingOf, hu] at hpend
    rw [← hpend]
    exact (List.append_nil done).symm ▸ h
  | some u =>
    rw [pendingOf_of_unit? hu] at hpend
    rw [← hpend]
    have hp : base.pendingOf id = [] ++ u.pending := hpend.symm
    refine h.foldl reparent hbase hp fun x hx hmem => hnew x hmem ?_
    exact hbase.unit id x (hpend ▸ hx)

theorem Recorded.recordUnits (reparent : Bool) (hbase : base.Distinct) {ids : List UnitId}
    (h : Recorded base p done) (hn : ids.Nodup) (hnew : ∀ d ∈ done, d.unit ∉ ids) :
    Recorded base (ids.foldl (Program.recordUnit reparent) p)
      (done ++ ids.flatMap base.pendingOf) := by
  induction ids generalizing p done with
  | nil => exact (List.append_nil done).symm ▸ h
  | cons id ids ih =>
    obtain ⟨hnot, hn⟩ := List.nodup_cons.mp hn
    rw [List.flatMap_cons, ← List.append_assoc]
    refine ih (h.recordUnit reparent hbase fun d hd he => ?_) hn fun d hd => ?_
    · exact hnew d hd (he ▸ List.mem_cons_self)
    · rcases List.mem_append.mp hd with hd | hd
      · exact fun hmem => hnew d hd (List.mem_cons_of_mem id hmem)
      · rw [hbase.unit id d hd]
        exact hnot

theorem recorded_bare (h : p.Bare) (hs : p.skeleton = base.skeleton) : Recorded base p [] := by
  refine ⟨hs, fun id u hu => ?_⟩
  rw [(h id u hu).2.2]
  exact (List.filterMap_eq_nil_iff.mpr fun _ _ => rfl).symm

theorem skeleton_clear (p : Program) (ids : List UnitId) :
    (ids.foldl clearNamespaces p).skeleton = p.skeleton := by
  induction ids generalizing p with
  | nil => rfl
  | cons id ids ih =>
    rw [List.foldl_cons, ih]
    exact skeleton_modifyUnit p id fun u => ⟨_, u.outline, rfl⟩

theorem recorded_refresh (changed : Option UnitId)
    (hunit : ∀ id u, p.unit? id = some u → u.id = id ∧ u.Sound)
    (hc : ∀ id, changed = some id → p.Cleared id) :
    Recorded p (p.refresh changed) ((p.others changed).flatMap p.pendingOf) := by
  have hstart := recorded_bare (bare_clear changed hunit hc) (skeleton_clear p _)
  exact hstart.recordUnits false (distinct hunit) (nodup_others hunit changed) nofun

theorem recorded_settle (hunit : ∀ id u, p.unit? id = some u → u.id = id ∧ u.Sound)
    (hc : p.Cleared id) :
    Recorded p (p.settle id) ((p.others (some id)).flatMap p.pendingOf ++ p.pendingOf id) := by
  have hrefresh := recorded_refresh (some id) hunit (by rintro _ ⟨⟩; exact hc)
  refine hrefresh.recordUnit true (distinct hunit) fun d hd he => ?_
  obtain ⟨id', hid', hd⟩ := List.mem_flatMap.mp hd
  rw [(distinct hunit).unit id' d hd] at he
  exact p.notMem_others id (he ▸ hid')

end Program

end SquirrelAnalyzer
