import SquirrelAnalyzer.Proofs.Apart
import SquirrelAnalyzer.Proofs.Matches.Answer

namespace SquirrelAnalyzer

namespace Program

variable {p p' : Program} {id : UnitId}

structure Agree (p p' : Program) (id : UnitId) : Prop where
  config : p.config = p'.config
  unit : p.unit? id = p'.unit? id
  left : p.Apart
  right : p'.Apart

theorem flatMap_eq_of_mem {α β : Type} {xs : List α} {f : α → List β} {x : α} (hx : x ∈ xs)
    (hn : xs.Nodup) (h : ∀ y ∈ xs, y ≠ x → f y = []) : xs.flatMap f = f x := by
  obtain ⟨before, after, rfl⟩ := List.append_of_mem hx
  obtain ⟨-, hafter, hdisjoint⟩ := List.nodup_append.mp hn
  have hbefore : before.flatMap f = [] := List.flatMap_eq_nil_iff.mpr fun y hy =>
    h y (List.mem_append_left _ hy) (hdisjoint y hy x List.mem_cons_self)
  have hafter : after.flatMap f = [] := List.flatMap_eq_nil_iff.mpr fun y hy =>
    h y (List.mem_append_right _ (List.mem_cons_of_mem x hy)) fun he =>
      (List.nodup_cons.mp hafter).1 (he ▸ hy)
  rw [List.flatMap_append, List.flatMap_cons, hbefore, hafter, List.nil_append, List.append_nil]

theorem Apart.recordedMembers_eq (h : p.Apart) (owner : Branch) :
    p.recordedMembers owner = ((p.unit? owner.unit).map fun u =>
      (u.entriesOf owner.ref).map fun e => (e.name, memberBranch owner e)).getD [] := by
  have helsewhere {id : UnitId} {u : SourceUnit} (hu : p.unit? id = some u)
      (hne : id ≠ owner.unit) : u.entriesOf owner.ref = [] := by
    refine List.filter_eq_nil_iff.mpr fun e he howner => hne ?_
    have howner : e.owner = owner.ref := of_decide_eq_true howner
    have hunit := (h.entries id u hu e he).1
    rw [howner] at hunit
    exact hunit.symm
  unfold recordedMembers
  cases hu : p.unit? owner.unit with
  | none =>
    refine List.flatMap_eq_nil_iff.mpr fun u hmem => ?_
    obtain ⟨id, hid⟩ := mem_liveUnits.mp hmem
    have hne : id ≠ owner.unit := by
      rintro rfl
      rw [hu] at hid
      cases hid
    rw [helsewhere hid hne, List.map_nil]
  | some u =>
    have hnodup := (nodup_liveIds fun id u hu => (h.unit id u hu).1).of_map
    refine flatMap_eq_of_mem (mem_liveUnits.mpr ⟨_, hu⟩) hnodup fun v hmem hne => ?_
    obtain ⟨id, hid⟩ := mem_liveUnits.mp hmem
    have hne : id ≠ owner.unit := by
      rintro rfl
      exact hne (Option.some.inj (hid.symm.trans hu))
    rw [helsewhere hid hne, List.map_nil]

theorem Agree.matches (h : p.Agree p' id) : p.Matches p' (InUnit id) where
  config := h.config
  left := h.left.closed id
  right := h.right.closed id
  unit := by
    rintro b rfl
    unfold RespelledAt
    rw [← h.unit]
    cases hu : p.unit? b.unit with
    | none => exact .none
    | some u => exact .some (SourceUnit.respelled_self (h.left.unit _ u hu).2.rooted)
  kept := by
    rintro b rfl ⟨name, hs, hs'⟩
    rw [Program.shape?, h.unit, ← Program.shape?, hs'] at hs
    cases hs
  imported? := by
    funext unit name arity
    rw [h.left.imported?_eq_none, h.right.imported?_eq_none]
  aliased? := by
    funext name
    rw [h.left.aliased?_eq_none, h.right.aliased?_eq_none]
  ownMembers := by
    rintro b rfl
    rw [ownMembers, ownMembers, h.left.recordedMembers_eq, h.right.recordedMembers_eq, h.unit]

end Program

def Entries.Apart (f : Entries) : Prop :=
  ∀ d e, f d = some e → e.owner.unit = d.unit ∧ e.declaration = d

namespace Program

variable {p p' : Program} {id : UnitId} {f g : Entries} {d : Branch} {u : SourceUnit}

theorem Apart.namespaceEntry? (h : p.Apart) {e : NamespaceEntry}
    (he : p.namespaceEntry? d = some e) : e.owner.unit = d.unit ∧ e.declaration = d := by
  obtain ⟨b, hb, howner⟩ := Closed.namespaceEntry? (h.closed d.unit) rfl he
  exact ⟨howner ▸ hb, declaration_of_namespaceEntry? he⟩

theorem Separate.recording (h : p.Separate) (hf : f.Apart) : (p.recording f).Apart := by
  have hunit (id : UnitId) (u : SourceUnit) (hu : (p.recording f).unit? id = some u) :
      ∃ v, p.unit? id = some v ∧ v.recording f = u := by
    rw [Program.recording, unit?_mapUnits] at hu
    exact Option.map_eq_some_iff.mp hu
  refine ⟨⟨fun id u hu => ?_, h.imports, fun id u hu => ?_⟩, fun id u hu e he => ?_⟩
  · obtain ⟨v, hv, rfl⟩ := hunit id u hu
    obtain ⟨hid, hs⟩ := h.unit id v hv
    exact ⟨hid, hs.withNamespaces _ _⟩
  · obtain ⟨v, hv, rfl⟩ := hunit id u hu
    exact h.aliases id v hv
  · obtain ⟨v, hv, rfl⟩ := hunit id u hu
    obtain ⟨hid, hs⟩ := h.unit id v hv
    obtain ⟨d, hd, he⟩ := List.mem_filterMap.mp he
    obtain ⟨howner, hdecl⟩ := hf d e he
    have hd := (hs.unit_pending hd).trans hid
    exact ⟨howner.trans hd, hdecl ▸ hd⟩

theorem Separate.recordAll (h : p.Separate) (ds : List Branch) : (p.recordAll ds).Apart := by
  induction ds using List.reverseRecOn with
  | nil => exact fun _ _ h => nomatch h
  | append_singleton ds x ih =>
    intro d e he
    rw [recordAll_concat] at he
    by_cases hd : d = x
    · subst hd
      rw [Function.update_self] at he
      exact Apart.namespaceEntry? (h.recording ih) he
    · rw [Function.update_of_ne hd] at he
      exact ih d e he

structure Alike (p p' : Program) (id : UnitId) : Prop where
  config : p.config = p'.config
  unit : p.skeleton.unit? id = p'.skeleton.unit? id
  left : p.Separate
  right : p'.Separate

theorem Alike.recording (h : p.Alike p' id) (hf : f.Apart) (hg : g.Apart)
    (hfg : ∀ d, d.unit = id → f d = g d) : (p.recording f).Agree (p'.recording g) id where
  config := h.config
  unit := by
    rw [← recording_skeleton f p, ← recording_skeleton g p', Program.recording, Program.recording,
      unit?_mapUnits, unit?_mapUnits, h.unit, unit?_skeleton]
    cases hu : p'.unit? id with
    | none => rfl
    | some u =>
      obtain ⟨hid, hs⟩ := h.right.unit id u hu
      have hsame : u.pending.filterMap f = u.pending.filterMap g :=
        List.filterMap_congr fun d hd => hfg d ((hs.unit_pending hd).trans hid)
      simp only [Option.map_some, SourceUnit.recording, hsame]
  left := h.left.recording hf
  right := h.right.recording hg

theorem Alike.recordAll (h : p.Alike p' id) (ds : List Branch) :
    ∀ d, d.unit = id → p.recordAll ds d = p'.recordAll (ds.filter (·.unit = id)) d := by
  induction ds using List.reverseRecOn with
  | nil => simp
  | append_singleton ds x ih =>
    intro d hd
    rw [recordAll_concat, List.filter_append]
    by_cases hx : x.unit = id
    · rw [List.filter_cons_of_pos (by simpa using hx), List.filter_nil, recordAll_concat]
      by_cases hdx : d = x
      · subst hdx
        rw [Function.update_self, Function.update_self]
        exact Matches.namespaceEntry? (h.recording (h.left.recordAll _) (h.right.recordAll _) ih).matches hd
      · rw [Function.update_of_ne hdx, Function.update_of_ne hdx]
        exact ih d hd
    · have hdx : d ≠ x := by
        rintro rfl
        exact hx hd
      rw [List.filter_cons_of_neg (by simpa using hx), List.filter_nil, List.append_nil,
        Function.update_of_ne hdx]
      exact ih d hd

theorem filter_orderOf (hunit : ∀ id u, p.unit? id = some u → u.id = id ∧ u.Sound)
    (hu : p.unit? id = some u) (changed : Option UnitId) :
    (p.orderOf changed).filter (·.unit = id) = u.pending := by
  have hown (id' : UnitId) : ∀ d ∈ p.pendingOf id', d.unit = id' := (distinct hunit).unit id'
  unfold orderOf
  rw [List.filter_flatMap]
  rw [flatMap_eq_of_mem (mem_orderIds hunit hu) (nodup_orderIds hunit changed)]
  · rw [List.filter_eq_self.mpr fun d hd => decide_eq_true (hown id d hd), pendingOf_of_unit? hu]
  · intro id' _ hne
    refine List.filter_eq_nil_iff.mpr fun d hd he => hne ?_
    exact (hown id' d hd).symm.trans (of_decide_eq_true he)

def Refreshed (p : Program) : Prop := ∃ changed, p.Records (p.recordAll (p.orderOf changed))

theorem Refreshed.apart (hr : p.Refreshed) (h : p.Separate) : p.Apart := by
  refine ⟨h, fun id u hu e he => ?_⟩
  obtain ⟨changed, hrec⟩ := hr
  rw [hrec id u hu] at he
  obtain ⟨d, hd, he⟩ := List.mem_filterMap.mp he
  obtain ⟨howner, hdecl⟩ := h.recordAll _ d e he
  obtain ⟨hid, hs⟩ := h.unit id u hu
  have hd := (hs.unit_pending hd).trans hid
  exact ⟨howner.trans hd, hdecl ▸ hd⟩

theorem Refreshed.namespaces (hr : p.Refreshed) (h : p.Separate) (hu : p.unit? id = some u) :
    u.namespaces = u.pending.filterMap (p.recordAll u.pending) := by
  obtain ⟨changed, hrec⟩ := hr
  obtain ⟨hid, hs⟩ := h.unit id u hu
  rw [hrec id u hu]
  refine List.filterMap_congr fun d hd => ?_
  have hself : p.Alike p id := ⟨rfl, rfl, h, h⟩
  rw [hself.recordAll _ d ((hs.unit_pending hd).trans hid), filter_orderOf h.unit hu]

theorem Alike.unit? (h : p.Alike p' id) (hr : p.Refreshed) (hr' : p'.Refreshed)
    (ho : p.outline? id = p'.outline? id) : p.unit? id = p'.unit? id := by
  unfold outline? at ho
  cases hu : p.unit? id with
  | none =>
    have hskel := h.unit
    rw [unit?_skeleton, unit?_skeleton, hu] at hskel
    exact (Option.map_eq_none_iff.mp hskel.symm).symm
  | some u =>
    obtain ⟨namespaces, outline, hu'⟩ := unit?_of_skeleton h.unit hu
    obtain ⟨hid, hs⟩ := h.left.unit id u hu
    have hin : ∀ d ∈ u.pending, d.unit = id := fun d hd => (hs.unit_pending hd).trans hid
    have hnamespaces : namespaces = u.namespaces := by
      have hown : namespaces = u.pending.filterMap (p'.recordAll u.pending) :=
        hr'.namespaces h.right hu'
      rw [hown, hr.namespaces h.left hu]
      refine List.filterMap_congr fun d hd => ?_
      rw [h.recordAll _ d (hin d hd), List.filter_eq_self.mpr fun x hx => decide_eq_true (hin x hx)]
    have houtline : u.outline = outline := by
      rw [hu, hu'] at ho
      exact Option.some.inj ho
    rw [hu', hnamespaces, ← houtline]

end Program

end SquirrelAnalyzer
