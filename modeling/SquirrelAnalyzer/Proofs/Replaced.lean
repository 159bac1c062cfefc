import SquirrelAnalyzer.Proofs.InOrder
import SquirrelAnalyzer.Proofs.Reachable

namespace SquirrelAnalyzer

namespace Program

variable {p p' : Program} {f f' : Entries} {d : Branch} {id : UnitId} {u : SourceUnit}

def entryOf? (p : Program) (d : Branch) : Option NamespaceEntry :=
  (p.unit? d.unit).bind fun u => u.namespaces.find? (·.declaration = d)

def showing (p : Program) (ds : List Branch) : Program :=
  p.mapUnits fun u => { u with namespaces := u.namespaces.filter (·.declaration ∈ ds) }

def Stable (p : Program) (order : List Branch) : Prop :=
  ∀ pre d post, order = pre ++ d :: post → Program.namespaceEntry? (p.showing pre) d = p.entryOf? d

def SameEntries (p p' : Program) : Prop :=
  ∀ id, (p.unit? id).map (·.namespaces) = (p'.unit? id).map (·.namespaces)

theorem Records.entryOf?_eq (hp : p.Sound) (h : p.Records f) (hf : f.Named)
    (hu : p.unit? id = some u) (hd : d ∈ u.pending) : p.entryOf? d = f d := by
  obtain ⟨hid, hs⟩ := hp.unit id u hu
  have hunit : d.unit = id := (hs.unit_pending hd).trans hid
  rw [entryOf?, hunit, hu, Option.bind_some, h id u hu, hf.find? hd]

theorem Records.plain_showing (h : p.Records f) (hf : f.Named) (pre : List Branch) :
    (p.showing pre).plain = p.recording (f.upTo pre) := by
  unfold plain showing recording
  rw [mapUnits_mapUnits]
  apply mapUnits_congr
  intro id u hu
  rw [SourceUnit.recording, ← hf.filter, ← h id u hu]
  rfl

theorem stable_iff (hp : p.Sound) (h : p.Records f) (hf : f.Named) (changed : Option UnitId) :
    p.Stable (p.orderOf changed) ↔
      ∀ d ∈ p.orderOf changed, f d = p.recordAll (p.orderOf changed) d := by
  have hentry {d : Branch} (hd : d ∈ p.orderOf changed) : p.entryOf? d = f d := by
    obtain ⟨id, u, hu, hd⟩ := exists_unit_of_mem hd
    exact h.entryOf?_eq hp hf hu hd
  rw [eq_recordAll_iff (nodup_orderOf hp.unit changed)]
  unfold Stable
  constructor
  · intro hs pre d post ho
    rw [← h.plain_showing hf pre, (plainOf_plain _).namespaceEntry, hs pre d post ho]
    exact hentry (ho ▸ by simp)
  · intro hs pre d post ho
    rw [← (plainOf_plain _).namespaceEntry, h.plain_showing hf pre, hs pre d post ho]
    exact (hentry (ho ▸ by simp)).symm

theorem InOrder.stable (hp : p.Sound) (h : p.InOrder) (hid : p.pendingOf id = []) :
    p.Stable (p.orderOf (some id)) := by
  have ho : p.orderOf (some id) = p.orderOf none := by
    unfold orderOf
    rw [others_none, List.flatMap_append, List.flatMap_append]
    have hnone : (some id).toList.flatMap p.pendingOf = [] := by simp [hid]
    rw [hnone]
    congr 1
    unfold others
    generalize p.liveUnits.map (·.id) = ids
    induction ids with
    | nil => rfl
    | cons x ids ih =>
      by_cases hx : x = id
      · subst hx
        simpa [hid] using ih
      · simpa [hx] using ih
  rw [stable_iff hp h (p.named_recordAll _) (some id), ho]
  exact fun d _ => rfl

theorem sameEntries_iff (hs : p.skeleton = p'.skeleton) (h : p.Records f) (h' : p'.Records f')
    (hf : f.Named) (hf' : f'.Named) :
    p.SameEntries p' ↔ ∀ id u, p.unit? id = some u → ∀ d ∈ u.pending, f d = f' d := by
  constructor
  · intro hsame id u hu d hd
    obtain ⟨namespaces, outline, hu'⟩ := unit?_of_skeleton (congrArg (·.unit? id) hs) hu
    have he := hsame id
    rw [hu, hu', Option.map_some, Option.map_some, h id u hu, h' id _ hu'] at he
    rw [← hf.find? hd, Option.some.inj he, hf'.find? hd]
  · intro hagree id
    cases hu : p.unit? id with
    | none =>
      cases hu' : p'.unit? id with
      | none => rfl
      | some u' =>
        obtain ⟨namespaces, outline, hu₀⟩ := unit?_of_skeleton (congrArg (·.unit? id) hs.symm) hu'
        rw [hu] at hu₀
        cases hu₀
    | some u =>
      obtain ⟨namespaces, outline, hu'⟩ := unit?_of_skeleton (congrArg (·.unit? id) hs) hu
      rw [hu', Option.map_some, Option.map_some, h id u hu, h' id _ hu']
      exact congrArg some (List.filterMap_congr (hagree id u hu))

theorem SameEntries.plain_eq (hs : p.skeleton = p'.skeleton) (h : p.Records f)
    (h' : p'.Records f') (hf : f.Named) (hf' : f'.Named) (hsame : p.SameEntries p') :
    p.plain = p'.plain := by
  rw [h.plain_eq, h'.plain_eq, ← recording_congr_skeleton hs]
  apply mapUnits_congr
  intro id u hu
  have hagree := (sameEntries_iff hs h h' hf hf').mp hsame id u hu
  rw [SourceUnit.recording, SourceUnit.recording, List.filterMap_congr hagree]

theorem records_replaceUnit (hp : p.Sound) (hid : (p.unit? id).isSome) {a : Arena}
    (ha : a.Parsed) (hs : (p.rebuildUnit id a).skeleton = p.skeleton) :
    (p.replaceUnit id a).skeleton = p.skeleton ∧
      (p.replaceUnit id a).Records (p.recordAll (p.orderOf (some id))) := by
  have hr := recorded_settle (p := p.rebuildUnit id a) (fun _ _ => built_rebuildUnit hp.unit id ha)
    (cleared_rebuildUnit hid a)
  have horder : ((p.rebuildUnit id a).others (some id)).flatMap (p.rebuildUnit id a).pendingOf ++
      (p.rebuildUnit id a).pendingOf id = p.orderOf (some id) := by
    rw [← orderOf_congr hs]
    simp [orderOf]
  rw [horder] at hr
  refine ⟨hr.skeleton.trans hs, ?_⟩
  rw [← recordAll_congr hs]
  exact hr.records

theorem sameEntries_replaceUnit_iff (hp : p.Sound) (ho : p.InOrder) (hid : (p.unit? id).isSome)
    {a : Arena} (ha : a.Parsed) (hs : (p.rebuildUnit id a).skeleton = p.skeleton) :
    (p.replaceUnit id a).SameEntries p ↔ p.Stable (p.orderOf (some id)) := by
  obtain ⟨hskel, hrec⟩ := records_replaceUnit hp hid ha hs
  have hnamed := p.named_recordAll
  rw [stable_iff hp ho (hnamed _), sameEntries_iff hskel hrec ho (hnamed _) (hnamed _)]
  constructor
  · intro h d hd
    obtain ⟨i, u, hu, hd⟩ := exists_unit_of_mem hd
    obtain ⟨_, _, hu'⟩ := unit?_of_skeleton (congrArg (·.unit? i) hskel.symm) hu
    exact (h i _ hu' d hd).symm
  · intro h i u' hu' d hd
    obtain ⟨_, _, hu⟩ := unit?_of_skeleton (congrArg (·.unit? i) hskel) hu'
    exact (h d (mem_orderOf hp.unit hu hd)).symm

end Program

end SquirrelAnalyzer
