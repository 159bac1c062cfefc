import Mathlib.Data.List.Induction
import Mathlib.Data.List.Nodup
import Mathlib.Logic.Function.Basic
import SquirrelAnalyzer.Proofs.Update
import SquirrelAnalyzer.Proofs.Plain.Resolve

namespace SquirrelAnalyzer

abbrev Entries := Branch → Option NamespaceEntry

def Entries.upTo (f : Entries) (ds : List Branch) : Entries := fun d => if d ∈ ds then f d else none

def Entries.Named (f : Entries) : Prop := ∀ d e, f d = some e → e.declaration = d

theorem Entries.Named.find? {f : Entries} (h : f.Named) {ds : List Branch} {d : Branch}
    (hd : d ∈ ds) : (ds.filterMap f).find? (·.declaration = d) = f d := by
  induction ds with
  | nil => cases hd
  | cons x ds ih =>
    by_cases hx : x = d
    · subst hx
      cases he : f x with
      | some e => simp [he, h x e he]
      | none =>
        rw [List.filterMap_cons_none he, List.find?_eq_none]
        rintro e hmem hdecl
        obtain ⟨y, -, hy⟩ := List.mem_filterMap.mp hmem
        have hyx : y = x := (h y e hy).symm.trans (of_decide_eq_true hdecl)
        rw [hyx, he] at hy
        cases hy
    · have hd : d ∈ ds := (List.mem_cons.mp hd).resolve_left (Ne.symm hx)
      cases he : f x with
      | none => rw [List.filterMap_cons_none he, ih hd]
      | some e =>
        have hne : ¬ e.declaration = d := fun hdecl => hx ((h x e he).symm.trans hdecl)
        rw [List.filterMap_cons_some he, List.find?_cons_of_neg (by simpa using hne), ih hd]

theorem Entries.Named.filter {f : Entries} (h : f.Named) (ds pre : List Branch) :
    (ds.filterMap f).filter (·.declaration ∈ pre) = ds.filterMap (f.upTo pre) := by
  rw [List.filter_filterMap]
  apply List.filterMap_congr
  intro x _
  unfold upTo
  cases he : f x with
  | none => simp
  | some e => simp [Option.filter, h x e he]

def SourceUnit.recording (f : Entries) (u : SourceUnit) : SourceUnit :=
  { u with outline := [], namespaces := u.pending.filterMap f }

theorem SourceUnit.eq_of_recording {f : Entries} {u v : SourceUnit}
    (h : u.recording f = v.recording f) :
    u = { v with namespaces := u.namespaces, outline := u.outline } :=
  calc u = { u.recording f with namespaces := u.namespaces, outline := u.outline } := rfl
    _ = { v.recording f with namespaces := u.namespaces, outline := u.outline } := by rw [h]
    _ = { v with namespaces := u.namespaces, outline := u.outline } := rfl

namespace Program

def recording (f : Entries) (p : Program) : Program := p.mapUnits (SourceUnit.recording f)

def skeleton (p : Program) : Program := p.recording fun _ => none

def recordAll (p : Program) (ds : List Branch) : Entries :=
  ds.foldl (fun f d => Function.update f d ( Program.namespaceEntry? (p.recording f) d)) fun _ => none

variable {p p' : Program} {f g : Entries} {d : Branch} {id : UnitId} {u : SourceUnit}

theorem PlainOf.qualifiedParts? (h : p.PlainOf p') : p.qualifiedParts? = p'.qualifiedParts? := by
  funext d
  simp only [Program.qualifiedParts?, h.shape?]

theorem PlainOf.freshValue? (h : p.PlainOf p') : p.freshValue? = p'.freshValue? := by
  funext b
  simp only [Program.freshValue?, h.answer]

theorem PlainOf.namespaceEntry (h : p.PlainOf p') : p.namespaceEntry? = p'.namespaceEntry? := by
  funext d
  simp only [ Program.namespaceEntry?, h.unit, h.qualifiedParts?, h.freshValue?]
  cases p'.unit? d.unit <;> rfl

theorem declaration_of_namespaceEntry? {e : NamespaceEntry} (h : p.namespaceEntry? d = some e) :
    e.declaration = d := by
  simp only [ namespaceEntry?, Option.bind_eq_bind, Option.bind_eq_some_iff, Option.pure_def,
    Option.some.injEq] at h
  obtain ⟨-, -, -, -, -, -, -, -, -, -, rfl⟩ := h
  rfl

theorem mapUnits_mapUnits (f g : SourceUnit → SourceUnit) (p : Program) :
    (p.mapUnits g).mapUnits f = p.mapUnits (f ∘ g) := by
  simp only [mapUnits, Array.map_map, Option.map_comp_map]

theorem mapUnits_congr {f g : SourceUnit → SourceUnit}
    (h : ∀ id u, p.unit? id = some u → f u = g u) : p.mapUnits f = p.mapUnits g := by
  unfold mapUnits
  congr 1
  apply Array.map_congr_left
  intro o ho
  cases o with
  | none => rfl
  | some u =>
    obtain ⟨i, hi⟩ := Array.mem_iff_getElem?.mp ho
    have hu : p.unit? ⟨i⟩ = some u := by
      unfold unit?
      rw [hi]
      rfl
    exact congrArg some (h ⟨i⟩ u hu)

theorem recording_skeleton (f : Entries) (p : Program) : p.skeleton.recording f = p.recording f :=
  mapUnits_mapUnits _ _ p

theorem recording_congr_skeleton (h : p.skeleton = p'.skeleton) (f : Entries) :
    p.recording f = p'.recording f := by
  rw [← recording_skeleton, h, recording_skeleton]

theorem config_of_skeleton (h : p.skeleton = p'.skeleton) : p.config = p'.config :=
  (congrArg Program.config h :)

theorem imports_of_skeleton (h : p.skeleton = p'.skeleton) : p.imports = p'.imports :=
  (congrArg Program.imports h :)

theorem unit?_skeleton (p : Program) (id : UnitId) :
    p.skeleton.unit? id = (p.unit? id).map (SourceUnit.recording fun _ => none) :=
  p.unit?_mapUnits _ id

theorem unit?_of_skeleton (h : p.skeleton.unit? id = p'.skeleton.unit? id)
    (hu : p.unit? id = some u) :
    ∃ namespaces outline, p'.unit? id = some { u with namespaces, outline } := by
  rw [unit?_skeleton, unit?_skeleton, hu, Option.map_some] at h
  obtain ⟨u', hu', he⟩ := Option.map_eq_some_iff.mp h.symm
  rw [hu', SourceUnit.eq_of_recording he]
  exact ⟨_, _, rfl⟩

theorem PlainOf.recording (h : p.skeleton.PlainOf p'.skeleton) (f : Entries) :
    (p.recording f).PlainOf (p'.recording f) := by
  rw [← recording_skeleton, ← recording_skeleton f p']
  refine ⟨h.config, h.imports, fun id => ?_⟩
  rw [Program.recording, Program.recording, unit?_mapUnits, unit?_mapUnits, h.unit]
  cases p'.skeleton.unit? id <;> rfl

theorem plainOf_skeleton (h : p.skeleton = p'.skeleton) : p.skeleton.PlainOf p'.skeleton := by
  rw [h]
  refine ⟨rfl, rfl, fun id => ?_⟩
  rw [unit?_skeleton]
  cases p'.unit? id <;> rfl

theorem PlainOf.recordAll (h : p.skeleton.PlainOf p'.skeleton) : p.recordAll = p'.recordAll := by
  funext ds
  unfold Program.recordAll
  simp only [(PlainOf.recording h _).namespaceEntry]

theorem recordAll_congr (h : p.skeleton = p'.skeleton) : p.recordAll = p'.recordAll :=
  PlainOf.recordAll (plainOf_skeleton h)

@[simp] theorem recordAll_nil (p : Program) : p.recordAll [] = fun _ => none :=
  rfl

theorem recordAll_concat (p : Program) (ds : List Branch) (d : Branch) :
    p.recordAll (ds ++ [d]) = Function.update (p.recordAll ds) d
      ( Program.namespaceEntry? (p.recording (p.recordAll ds)) d) := by
  simp only [recordAll, List.foldl_append, List.foldl_cons, List.foldl_nil]

theorem recordAll_of_notMem {ds : List Branch} (h : d ∉ ds) : p.recordAll ds d = none := by
  induction ds using List.reverseRecOn with
  | nil => rw [recordAll_nil]
  | append_singleton ds x ih =>
    obtain ⟨hds, hx⟩ : d ∉ ds ∧ d ≠ x := by simpa using h
    rw [recordAll_concat, Function.update_of_ne hx, ih hds]

theorem named_recordAll (p : Program) (ds : List Branch) : (p.recordAll ds).Named := by
  induction ds using List.reverseRecOn with
  | nil => exact fun _ _ h => nomatch h
  | append_singleton ds x ih =>
    intro d e h
    rw [recordAll_concat] at h
    by_cases hd : d = x
    · subst hd
      rw [Function.update_self] at h
      exact declaration_of_namespaceEntry? h
    · rw [Function.update_of_ne hd] at h
      exact ih d e h

theorem recordAll_append {ds ds' : List Branch} (hn : (ds ++ ds').Nodup) :
    (p.recordAll (ds ++ ds')).upTo ds = p.recordAll ds := by
  funext d
  unfold Entries.upTo
  split
  · next hd =>
    induction ds' using List.reverseRecOn with
    | nil => rw [List.append_nil]
    | append_singleton ds' x ih =>
      rw [← List.append_assoc] at hn ⊢
      have hne : d ≠ x := by
        rintro rfl
        exact (List.nodup_append.mp hn).2.2 d (List.mem_append_left ds' hd) d (by simp) rfl
      rw [recordAll_concat, Function.update_of_ne hne]
      exact ih (List.nodup_append.mp hn).1
  · next hd => exact (recordAll_of_notMem hd).symm

theorem recordAll_cut {ds pre post : List Branch} (hn : ds.Nodup) (h : ds = pre ++ d :: post) :
    p.recordAll ds d =
      Program.namespaceEntry? (p.recording ((p.recordAll ds).upTo pre)) d := by
  subst h
  have hpre := recordAll_append (p := p) hn
  have happ : pre ++ d :: post = (pre ++ [d]) ++ post := List.append_cons pre d post
  have hfirst := congrFun (recordAll_append (p := p) (happ ▸ hn)) d
  rw [← happ] at hfirst
  simp only [Entries.upTo, List.mem_append, List.mem_singleton, or_true, if_true] at hfirst
  rw [hpre, hfirst, recordAll_concat, Function.update_self]

theorem eq_recordAll_iff {ds : List Branch} (hn : ds.Nodup) :
    (∀ d ∈ ds, f d = p.recordAll ds d) ↔
      ∀ pre d post, ds = pre ++ d :: post →
        Program.namespaceEntry? (p.recording (f.upTo pre)) d = f d := by
  have hcut {pre : List Branch} (h : ∀ d ∈ pre, f d = p.recordAll ds d) :
      f.upTo pre = (p.recordAll ds).upTo pre := by
    funext d
    unfold Entries.upTo
    split
    · next hd => exact h d hd
    · rfl
  constructor
  · intro h pre d post hds
    rw [hcut fun x hx => h x (by simp [hds, hx]), ← recordAll_cut hn hds]
    exact (h d (by simp [hds])).symm
  · intro h
    suffices hpre : ∀ pre post, ds = pre ++ post → ∀ d ∈ pre, f d = p.recordAll ds d from
      hpre ds [] (List.append_nil ds).symm
    intro pre
    induction pre using List.reverseRecOn with
    | nil => exact fun _ _ d hd => nomatch hd
    | append_singleton pre x ih =>
      intro post hds d hd
      rw [List.append_assoc, List.singleton_append] at hds
      have hbefore := ih (x :: post) hds
      rcases List.mem_append.mp hd with hd | hd
      · exact hbefore d hd
      · rw [List.mem_singleton.mp hd, recordAll_cut hn hds, ← hcut hbefore]
        exact (h pre x post hds).symm

end Program

end SquirrelAnalyzer
