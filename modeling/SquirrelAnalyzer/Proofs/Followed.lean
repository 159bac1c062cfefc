import SquirrelAnalyzer.Proofs.Edited
import SquirrelAnalyzer.Proofs.Outline
import SquirrelAnalyzer.Proofs.OwnSource

namespace SquirrelAnalyzer

namespace Program

def OutlineFollows (p : Program) (id : UnitId) (built : Outline) : Prop :=
  ∀ u, p.unit? id = some u → u.outline = built.follow id u.namespaces

variable {p base : Program} {id : UnitId} {built : Outline} {e : Edit} {arena : Arena}
  {config : Config}

theorem OutlineFollows.declaration (h : p.OutlineFollows id built) (id' : UnitId) (d : Branch) :
    (recordDeclaration true id' p d).OutlineFollows id built := by
  unfold recordDeclaration
  split
  · exact h
  · next e he =>
    have hd := declaration_of_namespaceEntry? he
    intro u hu
    rw [recordEntry, unit?_modifyUnit] at hu
    split at hu
    · next hid =>
      obtain ⟨v, hv, rfl⟩ := Option.map_eq_some_iff.mp hu
      rw [Outline.follow_append, ← h v hv, hid, ← hd]
      -- an owner in another unit moves nothing, here as in the fold
      by_cases ho : e.owner.unit = id' <;> simp [ho, Outline.follow]
    · exact h u hu

theorem OutlineFollows.recordUnit (h : p.OutlineFollows id built) (id' : UnitId) :
    (recordUnit true p id').OutlineFollows id built := by
  unfold Program.recordUnit
  split
  · exact h
  · exact List.foldlRecOn _ _ (motive := fun q : Program => q.OutlineFollows id built) h
      fun q hq d _ => hq.declaration id' d

theorem outlineFollows_of_build (hu : p.unit? id = some (SourceUnit.build config id arena)) :
    p.OutlineFollows id (SourceUnit.build config id arena).outline := by
  intro u hv
  obtain rfl := Option.some.inj (hu.symm.trans hv)
  rw [SourceUnit.namespaces_build]
  rfl

theorem Edited.follows_settle (h : p.Edited e base) (hp : p.Sound) (hc : e.changed? p = some id)
    (hu : base.unit? id = some (SourceUnit.build config id arena)) :
    (base.settle id).OutlineFollows id (SourceUnit.build config id arena).outline := by
  obtain ⟨-, hsame⟩ := sound_refresh (some id) (h.unit hp) (by
    rintro _ ⟨⟩
    exact h.cleared hc)
  exact (outlineFollows_of_build ((hsame id rfl).trans hu)).recordUnit id

theorem OutlineFollows.exists_unit (h : p.OutlineFollows id built) (hs : p.skeleton = base.skeleton)
    {u : SourceUnit} (hu : base.unit? id = some u) : ∃ namespaces,
      p.unit? id = some { u with namespaces, outline := built.follow id namespaces } := by
  obtain ⟨namespaces, outline, hv⟩ := unit?_of_skeleton (congrArg (·.unit? id) hs.symm) hu
  obtain rfl : outline = built.follow id namespaces := h _ hv
  exact ⟨namespaces, hv⟩

theorem config_pushUnits (p : Program) (arenas : List Arena) :
    (arenas.foldl pushUnit p).config = p.config := by
  induction arenas generalizing p with
  | nil => rfl
  | cons a arenas ih => exact ih (p.pushUnit a)

theorem unit?_pushUnits (p : Program) (arenas : List Arena) {id : UnitId}
    (h : id.index < p.units.size) : (arenas.foldl pushUnit p).unit? id = p.unit? id := by
  induction arenas generalizing p with
  | nil => rfl
  | cons a arenas ih =>
    have hsize : (p.pushUnit a).units.size = p.units.size + 1 := Array.size_push _
    rw [List.foldl_cons, ih _ (by omega), unit?_pushUnit, if_neg]
    rintro rfl
    exact Nat.lt_irrefl _ h

theorem exists_build_pushUnits (p : Program) {sources : List String} {arenas : List Arena}
    (h : sources.mapM Analysis.parseArena = .ok arenas) {i : Nat} {source : String}
    (hs : sources[i]? = some source) : ∃ arena, Analysis.parseArena source = .ok arena ∧
      (arenas.foldl pushUnit p).unit? ⟨p.units.size + i⟩ =
        some (SourceUnit.build p.config ⟨p.units.size + i⟩ arena) := by
  induction sources generalizing p arenas i with
  | nil => cases hs
  | cons s sources ih =>
    obtain ⟨arena, rest, ha, hrest, rfl⟩ := Analysis.of_mapM_cons h
    have hsize : (p.pushUnit arena).units.size = p.units.size + 1 := Array.size_push _
    cases i with
    | zero =>
      cases hs
      refine ⟨arena, ha, ?_⟩
      rw [List.foldl_cons, unit?_pushUnits _ rest (by rw [hsize]; exact Nat.lt_succ_self _)]
      exact (p.unit?_pushUnit arena p.nextId).trans (if_pos rfl)
    | succ i =>
      have hlater := ih (p.pushUnit arena) hrest hs
      rw [hsize, Nat.add_assoc, Nat.add_comm 1 i] at hlater
      exact hlater

theorem outlineFollows_ofArenas (config : Config) (imports : Imports) {sources : List String}
    {arenas : List Arena} (h : sources.mapM Analysis.parseArena = .ok arenas) {source : String}
    (hs : sources[id.index]? = some source) : ∃ arena, Analysis.parseArena source = .ok arena ∧
      (arenas.foldl pushUnit { config, imports }).unit? id =
        some (SourceUnit.build config id arena) ∧
      (ofArenas config imports arenas).OutlineFollows id
        (SourceUnit.build config id arena).outline := by
  obtain ⟨arena, ha, hu⟩ := exists_build_pushUnits { config, imports } h hs
  have hid : (⟨({ config, imports } : Program).units.size + id.index⟩ : UnitId) = id :=
    congrArg UnitId.mk (Nat.zero_add _)
  rw [hid] at hu
  refine ⟨arena, ha, hu, ?_⟩
  exact List.foldlRecOn _ _ (motive := fun q : Program => q.OutlineFollows id _)
    (outlineFollows_of_build hu) fun q hq id' _ => hq.recordUnit id'

end Program

namespace Analysis

/-- The analyses in which a unit was built last of all, from a source. -/
inductive Builds (id : UnitId) (source : String) : Analysis → Prop
  | ofSources {config : Config} {imports : Imports} {sources : List String} {a : Analysis}
      (h : ofSources config imports sources = .ok a) (hs : sources[id.index]? = some source) :
      Builds id source a
  | edit {a a' : Analysis} (h : a.Reachable fun _ _ => True) {e : Edit} (he : e.apply a = .ok a')
      (hc : e.changed? a.program = some id) (hs : e.source? = some source) : Builds id source a'

/-- What an analysis leads to by edits of other units or of the imports, and by questions. -/
inductive Since (id : UnitId) (a : Analysis) : Analysis → Prop
  | refl : Since id a a
  | edit {b b' : Analysis} (h : Since id a b) {e : Edit} (he : e.apply b = .ok b')
      (hc : e.changed? b.program ≠ some id) : Since id a b'
  | ask {b : Analysis} (h : Since id a b) (q : Question) : Since id a (q.ask.run b).2

variable {a b : Analysis} {id : UnitId} {source : String} {u : SourceUnit}

theorem Builds.reachable (h : b.Builds id source) : b.Reachable fun _ _ => True := by
  cases h with
  | ofSources h hs => exact .ofSources h
  | edit h he hc hs => exact h.edit he

theorem Since.reachable (h : Since id b a) (hb : b.Reachable fun _ _ => True) :
    a.Reachable fun _ _ => True := by
  induction h with
  | refl => exact hb
  | edit h he hc ih => exact ih.edit he
  | ask h q ih => exact ih.ask trivial

theorem Since.kept (h : Since id b a) (hb : b.Reachable fun _ _ => True) :
    a.program.config = b.program.config ∧
      a.program.skeleton.unit? id = b.program.skeleton.unit? id := by
  induction h with
  | refl => exact ⟨rfl, rfl⟩
  | @edit c c' h e he hc ih =>
    have hreach := h.reachable hb
    obtain ⟨base, hbase, hrec, -⟩ := Program.recorded_apply hreach.sound hreach.within he
    refine ⟨(Program.config_of_skeleton hrec.skeleton).trans (hbase.config.trans ih.1), ?_⟩
    rw [hrec.skeleton, Program.unit?_skeleton, hbase.kept id hc, ← Program.unit?_skeleton, ih.2]
  | @ask c h q ih => rw [program_ask, ih.1, ih.2]; exact ⟨rfl, rfl⟩

theorem Since.outline (h : Since id b a) (hb : b.Reachable fun _ _ => True) :
    a.program.outline? id = b.program.outline? id := by
  induction h with
  | refl => rfl
  | @edit c c' h e he hc ih =>
    have hreach := h.reachable hb
    obtain ⟨base, hbase, -, houtline⟩ := Program.recorded_apply hreach.sound hreach.within he
    rw [houtline id hc, Program.outline?, hbase.kept id hc, ← ih, Program.outline?]
  | @ask c h q ih => rw [program_ask, ih]

theorem Builds.exists_unit (h : b.Builds id source) : ∃ arena namespaces,
    parseArena source = .ok arena ∧
    b.unit? id = some
      { SourceUnit.build b.program.config id arena with
        namespaces
        outline := (SourceUnit.build b.program.config id arena).outline.follow id namespaces } := by
  cases h with
  | @ofSources config imports sources _ h hs =>
    obtain ⟨arenas, harenas, rfl⟩ := of_ofSources h
    have hr := Program.recorded_ofArenas config imports (parsed_of_mapM harenas)
    obtain ⟨arena, ha, hu, hfollows⟩ := Program.outlineFollows_ofArenas config imports harenas hs
    obtain ⟨namespaces, hv⟩ := hfollows.exists_unit hr.skeleton hu
    have hconfig : (Program.ofArenas config imports arenas).config = config :=
      (Program.config_of_skeleton hr.skeleton).trans (Program.config_pushUnits _ arenas)
    refine ⟨arena, namespaces, ha, ?_⟩
    rw [ofProgram, hconfig]
    exact hv
  | @edit a a' h e he hc hs =>
    obtain ⟨base, hbase, ⟨id', source', hc', hs', hsettle⟩ | ⟨hs', -⟩⟩ :=
      Program.apply_cases h.within he
    · obtain rfl := Option.some.inj (hc.symm.trans hc')
      obtain ⟨arena, ha, hu⟩ := hbase.exists_build hc hs
      have hskel := (hbase.recorded_settle h.sound hc).skeleton
      obtain ⟨namespaces, hv⟩ := (hbase.follows_settle h.sound hc hu).exists_unit hskel hu
      have hconfig : (base.settle id).config = a.program.config :=
        (Program.config_of_skeleton hskel).trans hbase.config
      rw [Analysis.unit?, hsettle, hconfig]
      exact ⟨arena, namespaces, ha, hv⟩
    · rw [hs] at hs'
      cases hs'

theorem Builds.follows (h : b.Builds id source) : ∃ arena v, parseArena source = .ok arena ∧
    b.unit? id = some v ∧
    v.outline = (SourceUnit.build b.program.config id arena).outline.follow id v.namespaces := by
  obtain ⟨arena, namespaces, ha, hu⟩ := h.exists_unit
  exact ⟨arena, _, ha, hu, rfl⟩

theorem exists_builds (h : a.Reachable fun _ _ => True) (hu : a.unit? id = some u) :
    ∃ source b, b.Builds id source ∧ Since id b a := by
  induction h generalizing u with
  | ofConfig config =>
    simp [Analysis.ofConfig, Analysis.unit?, Program.unit?] at hu
  | @ofSources config imports sources a h =>
    have hlt := Program.lt_size_of_unit? (Option.isSome_iff_exists.mpr ⟨u, hu⟩)
    rw [(Built.ofSources h).program.2.2.size] at hlt
    exact ⟨_, a, .ofSources h (List.getElem?_eq_getElem hlt), .refl⟩
  | @edit a a' h e he ih =>
    obtain ⟨base, hbase, hrec, -⟩ := Program.recorded_apply h.sound h.within he
    obtain ⟨_, _, hv⟩ := Program.unit?_of_skeleton (congrArg (·.unit? id) hrec.skeleton) hu
    by_cases hc : e.changed? a.program = some id
    · have hloaded := hbase.loaded id hc
      rw [hv, Option.isSome_some] at hloaded
      obtain ⟨source, hs⟩ := Option.isSome_iff_exists.mp hloaded.symm
      exact ⟨source, a', .edit h he hc hs, .refl⟩
    · rw [hbase.kept id hc] at hv
      obtain ⟨source, b, hb, hsince⟩ := ih hv
      exact ⟨source, b, hb, hsince.edit he hc⟩
  | @ask a h q hq ih =>
    rw [Analysis.unit?, program_ask] at hu
    obtain ⟨source, b, hb, hsince⟩ := ih hu
    exact ⟨source, b, hb, hsince.ask q⟩

theorem Builds.eq_build (h : b.Builds id source) (hsince : Since id b a)
    (hu : a.unit? id = some u) : ∃ arena, parseArena source = .ok arena ∧
      ∃ namespaces entries, u =
        { SourceUnit.build a.program.config id arena with
          namespaces
          outline := (SourceUnit.build a.program.config id arena).outline.follow id entries } := by
  obtain ⟨arena, entries, ha, hv⟩ := h.exists_unit
  obtain ⟨hconfig, hskeleton⟩ := hsince.kept h.reachable
  have houtline := hsince.outline h.reachable
  have hu : a.program.unit? id = some u := hu
  have hv : b.program.unit? id = _ := hv
  rw [Program.unit?_skeleton, Program.unit?_skeleton, hu, hv] at hskeleton
  rw [Program.outline?, Program.outline?, hu, hv] at houtline
  refine ⟨arena, ha, u.namespaces, entries, ?_⟩
  rw [hconfig]
  calc u = _ := SourceUnit.eq_of_recording (Option.some.inj hskeleton)
    _ = _ := by rw [show u.outline = _ from Option.some.inj houtline]

theorem Reachable.exists_followed {asked : Program → Branch → Prop} (h : a.Reachable asked)
    (hu : a.unit? id = some u) : ∃ source arena, parseArena source = .ok arena ∧
      ∃ namespaces entries, u =
        { SourceUnit.build a.program.config id arena with
          namespaces
          outline := (SourceUnit.build a.program.config id arena).outline.follow id entries } := by
  obtain ⟨source, b, hb, hsince⟩ := exists_builds (h.mono fun _ _ _ => trivial) hu
  exact ⟨source, hb.eq_build hsince hu⟩

end Analysis

namespace Outline

/-- An outline has followed the entries of a unit. A declaration recorded under an owner of the same
unit is under it, if the owner had a symbol outside what moved then. A declaration without an owner
in the unit is where it was built. -/
structure Followed (id : UnitId) (u : SourceUnit) (built o : Outline) : Prop where
  nodup : o.nodes.Nodup
  moved : ∀ pre e post, u.namespaces = pre ++ e :: post → e.owner.unit = id →
    ∀ t ∈ trees (built.follow id pre), t.symbol.node = e.declaration.target →
    ∀ w ∈ preorder (built.follow id pre), w.describes e.owner.node = true → w ∉ preorder [t] →
    ∃ v, v.describes e.owner.node = true ∧ (some v, t.symbol) ∈ o.edges
  kept : ∀ d ∈ u.pending, (∀ e ∈ u.namespaces, e.declaration = d → e.owner.unit ≠ id) →
    ∀ p s, s.node = d.target → ((p, s) ∈ o.edges ↔ (p, s) ∈ built.edges)

theorem followed_follow {id : UnitId} {u : SourceUnit} {built : Outline} (hn : built.nodes.Nodup)
    (hpending : (u.pending.map (·.target)).Nodup)
    (hsub : (u.namespaces.map (·.declaration)).Sublist u.pending) :
    Followed id u built (built.follow id u.namespaces) where
  nodup := (nodes_follow id u.namespaces built).nodup_iff.mpr hn
  moved pre e post hentries hid t ht hnode w hw howner hout := by
    -- a declaration is recorded once at most, so no later entry moves it again
    have htargets := (hsub.map (·.target)).nodup hpending
    rw [hentries, List.map_map, List.map_append, List.map_cons] at htargets
    have hlast := (List.nodup_cons.mp (List.nodup_append.mp htargets).2.1).1
    rw [hentries]
    refine exists_edge_follow hn hid (fun e' he' heq => hlast ?_) ht hnode hw howner hout
    exact List.mem_map.mpr ⟨e', he', heq⟩
  kept d hd hnone p s hs := by
    refine mem_edges_follow fun e he hid heq => ?_
    have hmem := hsub.subset (List.mem_map_of_mem he)
    have hdecl := List.inj_on_of_nodup_map hpending hmem hd (heq.symm.trans hs)
    exact hnone e he hdecl hid

end Outline

namespace Analysis

variable {a : Analysis} {id : UnitId} {u : SourceUnit}

/-- The outline of a unit is the one its last build left, and in that build its declarations
followed their owners. -/
theorem outline_followed (h : a.Reachable fun _ _ => True) (hu : a.unit? id = some u) :
    (∃ source b, b.Builds id source ∧ Since id b a) ∧
    ∀ source b, b.Builds id source → Since id b a → ∃ arena v,
      parseArena source = .ok arena ∧ b.unit? id = some v ∧ u.outline = v.outline ∧
      Outline.Followed id v (SourceUnit.build b.program.config id arena).outline u.outline := by
  refine ⟨exists_builds h hu, fun source b hb hsince => ?_⟩
  obtain ⟨arena, v, ha, hv, hfollow⟩ := hb.follows
  have hsame : u.outline = v.outline := by
    have houtline := hsince.outline hb.reachable
    rw [Program.outline?, Program.outline?] at houtline
    exact Option.some.inj ((congrArg (Option.map _) hu).symm.trans
      (houtline.trans (congrArg (Option.map _) hv)))
  have hsound := hb.reachable.sound
  refine ⟨arena, v, ha, hv, hsame, ?_⟩
  rw [hsame, hfollow]
  exact Outline.followed_follow (SourceUnit.outlined_build _ id (parsed_parseArena ha)).1
    (hsound.unit id v hv).2.nodup (hsound.recorded id v hv)

theorem outline_followed_new_imports : ∃ a u e s w,
    ofSources {} Imports.none
      ["class A {} function A::f() {} function B::g() {}", "local B = A;"] = .ok a ∧
    (a.unit? ⟨0⟩).map (·.namespaces) = some [e] ∧
    (a.setImports (Imports.ofList [(⟨0⟩, ⟨1⟩), (⟨1⟩, ⟨0⟩)])).unit? ⟨0⟩ = some u ∧
    u.namespaces.length = 2 ∧ s.name = "f" ∧ w.describes e.owner.node = true ∧
    (some w, s) ∈ Outline.edges u.outline := by
  have hbuilt : (ofSources {} Imports.none
      ["class A {} function A::f() {} function B::g() {}", "local B = A;"]).toOption.any (fun a =>
      (parseArena "class A {} function A::f() {} function B::g() {}").toOption.any fun arena =>
      (a.unit? ⟨0⟩).any fun v =>
      ((a.setImports (Imports.ofList [(⟨0⟩, ⟨1⟩), (⟨1⟩, ⟨0⟩)])).unit? ⟨0⟩).any fun u =>
      v.namespaces.any fun e =>
      (Outline.trees (SourceUnit.build {} ⟨0⟩ arena).outline).any fun t =>
      (Outline.edges (SourceUnit.build {} ⟨0⟩ arena).outline).any fun x => decide (
        a.program.config = {} ∧ v.namespaces = [e] ∧ e.owner.unit = ⟨0⟩ ∧ u.namespaces.length = 2 ∧
        t.symbol.name = "f" ∧ t.symbol.node = e.declaration.target ∧
        x.2.describes e.owner.node = true ∧
        x.2 ∉ (Outline.edges [t]).map Prod.snd)) = true := by decide +kernel
  obtain ⟨a, ha, h⟩ := exists_ok hbuilt
  obtain ⟨arena, harena, h⟩ := exists_ok h
  obtain ⟨v, hv, h⟩ := (Option.any_eq_true _ _).mp h
  obtain ⟨u, hu, h⟩ := (Option.any_eq_true _ _).mp h
  obtain ⟨e, he, h⟩ := List.any_eq_true.mp h
  obtain ⟨t, ht, h⟩ := List.any_eq_true.mp h
  obtain ⟨x, hx, h⟩ := List.any_eq_true.mp h
  obtain ⟨hconfig, hentries, howner, hn, hname, hnode, hdescribes, hout⟩ := of_decide_eq_true h
  have hreach : a.Reachable fun _ _ => True := .ofSources ha
  obtain ⟨-, hall⟩ := outline_followed
    (hreach.edit (e := .setImports (Imports.ofList [(⟨0⟩, ⟨1⟩), (⟨1⟩, ⟨0⟩)])) rfl) hu
  obtain ⟨arena', v', harena', hv', -, hfollowed⟩ := hall _ a (.ofSources ha rfl)
    (Since.refl.edit (e := .setImports (Imports.ofList [(⟨0⟩, ⟨1⟩), (⟨1⟩, ⟨0⟩)])) rfl nofun)
  obtain rfl := Except.ok.inj (harena.symm.trans harena')
  obtain rfl := Option.some.inj (hv.symm.trans hv')
  rw [hconfig] at hfollowed
  obtain ⟨w, hw, hedge⟩ := hfollowed.moved [] e [] hentries howner t ht hnode x.2
    (Outline.snd_edgesUnder none _ ▸ List.mem_map_of_mem hx) hdescribes
    (Outline.snd_edgesUnder none _ ▸ hout)
  exact ⟨a, u, e, t.symbol, w, ha, by rw [hv, Option.map_some, hentries], hu, hn, hname, hw, hedge⟩

theorem outline_left_behind : ∃ a u e t w,
    ofSources {} Imports.none ["class A {} function B::f() {}", "local B = A;"] = .ok a ∧
    (a.setImports (Imports.ofList [(⟨0⟩, ⟨1⟩), (⟨1⟩, ⟨0⟩)])).unit? ⟨0⟩ = some u ∧
    e ∈ u.namespaces ∧ e.owner.unit = ⟨0⟩ ∧ t ∈ Outline.trees u.outline ∧
    t.symbol.node = e.declaration.target ∧ w ∈ Outline.preorder u.outline ∧
    w.describes e.owner.node = true ∧ w ∉ Outline.preorder [t] ∧
    ∀ v, (some v, t.symbol) ∉ Outline.edges u.outline := by
  have hbuilt : (ofSources {} Imports.none
      ["class A {} function B::f() {}", "local B = A;"]).toOption.any (fun a =>
      ((a.setImports (Imports.ofList [(⟨0⟩, ⟨1⟩), (⟨1⟩, ⟨0⟩)])).unit? ⟨0⟩).any fun u =>
      u.namespaces.any fun e => (Outline.trees u.outline).any fun t =>
      (Outline.edges u.outline).any fun x => decide (e.owner.unit = ⟨0⟩ ∧
        t.symbol.node = e.declaration.target ∧ x.2.describes e.owner.node = true ∧
        x.2 ∉ (Outline.edges [t]).map Prod.snd ∧
        ∀ y ∈ Outline.edges u.outline, y.2 = t.symbol → y.1 = none)) = true := by decide +kernel
  obtain ⟨a, ha, h⟩ := exists_ok hbuilt
  obtain ⟨u, hu, h⟩ := (Option.any_eq_true _ _).mp h
  obtain ⟨e, he, h⟩ := List.any_eq_true.mp h
  obtain ⟨t, ht, h⟩ := List.any_eq_true.mp h
  obtain ⟨x, hx, h⟩ := List.any_eq_true.mp h
  obtain ⟨howner, hnode, hdescribes, hout, hroot⟩ := of_decide_eq_true h
  refine ⟨a, u, e, t, x.2, ha, hu, he, howner, ht, hnode, ?_, hdescribes, ?_, fun v hv => ?_⟩
  · rw [← Outline.snd_edgesUnder none]
    exact List.mem_map_of_mem hx
  · rw [← Outline.snd_edgesUnder none]
    exact hout
  · cases hroot _ hv rfl

end Analysis

end SquirrelAnalyzer
