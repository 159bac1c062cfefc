import SquirrelAnalyzer.Proofs.Scoped

/-!
The tables of scopes and of declarations agree. What a scope lists is declared under one name of the
source, and what is declared under a name is listed once, or belongs to an owner and is listed
nowhere.
-/

namespace SquirrelAnalyzer

namespace Arena

variable {a : Arena} {m scope : NodeId}

theorem Parsed.lt_of_isScoped (ha : a.Parsed) (h : a.IsScoped m) : m.index < a.size := by
  cases h with
  | named hs | newSlot hs => exact lt_size_of_shape? hs
  | bound hs hbound =>
    exact Nat.lt_trans (ha.child_lt (mem_children_of_boundName hs hbound)) (lt_size_of_shape? hs)

theorem Extends.kind?_left {a' : Arena} (h : a.Extends a') (ha : a.Parsed)
    {operator : AssignmentOperator} {left right : NodeId}
    (hs : a.shape? m = some (.assignmentExpression operator left right)) :
    a'.kind? left = a.kind? left := by
  have hchild : left ∈ a.children .full m := by
    rw [children_of_shape? hs]
    simp [Shape.children, Shape.kind, Kind.fields, Shape.field]
  rw [kind?_eq_map, kind?_eq_map,
    h.shape?_eq (Nat.lt_trans (ha.child_lt hchild) (lt_size_of_shape? hs))]

theorem Extends.isOwned_base {a' : Arena} (h : a.Extends a') (ha : a.Parsed)
    (hm : m.index < a.size) (howned : a'.IsOwned m) : a.IsOwned m := by
  have hshape := h.shape?_eq hm
  cases howned with
  | qualified hs hqualified => exact .qualified (hshape ▸ hs) hqualified
  | member hs hslot => exact .member (hshape ▸ hs) hslot
  | newSlot hs hleft =>
    rw [hshape] at hs
    exact .newSlot hs (h.kind?_left ha hs ▸ hleft)
  | documented hs => exact .documented (hshape ▸ hs)

theorem Extends.isScoped {a' : Arena} (h : a.Extends a') (ha : a.Parsed) (hm : a.IsScoped m) :
    a'.IsScoped m := by
  cases hm with
  | named hs hnamed => exact .named (h.shape?_of hs) hnamed
  | newSlot hs hleft => exact .newSlot (h.shape?_of hs) (by rwa [h.kind?_left ha hs])
  | bound hs hbound => exact .bound (h.shape?_of hs) hbound

theorem Extends.isOwned {a' : Arena} (h : a.Extends a') (ha : a.Parsed) (hm : a.IsOwned m) :
    a'.IsOwned m := by
  cases hm with
  | qualified hs hqualified => exact .qualified (h.shape?_of hs) hqualified
  | member hs hslot => exact .member (h.shape?_of hs) hslot
  | newSlot hs hleft => exact .newSlot (h.shape?_of hs) (by rwa [h.kind?_left ha hs])
  | documented hs => exact .documented (h.shape?_of hs)

theorem Files.scope_mem {name : String} {d : Branch} (h : a.Files scope name d)
    (hroot : a.kind? a.root = some .sourceFile) (hd : a.Below a.rootBranch d) :
    scope ∈ d.ancestors ∧ ∃ kind, a.kind? scope = some kind ∧ kind.isScope = true := by
  cases h with
  | named hs hnamed hkey hname hscope =>
    obtain ⟨inner, outer, he, hkind, -⟩ := hscope
    exact ⟨he ▸ List.mem_append_right _ List.mem_cons_self, hkind⟩
  | rootSlot hs hkey hname he =>
    subst he
    refine ⟨hd.root_mem ?_, .sourceFile, hroot, rfl⟩
    intro he
    rw [← he, kind?_eq_map, hs] at hroot
    cases hroot
  | bound hs hbound hparent hname =>
    refine ⟨List.mem_of_head? hparent, _, ?_, Shape.isScope_of_boundName hbound⟩
    rw [kind?_eq_map, hs, Option.map_some]

end Arena

namespace SourceUnit

variable {u : SourceUnit} {config : Config} {a : Arena} {k d m scope : NodeId}
  {x : NodeId × ScopedName}

theorem keyed_of_declaration? (ha : a.Grammatical)
    (h : (ofArena config a).declaration? k = some d) : a.Keyed k d := by
  obtain ⟨b, -, x, hx, rfl, rfl⟩ := exists_binding h
  exact Declared.keyed_of_mem_pairs ha (List.mem_map_of_mem hx)

theorem declaration?_iff (ha : a.Grammatical) :
    (ofArena config a).declaration? k = some d ↔ a.Keyed k d := by
  constructor
  · exact keyed_of_declaration? ha
  · intro h
    obtain ⟨b, hb, hpair⟩ := ha.exists_pair h
    obtain ⟨x, hx, he⟩ := List.mem_map.mp hpair
    obtain ⟨rfl, rfl⟩ := Prod.mk.inj he
    obtain ⟨m, hm⟩ := exists_declaration? config hb hx
    rw [hm, h.declaring_eq ha.toParsed (keyed_of_declaration? ha hm)]

theorem scope_ofArena (config : Config) (a : Arena) (scope : NodeId) :
    (ofArena config a).scope scope = (a.entries.filter (·.1 = scope)).map (·.2) := by
  have hentries : ((a.preorder a.rootBranch).map fun b => (b, Declared.ofBranch a b)).flatMap
      (·.2.visible) = a.entries := List.flatMap_map ..
  unfold SourceUnit.scope ofArena
  dsimp only
  rw [NodeTable.getD_get?_group, hentries]

theorem scope_filter_ofArena (ha : a.Grammatical) (hx : x ∈ a.entries) (scope : NodeId) :
    ((ofArena config a).scope scope).filter
      (fun s => s.declaration.target = x.2.declaration.target) =
        if scope = x.1 then [x.2] else [] := by
  have hone := filter_eq_of_nodup ha.nodup_entries hx
  rw [scope_ofArena, List.filter_map, List.filter_comm]
  rw [show a.entries.filter ((fun s => decide (s.declaration.target = x.2.declaration.target)) ∘
    (·.2)) = [x] from hone]
  by_cases he : scope = x.1
  · simp [he]
  · simp [he, Ne.symm he]

theorem mem_scope_iff {s : ScopedName} :
    s ∈ (ofArena config a).scope scope ↔ (scope, s) ∈ a.entries := by
  rw [scope_ofArena]
  constructor
  · intro hs
    obtain ⟨x, hx, rfl⟩ := List.mem_map.mp hs
    obtain ⟨hmem, hscope⟩ := List.mem_filter.mp hx
    exact of_decide_eq_true hscope ▸ hmem
  · intro hs
    exact List.mem_map.mpr ⟨_, List.mem_filter.mpr ⟨hs, decide_eq_true rfl⟩, rfl⟩

theorem ReadFrom.isSynthetic_eq (h : u.ReadFrom config a) (m : NodeId) :
    u.arena.isSynthetic m = decide (a.size ≤ m.index) := by
  have hsize : u.arena.parsedSize = a.parsedSize := h.unit.arena.parsedSize
  rw [Arena.isSynthetic, hsize, h.parsed.whole]

theorem ReadFrom.isScoped_base (h : u.ReadFrom config a) (hm : u.arena.IsScoped m) :
    a.IsScoped m := by
  cases hm with
  | named hs hnamed =>
    rcases h.shape?_base hs with hbase | ⟨key, rfl⟩ | ⟨name, rfl⟩
    · exact .named hbase hnamed
    · cases hnamed
    · cases hnamed
  | newSlot hs hleft =>
    rcases h.shape?_base hs with hbase | ⟨key, he⟩ | ⟨name, he⟩
    · exact .newSlot hbase (h.unit.arena.kind?_left h.parsed hbase ▸ hleft)
    · cases he
    · cases he
  | bound hs hbound =>
    rcases h.shape?_base hs with hbase | ⟨key, rfl⟩ | ⟨name, rfl⟩
    · exact .bound hbase hbound
    · cases hbound
    · cases hbound

/-- The tables of scopes and of declarations of a unit agree. -/
structure Tabled (u : SourceUnit) : Prop where
  branch : ∀ scope, ∀ s ∈ u.scope scope,
    u.arena.branchTo s.declaration.target = some s.declaration
  place : ∀ scope, ∀ s ∈ u.scope scope, u.arena.Files scope s.name s.declaration ∧
    scope ∈ s.declaration.ancestors ∧
    ∃ kind, u.arena.kind? scope = some kind ∧ kind.isScope = true
  key : ∀ scope, ∀ s ∈ u.scope scope, ∃ key, u.arena.isSynthetic key = false ∧
    u.arena.identifierName? key = some s.name ∧
    ∀ k, u.declaration? k = some s.declaration.target ↔ k = key
  cases : ∀ k m, u.declaration? k = some m → u.arena.IsScoped m ∨ u.arena.IsOwned m
  listed : ∀ k m, u.declaration? k = some m → u.arena.IsScoped m →
    ∃ scope s, s.declaration.target = m ∧ ∀ scope',
      (u.scope scope').filter (·.declaration.target = m) = if scope' = scope then [s] else []
  unlisted : ∀ m, u.arena.IsOwned m → ∀ scope, ∀ s ∈ u.scope scope, s.declaration.target ≠ m

theorem ReadFrom.tabled (hr : u.ReadFrom config a) (hsound : u.Sound) (hfiled : u.Filed)
    (hdeclaring : u.Declaring) : u.Tabled := by
  have ha := hr.grammatical
  have harena := hr.unit.arena
  have hscope (scope : NodeId) : u.scope scope = (ofArena config a).scope scope := by
    simp only [SourceUnit.scope, hr.unit.scopes]
  have hdeclaration (k m : NodeId) (hm : m.index < a.size) :
      u.declaration? k = some m ↔ a.Keyed k m := (hr.unit.declaration k m hm).trans
    (declaration?_iff ha)
  have hentry {scope : NodeId} {s : ScopedName} (hs : s ∈ u.scope scope) :
      (scope, s) ∈ a.entries := mem_scope_iff.mp (hscope scope ▸ hs)
  refine ⟨fun scope s hs => ?branch, fun scope s hs => ?place, fun scope s hs => ?key,
    fun k m hm => ?cases, fun k m hm hscoped => ?listed, fun m howned scope s hs he => ?unlisted⟩
  case branch => exact hsound.rooted.branchTo_of_below (hfiled.below scope s hs)
  case place =>
    have hfiles := hfiled.files scope s hs
    exact ⟨hfiles, hfiles.scope_mem hfiled.root (hfiled.below scope s hs)⟩
  case key =>
    obtain ⟨b, -, hx⟩ := List.mem_flatMap.mp (hentry hs)
    obtain ⟨key, hname, hpair⟩ := Declared.exists_pair_of_visible ha hx
    have hkeyed := Declared.keyed_of_mem_pairs ha hpair
    have hlt := ha.lt_of_isScoped (ha.isScoped_of_entry (hentry hs))
    refine ⟨key, ?_, harena.identifierName? hname, fun k => ?_⟩
    · have hkey : key.index < a.size := by
        obtain ⟨t, ht, -⟩ := Option.bind_eq_some_iff.mp hname
        exact Arena.lt_size_of_shape? ht
      rw [hr.isSynthetic_eq]
      exact decide_eq_false (Nat.not_le_of_lt hkey)
    · rw [hdeclaration k _ hlt]
      constructor
      · exact fun hk => hk.key_eq hkeyed
      · rintro rfl
        exact hkeyed
  case cases =>
    by_cases hlt : m.index < a.size
    · rcases Arena.Keyed.scoped_or_owned ((hdeclaration k m hlt).mp hm) with hscoped | howned
      · exact .inl (harena.isScoped ha.toParsed hscoped)
      · exact .inr (harena.isOwned ha.toParsed howned)
    · have hsynthetic : u.arena.isSynthetic m = true := by
        rw [hr.isSynthetic_eq]
        exact decide_eq_true (Nat.le_of_not_lt hlt)
      rcases hdeclaring.declarations hm with ⟨s, hs, hdeclares⟩ | ⟨-, hself⟩
      · rcases hr.documents m s hsynthetic hs with ⟨key, rfl⟩ | ⟨name, property, rfl, -⟩
        · exact .inr (.documented hs)
        · cases hdeclares
      · rw [hself.written] at hsynthetic
        cases hsynthetic
  case listed =>
    have hbase := hr.isScoped_base hscoped
    have hkeyed := (hdeclaration k m (ha.lt_of_isScoped hbase)).mp hm
    obtain ⟨x, hx, rfl⟩ := ha.exists_entry hkeyed hbase
    refine ⟨x.1, x.2, rfl, fun scope' => ?_⟩
    rw [hscope]
    exact scope_filter_ofArena ha hx scope'
  case unlisted =>
    subst he
    have hscoped := ha.isScoped_of_entry (hentry hs)
    have hlt := ha.lt_of_isScoped hscoped
    exact hscoped.not_isOwned ha (harena.isOwned_base ha.toParsed hlt howned)

/-- Whatever a source says, the tables of its unit agree. -/
theorem tabled_build {source : String} (h : Analysis.parseArena source = .ok a) (config : Config)
    (id : UnitId) : (build config id a).Tabled := by
  have hr := readFrom_build h config id (build config id a).namespaces (build config id a).outline
  have hparsed := Analysis.parsed_parseArena h
  exact ReadFrom.tabled hr (sound_build config id hparsed) (filed_build h config id)
    (declaring_build config id hparsed)

theorem tabled_build_three_scopes : ∃ a,
    Analysis.parseArena
        "class A \x7b function m(p, q = 1) \x7b foreach (i, v in q) ::G <- v; \x7d \x7d
      A.s <- 2; function A::n() \x7b\x7d" = .ok a ∧
      ((build {} ⟨0⟩ a).facts.scopes.toList.map fun e => (e.1, e.2.map (·.name))) =
        [(⟨14⟩, ["i", "v"]), (⟨16⟩, ["p", "q"]), (⟨30⟩, ["A", "G"])] ∧
      (build {} ⟨0⟩ a).facts.declarations.toList.length = 9 ∧ (build {} ⟨0⟩ a).Tabled := by
  have hparsed : (Analysis.parseArena
      "class A \x7b function m(p, q = 1) \x7b foreach (i, v in q) ::G <- v; \x7d \x7d
      A.s <- 2; function A::n() \x7b\x7d").toOption.any (fun a =>
      ((build {} ⟨0⟩ a).facts.scopes.toList.map fun e => (e.1, e.2.map (·.name))) =
        [(⟨14⟩, ["i", "v"]), (⟨16⟩, ["p", "q"]), (⟨30⟩, ["A", "G"])] ∧
      (build {} ⟨0⟩ a).facts.declarations.toList.length = 9) = true := by decide +kernel
  obtain ⟨a, ha, htables⟩ := exists_ok hparsed
  obtain ⟨hscopes, hdeclarations⟩ := of_decide_eq_true htables
  exact ⟨a, ha, hscopes, hdeclarations, tabled_build ha {} ⟨0⟩⟩

end SourceUnit

end SquirrelAnalyzer
