import SquirrelAnalyzer.Proofs.Declaring

namespace SquirrelAnalyzer

namespace Shape

variable {χ : Type}

def isNamedAround : Shape χ → Bool
  | variableDeclarator .. | functionDeclaration none .. | classDeclaration none ..
  | enumDeclaration .. => true
  | _ => false

theorem kind_ne_of_isNamedAround {s : Shape χ} (h : s.isNamedAround = true) :
    s.kind ≠ .sourceFile := by
  intro hk
  cases s with
  | sourceFile body => cases h
  | _ => cases hk

theorem isScope_of_boundName {s : Shape χ} {c : χ} (h : c ∈ s.boundNames) :
    s.kind.isScope = true := by
  cases s <;> first | rfl | cases h

end Shape

namespace Arena

variable {a a' : Arena} {scope : NodeId} {name : String} {b b' d : Branch}

def NearestScope (a : Arena) (d : Branch) (scope : NodeId) : Prop :=
  ∃ inner outer, d.ancestors = inner ++ scope :: outer ∧
    (∃ kind, a.kind? scope = some kind ∧ kind.isScope = true) ∧
    ∀ id ∈ inner, ∃ kind, a.kind? id = some kind ∧ kind.isScope = false

/-- Why a scope lists a name for the node at the end of a branch: a construct of that name has this
scope nearest around it, a slot of that name is made in the root table, or the node of the scope
binds the name. -/
inductive Files (a : Arena) (scope : NodeId) (name : String) (d : Branch) : Prop
  | named {s : Shape NodeId} {key : NodeId} (hs : a.shape? d.target = some s)
    (hnamed : s.isNamedAround = true) (hkey : s.nameNode? = some key)
    (hname : a.identifierName? key = some name) (hscope : a.NearestScope d scope)
  | rootSlot {left right key : NodeId}
    (hs : a.shape? d.target = some (.assignmentExpression .newSlot left right))
    (hkey : key = left ∨ a.shape? left = some (.rootExpression key))
    (hname : a.identifierName? key = some name) (hroot : scope = a.root)
  | bound {s : Shape NodeId} (hs : a.shape? scope = some s) (hbound : d.target ∈ s.boundNames)
    (hparent : d.parent? = some scope) (hname : a.parameterText? d.target = some name)

theorem Below.path_eq (h : a.Below b b') :
    ∃ inner, b'.target :: b'.ancestors = inner ++ b.target :: b.ancestors := by
  induction h with
  | refl b => exact ⟨[], rfl⟩
  | @child b b' c hc _ ih =>
    obtain ⟨inner, hi⟩ := ih
    exact ⟨inner ++ [c], by simpa [Branch.child] using hi⟩

theorem Below.root_mem (h : a.Below a.rootBranch b) (hne : b.target ≠ a.root) :
    a.root ∈ b.ancestors := by
  obtain ⟨inner, hi⟩ := h.path_eq
  have hmem : a.root ∈ b.target :: b.ancestors := by
    rw [hi]
    exact List.mem_append_right _ List.mem_cons_self
  exact (List.mem_cons.mp hmem).resolve_left hne.symm

theorem exists_kind? {id : NodeId} (h : id.index < a.size) : ∃ kind, a.kind? id = some kind :=
  ⟨_, congrArg (Option.map Node.kind) (Array.getElem?_eq_getElem h)⟩

theorem nearestScope_scopeAround (ha : a.Parsed) (hroot : a.kind? a.root = some .sourceFile)
    (hb : a.Below a.rootBranch b) (hne : b.target ≠ a.root) :
    a.NearestScope b (a.scopeAround b) := by
  have hholds := ha.holds_root.below (ha.ascending ha.whole) hb
  unfold scopeAround
  cases hfound : b.ancestors.find? fun id => ((a.kind? id).map Kind.isScope).getD false with
  | none =>
    have hscope := List.find?_eq_none.mp hfound a.root (hb.root_mem hne)
    simp [hroot, Kind.isScope] at hscope
  | some scope =>
    obtain ⟨hscope, inner, outer, he, hinner⟩ := List.find?_eq_some_iff_append.mp hfound
    have hkind {id : NodeId} (hid : id ∈ b.ancestors) := exists_kind? (hholds.ancestors id hid)
    refine ⟨inner, outer, he, ?_, fun id hid => ?_⟩
    · obtain ⟨kind, hk⟩ := hkind (List.mem_of_find?_eq_some hfound)
      exact ⟨kind, hk, by simpa [hk] using hscope⟩
    · obtain ⟨kind, hk⟩ := hkind (he ▸ List.mem_append_left _ hid)
      exact ⟨kind, hk, by simpa [hk] using hinner id hid⟩

theorem parameterText?_eq {param key : NodeId} (h : a.parameterName? param = some key) :
    a.parameterText? param = a.identifierName? key := by
  unfold parameterName? at h
  unfold parameterText?
  split at h
  · next hs =>
    cases h
    rw [hs]
    rfl
  · next hs =>
    cases h
    rw [hs]
    rfl
  · cases h

section Extends

variable (h : a.Extends a')

include h

theorem Extends.shape?_of {id : NodeId} {s : Shape NodeId} (hs : a.shape? id = some s) :
    a'.shape? id = some s := (h.shape?_eq (lt_size_of_shape? hs)).trans hs

theorem Extends.identifierName?_of {id : NodeId} {s : Shape NodeId} (hs : a.shape? id = some s) :
    a'.identifierName? id = s.identifierName? := by
  rw [Arena.identifierName?, h.shape?_of hs, Option.bind_some]

theorem Extends.identifierName? {id : NodeId} (hn : a.identifierName? id = some name) :
    a'.identifierName? id = some name := by
  obtain ⟨s, hs, hname⟩ := Option.bind_eq_some_iff.mp hn
  rw [h.identifierName?_of hs, hname]

theorem Extends.parameterText? {param : NodeId} (hn : a.parameterText? param = some name) :
    a'.parameterText? param = some name := by
  unfold Arena.parameterText? at hn ⊢
  cases hs : a.shape? param with
  | none => simp [Arena.identifierName?, hs] at hn
  | some s =>
    rw [h.shape?_of hs]
    rw [hs] at hn
    exact h.identifierName? hn

theorem Files.extends (hd : a.Files scope name d) : a'.Files scope name d := by
  cases hd with
  | named hs hnamed hkey hname hscope =>
    obtain ⟨inner, outer, he, ⟨kind, hk, hscope⟩, hinner⟩ := hscope
    refine .named (h.shape?_of hs) hnamed hkey (h.identifierName? hname)
      ⟨inner, outer, he, ⟨kind, h.kind?_eq hk, hscope⟩, fun id hid => ?_⟩
    obtain ⟨kind, hk, hscope⟩ := hinner id hid
    exact ⟨kind, h.kind?_eq hk, hscope⟩
  | rootSlot hs hkey hname hroot =>
    exact .rootSlot (h.shape?_of hs) (hkey.imp_right h.shape?_of) (h.identifierName? hname)
      (hroot.trans h.root.symm)
  | bound hs hbound hparent hname =>
    exact .bound (h.shape?_of hs) hbound hparent (h.parameterText? hname)

end Extends

end Arena

namespace Declared

variable {a : Arena} {b : Branch} {x : NodeId × ScopedName}

theorem of_mem_scopedAt {scope key : NodeId} {d : Branch} (h : x ∈ a.scopedAt scope key d) :
    a.identifierName? key = some x.2.name ∧ x.1 = scope ∧ x.2.declaration = d := by
  unfold Arena.scopedAt at h
  split at h
  · next name hname =>
    rw [List.mem_singleton.mp h]
    exact ⟨hname, rfl, rfl⟩
  · cases h

theorem visible_joinAll (ds : List Declared) : (joinAll ds).visible = ds.flatMap visible := by
  induction ds with
  | nil => rfl
  | cons d ds ih => exact congrArg (d.visible ++ ·) ih

theorem bindings_joinAll (ds : List Declared) : (joinAll ds).bindings = ds.flatMap bindings := by
  induction ds with
  | nil => rfl
  | cons d ds ih => exact congrArg (d.bindings ++ ·) ih

theorem files_binds {s : Shape NodeId} {m : NodeId} {d : Declared} (hs : a.shape? b.target = some s)
    (hm : m ∈ s.boundNames) (hd : Binds a b m d) (hx : x ∈ d.visible) :
    a.Files x.1 x.2.name x.2.declaration := by
  cases hd with
  | nothing => cases hx
  | plain hname =>
    rw [List.mem_singleton.mp hx]
    have hkey : a.parameterName? m = some m := by simp [Arena.parameterName?, hname]
    refine .bound hs hm rfl ((Arena.parameterText?_eq hkey).trans ?_)
    rw [Arena.identifierName?, hname]
    rfl
  | @defaulted left _ _ hpattern hname =>
    rw [List.mem_singleton.mp hx]
    have hkey : a.parameterName? m = some left := by simp [Arena.parameterName?, hpattern]
    exact .bound hs hm rfl ((Arena.parameterText?_eq hkey).trans hname)

theorem files_bound {s : Shape NodeId} (hs : a.shape? b.target = some s)
    {declare : NodeId → Declared} (hdeclare : declare = a.parameter b ∨ declare = a.loopVariable b)
    (hx : x ∈ (joinAll (s.boundNames.map declare)).visible) :
    a.Files x.1 x.2.name x.2.declaration := by
  rw [visible_joinAll] at hx
  obtain ⟨d, hd, hx⟩ := List.mem_flatMap.mp hx
  obtain ⟨m, hm, rfl⟩ := List.mem_map.mp hd
  rcases hdeclare with rfl | rfl
  · exact files_binds hs hm (binds_parameter ..) hx
  · exact files_binds hs hm (binds_loopVariable ..) hx

theorem files_newSlot {left right : NodeId}
    (hs : a.shape? b.target = some (.assignmentExpression .newSlot left right))
    (hx : x ∈ (a.newSlot b left right).visible) : a.Files x.1 x.2.name x.2.declaration := by
  have hroot {key : NodeId} (hkey : key = left ∨ a.shape? left = some (.rootExpression key))
      (hx : x ∈ (a.rootSlot b key right).visible) : a.Files x.1 x.2.name x.2.declaration := by
    obtain ⟨hname, hscope, hd⟩ := of_mem_scopedAt hx
    rw [← hd] at hs
    exact .rootSlot hs hkey hname hscope
  unfold Arena.newSlot at hx
  split at hx
  · exact hroot (.inl rfl) hx
  · next property hleft => exact hroot (.inr hleft) hx
  · split at hx
    · cases hx
    · cases hx
  · cases hx

theorem files_ofBranch (ha : a.Parsed) (hroot : a.kind? a.root = some .sourceFile)
    (hb : a.Below a.rootBranch b) (hx : x ∈ (ofBranch a b).visible) :
    a.Files x.1 x.2.name x.2.declaration := by
  have hnamed {s : Shape NodeId} {key : NodeId} (hs : a.shape? b.target = some s)
      (hnamed : s.isNamedAround = true) (hkey : s.nameNode? = some key)
      (hx : x ∈ a.scopedAt (a.scopeAround b) key b) : a.Files x.1 x.2.name x.2.declaration := by
    obtain ⟨hname, hscope, hd⟩ := of_mem_scopedAt hx
    have hne : b.target ≠ a.root := by
      intro he
      rw [a.kind?_eq_map, ← he, hs] at hroot
      exact Shape.kind_ne_of_isNamedAround hnamed (Option.some.inj hroot)
    rw [hscope, hd]
    exact .named hs hnamed hkey hname (Arena.nearestScope_scopeAround ha hroot hb hne)
  unfold ofBranch at hx
  split at hx
  case h_2 => cases hx
  next s hs =>
  cases s with
  | variableDeclarator id init => exact hnamed hs rfl rfl hx
  | enumDeclaration id members => exact hnamed hs rfl rfl hx
  | classDeclaration qualifier id superclass body =>
    cases qualifier with
    | none => exact hnamed hs rfl rfl hx
    | some qualifier => cases hx
  | functionDeclaration qualifier id params body =>
    rcases List.mem_append.mp hx with hx | hx
    · exact files_bound hs (.inl rfl) hx
    · cases qualifier with
      | none => exact hnamed hs rfl rfl hx
      | some qualifier => cases hx
  | functionExpression params body => exact files_bound hs (.inl rfl) hx
  | lambdaExpression params body => exact files_bound hs (.inl rfl) hx
  | foreachStatement index value object body => exact files_bound hs (.inr rfl) hx
  | tryStatement block param handler => exact files_bound hs (.inr rfl) hx
  | propertyDefinition isStatic computed key value =>
    simp only [ofShape] at hx
    split at hx
    · cases hx
    · cases hx
  | assignmentExpression operator left right =>
    cases operator with
    | newSlot => exact files_newSlot hs hx
    | _ => cases hx
  | _ => cases hx

end Declared

namespace SourceUnit

variable {u : SourceUnit} {a : Arena}

structure Filed (u : SourceUnit) : Prop where
  root : u.arena.kind? u.arena.root = some .sourceFile
  below : ∀ scope, ∀ s ∈ u.scope scope, u.arena.Below u.arena.rootBranch s.declaration
  files : ∀ scope, ∀ s ∈ u.scope scope, u.arena.Files scope s.name s.declaration

theorem filed_ofArena (config : Config) (ha : a.Parsed)
    (hroot : a.kind? a.root = some .sourceFile) : (ofArena config a).Filed := by
  refine ⟨hroot, fun scope s hs => ?_, fun scope s hs => ?_⟩
  · obtain ⟨-, -, -, hbelow⟩ := exists_visible hs
    exact hbelow
  · obtain ⟨b, hb, hx, -⟩ := exists_visible hs
    exact Declared.files_ofBranch ha hroot (Arena.preorderUpTo_below hb) hx

theorem Filed.mapFacts (h : u.Filed) {f : Facts → Facts} (hf : (f u.facts).SameNames u.facts) :
    (u.mapFacts f).Filed := by
  have hscope (scope : NodeId) : (u.mapFacts f).scope scope = u.scope scope := by
    simp only [SourceUnit.scope, SourceUnit.mapFacts, hf.scopes]
  exact ⟨h.root, fun scope s hs => h.below scope s (hscope scope ▸ hs),
    fun scope s hs => h.files scope s (hscope scope ▸ hs)⟩

theorem Filed.addMeta (h : u.Filed) (cls : NodeId) (name : String) (tag : Doc.Attribute)
    (location : Location) : (u.addMeta cls name tag location).2.Filed := by
  have hext := u.extends_addMeta cls name tag location
  refine ⟨?_, fun scope s hs => ?_, fun scope s hs => (h.files scope s hs).extends hext⟩
  · rw [hext.root]
    exact hext.kind?_eq h.root
  · have hroot : (u.addMeta cls name tag location).2.arena.rootBranch = u.arena.rootBranch := by
      rw [Arena.rootBranch, hext.unit, hext.root]
      rfl
    rw [hroot]
    exact hext.below (h.below scope s hs)

theorem filed_build {source : String} (h : Analysis.parseArena source = .ok a) (config : Config)
    (id : UnitId) : (build config id a).Filed := by
  obtain ⟨tokens, body, hreads⟩ := Analysis.reads_parseArena h
  have hparsed := hreads.parsed
  have hstart := filed_ofArena config (a := { a with unit := id })
    ⟨hparsed.withUnit id, hparsed.whole⟩ ((hreads.sourceFile_iff a.root).mpr rfl)
  exact attachComments_induction (fun _ _ h hf => h.mapFacts hf.toSameNames)
    (fun _ _ _ _ _ h => h.addMeta _ _ _ _) hstart config

end SourceUnit

theorem Analysis.Reachable.filed {asked : Program → Branch → Prop} {a : Analysis}
    (h : a.Reachable asked) {id : UnitId} {u : SourceUnit} (hu : a.unit? id = some u) :
    u.Filed := by
  obtain ⟨source, arena, ha, namespaces, outline, rfl⟩ := h.assembled.exists_build hu
  have hbuild := SourceUnit.filed_build ha a.program.config id
  exact ⟨hbuild.root, hbuild.below, hbuild.files⟩

end SquirrelAnalyzer
