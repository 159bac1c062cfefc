import SquirrelAnalyzer.Proofs.Listed

/-!
What tags say about properties is merged tag by tag: the first type counts, and the last method of
each kind. The nodes of the source stay what they are.
-/

namespace SquirrelAnalyzer

namespace Mention

def key (x : Mention) : NodeId × String := (x.cls, x.name)

def method? (kind : AccessorKind) (x : Mention) : Option NodeId :=
  x.accessor.bind fun y => if y.1 = kind then some y.2 else none

def about (cls : NodeId) (name : String) (ms : List Mention) : List Mention :=
  ms.filter (·.key = (cls, name))

variable {cls : NodeId} {name : String} {ms : List Mention}

theorem about_concat (cls : NodeId) (name : String) (ms : List Mention) (x : Mention) :
    about cls name (ms ++ [x]) = about cls name ms ++ if x.key = (cls, name) then [x] else [] := by
  rw [about, List.filter_append, List.filter_singleton]
  by_cases h : x.key = (cls, name)
  · rw [if_pos h, decide_eq_true h]
    rfl
  · rw [if_neg h, decide_eq_false h]
    rfl

theorem about_eq_nil (h : (cls, name) ∉ ms.map key) : about cls name ms = [] :=
  List.filter_eq_nil_iff.mpr fun _ hx he => h (List.mem_map.mpr ⟨_, hx, of_decide_eq_true he⟩)

end Mention

def Accessors.method? (x : Accessors) : AccessorKind → Option NodeId
  | .getter => x.getter
  | .setter => x.setter

namespace SourceUnit

def accessor? (u : SourceUnit) (kind : AccessorKind) (m : NodeId) : Option NodeId :=
  (u.facts.accessors.get? m).bind (·.method? kind)

variable {a : Arena} {o : Outline} {keys : List (NodeId × String)} {u : SourceUnit}
  {cls m p : NodeId} {name : String}

structure Noted (ms : List Mention) (u : SourceUnit) : Prop where
  types : ∀ cls, ∀ m ∈ u.metasOf cls, ∀ name, u.metaName? m = some name →
    u.facts.typeOverrides.get? m = (Mention.about cls name ms).findSome? (·.tag.type)
  accessors : ∀ cls, ∀ m ∈ u.metasOf cls, ∀ name, u.metaName? m = some name → ∀ kind,
    u.accessor? kind m = ((Mention.about cls name ms).filterMap (·.method? kind)).getLast?
  fresh : ∀ m, u.arena.size ≤ m.index →
    u.facts.typeOverrides.get? m = none ∧ ∀ kind, u.accessor? kind m = none

section Facts

variable (p method m : NodeId) (type : Option String) (kind kind' : AccessorKind) (f : Facts)

theorem metas_typeMeta : (typeMeta p type f).metas = f.metas := by
  rw [typeMeta_eq]

theorem accessors_typeMeta : (typeMeta p type f).accessors = f.accessors := by
  rw [typeMeta_eq]

theorem get?_typeMeta : (typeMeta p type f).typeOverrides.get? m =
    if m = p then (f.typeOverrides.get? p).or type else f.typeOverrides.get? m := by
  cases type with
  | none =>
    rw [Option.or_none]
    by_cases hm : m = p
    · rw [if_pos hm, hm]
      rfl
    · rw [if_neg hm]
      rfl
  | some type =>
    unfold typeMeta
    dsimp only
    cases hp : f.typeOverrides.get? p with
    | none =>
      rw [if_neg (by simp [NodeTable.contains, hp]), NodeTable.get?_insert, Option.none_or]
    | some old =>
      rw [if_pos (by simp [NodeTable.contains, hp]), Option.some_or]
      split
      · next h => rw [h, hp]
      · rfl

theorem method?_setAccessor :
    ((setAccessor p method kind f).accessors.get? m).bind (·.method? kind') =
    if m = p ∧ kind = kind' then some method else (f.accessors.get? m).bind (·.method? kind') := by
  unfold setAccessor
  rw [NodeTable.get?_insert]
  by_cases hm : m = p
  · subst hm
    rw [if_pos rfl, Option.bind_some]
    cases f.accessors.get? m <;> cases kind <;> cases kind' <;> simp [Accessors.method?]
  · rw [if_neg hm, if_neg fun h => hm h.1]

end Facts

namespace Noted

variable {ms : List Mention} {x : Mention}

theorem mapFacts (h : u.Noted ms) (hl : u.Listed a keys) {f : Facts → Facts}
    (hmetas : (f u.facts).metas = u.facts.metas)
    (haccessors : (f u.facts).accessors = u.facts.accessors)
    (htypes : ∀ m, a.size ≤ m.index →
      (f u.facts).typeOverrides.get? m = u.facts.typeOverrides.get? m)
    (ha : a.Grammatical) : (u.mapFacts f).Noted ms := by
  refine ⟨fun cls m hm name hname => ?_, fun cls m hm name hname kind => ?_, fun m hm => ?_⟩
  · rw [metasOf_mapFacts hmetas] at hm
    rw [SourceUnit.mapFacts, htypes m (hl.size_le ha hm)]
    exact h.types cls m hm name hname
  · rw [metasOf_mapFacts hmetas] at hm
    rw [accessor?, SourceUnit.mapFacts, haccessors]
    exact h.accessors cls m hm name hname kind
  · have hle : a.size ≤ m.index := Nat.le_trans hl.kept.size hm
    unfold accessor? SourceUnit.mapFacts
    rw [htypes m hle, haccessors]
    exact h.fresh m hm

theorem addMeta (h : u.Noted ms) (hl : u.Listed a keys) (hnew : (cls, name) ∉ ms.map Mention.key)
    (tag : Doc.Attribute) (location : Location) :
    (u.addMeta cls name tag location).2.Noted ms := by
  refine ⟨fun cls' m hm name' hname => ?_, fun cls' m hm name' hname kind => ?_, fun m hm => ?_⟩
  · rcases hl.addMeta_cases hm hname with ⟨hm, hname⟩ | ⟨rfl, rfl, rfl⟩
    · exact h.types cls' m hm name' hname
    · rw [Mention.about_eq_nil hnew]
      exact (h.fresh _ (Nat.le_succ _)).1
  · rcases hl.addMeta_cases hm hname with ⟨hm, hname⟩ | ⟨rfl, rfl, rfl⟩
    · exact h.accessors cls' m hm name' hname kind
    · rw [Mention.about_eq_nil hnew]
      exact (h.fresh _ (Nat.le_succ _)).2 kind
  · exact h.fresh m (Nat.le_trans (u.extends_addMeta cls name tag location).size hm)

theorem record (h : u.Noted ms) (hl : u.Listed a keys) (hp : p ∈ u.metasOf x.cls)
    (hname : u.metaName? p = some x.name) {f : Facts → Facts}
    (hmetas : (f u.facts).metas = u.facts.metas)
    (htypes : ∀ m, (f u.facts).typeOverrides.get? m =
      if m = p then (u.facts.typeOverrides.get? p).or x.tag.type
      else u.facts.typeOverrides.get? m)
    (haccessors : ∀ kind m, ((f u.facts).accessors.get? m).bind (·.method? kind) =
      if m = p then (x.method? kind).or (u.accessor? kind p) else u.accessor? kind m) :
    (u.mapFacts f).Noted (ms ++ [x]) := by
  refine ⟨fun cls m hm name hmname => ?_, fun cls m hm name hmname kind => ?_, fun m hm => ?_⟩
  · rw [metasOf_mapFacts hmetas] at hm
    have hsame : m = p ↔ x.key = (cls, name) := hl.eq_iff hp hname hm hmname
    rw [SourceUnit.mapFacts, htypes, Mention.about_concat, List.findSome?_append,
      ← h.types cls m hm name hmname]
    by_cases he : m = p
    · rw [if_pos he, if_pos (hsame.mp he), he, List.findSome?_singleton]
    · rw [if_neg he, if_neg fun hkey => he (hsame.mpr hkey), List.findSome?_nil, Option.or_none]
  · rw [metasOf_mapFacts hmetas] at hm
    have hsame : m = p ↔ x.key = (cls, name) := hl.eq_iff hp hname hm hmname
    rw [accessor?, SourceUnit.mapFacts, haccessors, Mention.about_concat, List.filterMap_append,
      List.getLast?_append, ← h.accessors cls m hm name hmname]
    by_cases he : m = p
    · rw [if_pos he, if_pos (hsame.mp he), he]
      cases hx : x.method? kind <;> simp [hx]
    · rw [if_neg he, if_neg fun hkey => he (hsame.mpr hkey)]
      rfl
  · have hm : u.arena.size ≤ m.index := hm
    have hne : m ≠ p := fun he => absurd (hl.lt_size hp) (Nat.not_lt.mpr (he ▸ hm))
    refine ⟨?_, fun kind => ?_⟩
    · rw [SourceUnit.mapFacts, htypes, if_neg hne]
      exact (h.fresh m hm).1
    · rw [accessor?, SourceUnit.mapFacts, haccessors, if_neg hne]
      exact (h.fresh m hm).2 kind

end Noted

structure Merging (a : Arena) (o : Outline) (ms : List Mention) (u : SourceUnit) : Prop where
  listed : u.Listed a (ms.map Mention.key)
  shown : u.Shown o a
  noted : u.Noted ms

namespace Merging

variable {ms : List Mention} {x : Mention} {config : Config} {target : NodeId}

theorem propertyNamed (h : u.Merging a o ms) (hcls : a.IsClass cls) (name : String)
    (tag : Doc.Attribute) (location : Location) :
    (u.propertyNamed cls name tag location).2.Listed a (ms.map Mention.key ++ [(cls, name)]) ∧
      (u.propertyNamed cls name tag location).2.Shown o a ∧
      (u.propertyNamed cls name tag location).2.Noted ms ∧
      (u.propertyNamed cls name tag location).1 ∈
        (u.propertyNamed cls name tag location).2.metasOf cls ∧
      (u.propertyNamed cls name tag location).2.metaName?
        (u.propertyNamed cls name tag location).1 = some name := by
  unfold SourceUnit.propertyNamed
  cases hfind : u.metaNamed? cls name with
  | some p =>
    have hp : p ∈ u.metasOf cls := List.mem_of_find?_eq_some hfind
    have hname : u.metaName? p = some name :=
      of_decide_eq_true (List.find?_some hfind :)
    exact ⟨h.listed.again (h.listed.mem_keys hp hname), h.shown, h.noted, hp, hname⟩
  | none =>
    have hnew : (cls, name) ∉ ms.map Mention.key := by
      intro hkey
      obtain ⟨m, hm, hname⟩ := h.listed.exists_meta hkey
      exact List.find?_eq_none.mp hfind m hm (decide_eq_true hname)
    refine ⟨h.listed.addMeta hcls hnew tag location, h.shown.addMeta h.listed hcls tag location,
      h.noted.addMeta h.listed hnew tag location, ?_, ?_⟩
    · rw [property_addMeta]
      exact (u.mem_metasOf_addMeta cls name tag location).mpr (.inr ⟨rfl, rfl⟩)
    · rw [property_addMeta, metaName?_addMeta]

theorem recordMeta (h : u.Merging a o ms) (hcls : a.IsClass x.cls) :
    (u.recordMeta x.cls x.name x.tag x.accessor x.location).Merging a o (ms ++ [x]) := by
  obtain ⟨hlisted, hshown, hnoted, hp, hname⟩ := h.propertyNamed hcls x.name x.tag x.location
  have hstep {f : Facts → Facts} (hmetas : ∀ facts, (f facts).metas = facts.metas)
      (hf : ((u.propertyNamed x.cls x.name x.tag x.location).2.mapFacts f).Noted (ms ++ [x])) :
      ((u.propertyNamed x.cls x.name x.tag x.location).2.mapFacts f).Merging a o (ms ++ [x]) := by
    refine ⟨?_, hshown.mapFacts (hmetas _), hf⟩
    rw [List.map_append]
    exact hlisted.mapFacts (hmetas _)
  cases hx : x.accessor with
  | none =>
    rw [recordMeta_none]
    refine hstep (metas_typeMeta _ _) (hnoted.record hlisted hp hname (metas_typeMeta ..)
      (fun m => get?_typeMeta ..) fun kind m => ?_)
    rw [accessors_typeMeta, Mention.method?, hx, Option.bind_none, Option.none_or]
    split
    · next hm => rw [hm]; rfl
    · rfl
  | some y =>
    rw [recordMeta_some]
    refine hstep (f := fun f => setAccessor _ y.2 y.1 (typeMeta _ x.tag.type f))
      (metas_typeMeta _ _) (hnoted.record hlisted hp hname (metas_typeMeta ..)
        (fun m => get?_typeMeta ..) fun kind m => ?_)
    rw [method?_setAccessor, accessors_typeMeta, Mention.method?, hx, Option.bind_some]
    by_cases hm : m = (u.propertyNamed x.cls x.name x.tag x.location).1
    · rw [if_pos hm, hm]
      by_cases hkind : y.1 = kind
      · rw [if_pos ⟨rfl, hkind⟩, if_pos hkind, Option.some_or]
      · rw [if_neg fun hn => hkind hn.2, if_neg hkind, Option.none_or]
        rfl
    · rw [if_neg fun hn => hm hn.1, if_neg hm]
      rfl

theorem mapFacts (h : u.Merging a o ms) (ha : a.Grammatical) {f : Facts → Facts}
    (hmetas : (f u.facts).metas = u.facts.metas)
    (haccessors : (f u.facts).accessors = u.facts.accessors)
    (htypes : ∀ m, a.size ≤ m.index →
      (f u.facts).typeOverrides.get? m = u.facts.typeOverrides.get? m) :
    (u.mapFacts f).Merging a o ms :=
  ⟨h.listed.mapFacts hmetas, h.shown.mapFacts hmetas,
    h.noted.mapFacts h.listed hmetas haccessors htypes ha⟩

theorem note (h : u.Merging a o ms) (ha : a.Grammatical) {f : Facts → Facts}
    (hmetas : (f u.facts).metas = u.facts.metas)
    (haccessors : (f u.facts).accessors = u.facts.accessors)
    (htypes : (f u.facts).typeOverrides = u.facts.typeOverrides) : (u.mapFacts f).Merging a o ms :=
  h.mapFacts ha hmetas haccessors fun _ _ => by rw [htypes]

theorem overrideType (h : u.Merging a o ms) (ha : a.Grammatical) {id : NodeId}
    (hid : id.index < a.size) (type : String) : (u.overrideType id type).Merging a o ms := by
  refine h.mapFacts ha rfl rfl fun m hm => ?_
  rw [NodeTable.get?_insert, if_neg]
  rintro rfl
  exact absurd hid (Nat.not_lt.mpr hm)

theorem applied (h : u.Merging a o ms) (ha : a.Grammatical) (htarget : target.index < a.size)
    {location : Location} {tag : Doc.Attribute} {v : SourceUnit}
    (hv : u.Applied config target location tag v) :
    v.Merging a o (ms ++ (a.mention? config target location tag).toList) := by
  have hp := ha.toParsed
  have hext := h.listed.kept
  have hother {v : SourceUnit} (hkind : tag.kind ∉ ["property", "getter", "setter"])
      (hv : v.Merging a o ms) :
      v.Merging a o (ms ++ (a.mention? config target location tag).toList) := by
    rwa [Arena.mention?_eq_none hkind, Option.toList_none, List.append_nil]
  cases hv with
  | deprecated hkind => exact hother (by simp [hkind]) (h.note ha rfl rfl rfl)
  | returns hkind =>
    refine hother ?_ (h.note ha rfl rfl rfl)
    simp only [List.mem_cons, List.not_mem_nil, or_false] at hkind
    rcases hkind with hkind | hkind | hkind <;> simp [hkind]
  | type hkind =>
    refine hother (by simp [hkind]) (h.overrideType ha ?_ _)
    rw [hext.classOf?_eq hp htarget]
    cases hc : a.classOf? target with
    | none => exact htarget
    | some cls => exact (Arena.isClass_of_classOf? hc).lt_size
  | param hkind _ hparam =>
    exact hother (by simp [hkind]) (h.overrideType ha (hext.parameterNamed?_lt hp htarget hparam) _)
  | aliased hkind => exact hother (by simp [hkind]) (h.note ha rfl rfl rfl)
  | augments hkind => exact hother (by simp [hkind]) (h.note ha rfl rfl rfl)
  | @property cls name hkind hname hcls =>
    rw [hext.propertyOwner?_eq hp htarget] at hcls
    have hmention : a.mention? config target location tag =
        some ⟨cls, name, tag, none, location⟩ := by
      simp [Arena.mention?, hkind, hname, hcls]
    rw [hmention]
    exact h.recordMeta (x := ⟨cls, name, tag, none, location⟩)
      (Arena.isClass_of_propertyOwner? hcls)
  | @accessor kind cls name hkind hname hmethod hcls =>
    rw [hext.kind?_of_lt htarget] at hmethod
    rw [hext.enclosingClass?_eq hp htarget] at hcls
    have hmention : a.mention? config target location tag =
        some ⟨cls, name, tag, some (kind, target), location⟩ := by
      rw [Arena.mention?_of_accessor hkind]
      simp [Arena.accessorMention?, Arena.methodClass?, hname, hmethod, hcls]
    rw [hmention]
    exact h.recordMeta (x := ⟨cls, name, tag, some (kind, target), location⟩)
      (Arena.isClass_of_enclosingClass? hcls)
  | nothing _ _ hproperty haccessor =>
    rw [hext.propertyOwner?_eq hp htarget] at hproperty
    rw [hext.kind?_of_lt htarget, hext.enclosingClass?_eq hp htarget] at haccessor
    rw [Arena.mention?_eq_none_of_silent hproperty haccessor]
    simpa using h

theorem attachTo (h : u.Merging a o ms) (ha : a.Grammatical) (config : Config)
    (htarget : target.index < a.size) (c : Doc.Comment) :
    (SourceUnit.attachTo config u target c).Merging a o
      (ms ++ c.attributes.filterMap (a.mention? config target c.location)) := by
  have hdocs : (u.mapFacts fun f => { f with docs := f.docs.insert target c.attributes }).Merging
      a o ms := h.note ha rfl rfl rfl
  unfold SourceUnit.attachTo
  revert hdocs
  generalize u.mapFacts _ = v
  clear h
  intro hv
  induction c.attributes generalizing v ms with
  | nil => rwa [List.filterMap_nil, List.append_nil]
  | cons tag tags ih =>
    have htag := hv.applied ha htarget (v.applied_applyAttribute config target c.location tag)
    have htail := ih _ htag
    rw [List.append_assoc] at htail
    cases hx : a.mention? config target c.location tag with
    | none =>
      rw [hx] at htail
      rwa [List.foldl_cons, List.filterMap_cons_none hx]
    | some x =>
      rw [hx] at htail
      rwa [List.foldl_cons, List.filterMap_cons_some hx]

theorem ofArena (config : Config) (ha : a.Grammatical) :
    (SourceUnit.ofArena config a).Merging a a.outline [] := by
  have hmetas (cls : NodeId) : (SourceUnit.ofArena config a).metasOf cls = [] := by
    show (NodeTable.get? ∅ cls).getD [] = []
    rw [NodeTable.get?_empty]
    rfl
  have hnone (cls m : NodeId) : m ∉ (SourceUnit.ofArena config a).metasOf cls := by
    rw [hmetas]
    exact List.not_mem_nil
  refine ⟨⟨.refl a, ⟨0, rfl, nofun⟩, fun m key hm => ?_, fun cls m hm => ?_, fun cls => ?_⟩,
    ⟨outlined_ofArena config ha.toRooted ha.whole, fun _ _ => rfl, fun cls m hm => ?_⟩,
    ⟨fun cls m hm => ?_, fun cls m hm => ?_, fun m _ => ⟨NodeTable.get?_empty m, fun kind => ?_⟩⟩⟩
  · exact absurd hm (ha.shape?_ne_metaProperty m key)
  · exact absurd hm (hnone cls m)
  · rw [hmetas]
    rfl
  · exact absurd hm (hnone cls m)
  · exact absurd hm (hnone cls m)
  · exact absurd hm (hnone cls m)
  · show (NodeTable.get? ∅ m).bind (Accessors.method? · kind) = none
    rw [NodeTable.get?_empty]
    rfl

theorem attachComments (config : Config) (ha : a.Grammatical)
    (hnumbered : ∀ i (h : i < a.nodes.size), a.nodes[i].id = ⟨i⟩) :
    (SourceUnit.attachComments config (SourceUnit.ofArena config a)).Merging a a.outline
      (a.mentions config) := by
  have hbase := Merging.ofArena config ha
  have harena : (SourceUnit.ofArena config a).arena = a := rfl
  unfold SourceUnit.attachComments Arena.mentions
  rw [harena, ← List.nil_append (List.flatMap _ _)]
  generalize SourceUnit.ofArena config a = v at hbase ⊢
  generalize ([] : List Mention) = ms at hbase ⊢
  dsimp only
  induction a.comments generalizing v ms with
  | nil => rwa [List.flatMap_nil, List.append_nil]
  | cons c comments ih =>
    rw [List.foldl_cons, List.flatMap_cons, ← List.append_assoc]
    refine ih _ _ ?_
    rw [Arena.mentionsOf]
    cases hc : documentedBy? a.documentable c with
    | none => rwa [List.append_nil]
    | some target =>
      exact hbase.attachTo ha config (ha.toParsed.lt_size_of_documentedBy? hnumbered hc) c

end Merging

/-- Properties known from documentation stand apart from the source and merge what the tags say that
mention them. -/
structure Merges (a : Arena) (o : Outline) (ms : List Mention) (u : SourceUnit) : Prop
    extends Listed a (ms.map Mention.key) u, Noted ms u where
  distinct : ∀ cls, ((u.metasOf cls).map u.metaName?).Nodup
  symbols : ∀ cls, ∀ m ∈ u.metasOf cls, ∀ name, u.metaName? m = some name →
    ∃ l, u.arena.location? m = some l ∧
      (∀ s ∈ o.preorder, s.describes cls = true →
        u.outline.edges.filter (·.2.node = m) = [(some s, ⟨name, .property, l, l, m, none⟩)]) ∧
      ((∀ s ∈ o.preorder, s.describes cls = false) →
        u.outline.edges.filter (·.2.node = m) = [])

variable {ms : List Mention}

theorem Merging.merges (h : u.Merging a a.outline ms) (ha : a.Grammatical) :
    u.Merges a a.outline ms where
  toListed := h.listed
  toNoted := h.noted
  distinct := h.listed.nodup_names
  symbols cls m hm name hname := by
    have hget : u.arena.get? m = some _ := Array.getElem?_eq_getElem (h.listed.lt_size hm)
    have hl := congrArg (Option.map Node.location) hget
    have hsymbols := h.shown.symbols cls m hm name _ hname hl
    refine ⟨_, hl, fun s hs hd => ?_, fun hnot => ?_⟩
    · cases hfind : a.outline.preorder.find? (·.describes cls) with
      | none => exact absurd hd (List.find?_eq_none.mp hfind s hs)
      | some s' =>
        obtain rfl : s = s' := ha.eq_of_describes (h.listed.metas cls m hm).1 hs
          (List.mem_of_find?_eq_some hfind) hd (List.find?_some hfind :)
        rw [hsymbols, hfind]
        rfl
    · rw [hsymbols, List.find?_eq_none.mpr fun s hs => by simp [hnot s hs]]
      rfl

/-- The documentation of a source is read in the order in which it is written, and only adds to
what the source says. -/
theorem merges_build {source : String} {a : Arena} (h : Arena.parse source = .ok a)
    (config : Config) (id : UnitId) :
    (build config id a).Merges { a with unit := id } (ofArena config { a with unit := id }).outline
        (({ a with unit := id } : Arena).mentions config) ∧
      a.comments.Pairwise fun c d => c.location.endOffset ≤ d.location.startOffset := by
  obtain ⟨tokens, body, hreads⟩ := Arena.reads_parse h
  have ha := hreads.grammatical.withUnit id
  exact ⟨(Merging.attachComments config ha fun i hi => hreads.id_eq hi).merges ha,
    Arena.comments_inOrder h⟩

theorem merges_build_size : ∃ a,
    Arena.parse ("class Box \x7b /** @getter \x7bint\x7d size */ function get() \x7b\x7d " ++
      "/** @setter \x7bstring\x7d size */ function set(v) \x7b\x7d " ++
      "/** @getter size */ function take() \x7b\x7d \x7d") = .ok a ∧
    (a.mentions {}).map (fun x => (x.key, x.tag.type, x.accessor)) =
      [((⟨15⟩, "size"), some "int", some (.getter, ⟨4⟩)),
        ((⟨15⟩, "size"), some "string", some (.setter, ⟨9⟩)),
        ((⟨15⟩, "size"), none, some (.getter, ⟨13⟩))] ∧
    (build {} ⟨1⟩ a).Merges { a with unit := ⟨1⟩ } (ofArena {} { a with unit := ⟨1⟩ }).outline
      (({ a with unit := ⟨1⟩ } : Arena).mentions {}) := by
  have hparsed : (Arena.parse
      ("class Box \x7b /** @getter \x7bint\x7d size */ function get() \x7b\x7d " ++
        "/** @setter \x7bstring\x7d size */ function set(v) \x7b\x7d " ++
        "/** @getter size */ function take() \x7b\x7d \x7d")).toOption.any (fun a =>
      (a.mentions {}).map (fun x => (x.key, x.tag.type, x.accessor)) =
        [((⟨15⟩, "size"), some "int", some (.getter, ⟨4⟩)),
          ((⟨15⟩, "size"), some "string", some (.setter, ⟨9⟩)),
          ((⟨15⟩, "size"), none, some (.getter, ⟨13⟩))]) = true := by decide +kernel
  obtain ⟨a, ha, hmentions⟩ := exists_ok hparsed
  exact ⟨a, ha, of_decide_eq_true hmentions, (merges_build ha {} ⟨1⟩).1⟩

end SourceUnit

end SquirrelAnalyzer
