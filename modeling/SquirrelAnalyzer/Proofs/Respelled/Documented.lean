import SquirrelAnalyzer.Proofs.Mentioned
import SquirrelAnalyzer.Proofs.Respelled.Grounded

namespace SquirrelAnalyzer

namespace Arena.Respelled

variable {a a' : Arena} (h : a.Respelled a')

include h

theorem valueOf? (id : NodeId) : a.valueOf? id = a'.valueOf? id := by
  unfold Arena.valueOf?
  cases h.node id with
  | same hs _ => rw [hs]
  | name hr =>
    obtain ⟨name, hs, hs'⟩ := hr
    rw [hs, hs']
  | bracket hs hs' hb _ _ =>
    rw [hs, hs']
    cases hb <;> rfl

theorem functionOf? (id : NodeId) : a.functionOf? id = a'.functionOf? id := by
  simp only [Arena.functionOf?, h.valueOf?, h.map_kind? (f := Kind.isFunction) rfl]

theorem classOf? (id : NodeId) : a.classOf? id = a'.classOf? id := by
  simp only [Arena.classOf?, h.valueOf?, h.map_kind? (f := Kind.isClass) rfl]

theorem enclosingClass? (id : NodeId) : a.enclosingClass? id = a'.enclosingClass? id := by
  simp only [Arena.enclosingClass?, Branch.endingAtAny, h.branchTo,
    h.map_kind? (f := Kind.isClass) rfl]

theorem parameterNamed? (id : NodeId) (name : String) :
    a.parameterNamed? id name = a'.parameterNamed? id name := by
  simp only [Arena.parameterNamed?, h.functionOf?, Option.bind_eq_bind]
  cases a'.functionOf? id with
  | none => rfl
  | some function =>
    simp only [Option.bind_some, ← Option.bind_assoc, ← h.bind_shape? Shape.blind_params?]
    cases hp : (a.shape? function).bind Shape.params? with
    | none => rfl
    | some params =>
      obtain ⟨s, hs, hparams⟩ := Option.bind_eq_some_iff.mp hp
      exact h.findParameter? hs hparams name

theorem propertyOwner? (config : Config) (id : NodeId) :
    a.propertyOwner? config id = a'.propertyOwner? config id := by
  unfold Arena.propertyOwner?
  rw [h.classOf?]
  congr 1
  cases h.node id with
  | same hs hc =>
    rw [← hs]
    cases ht : a.shape? id with
    | none => rfl
    | some s =>
      cases s with
      | methodDefinition kind isStatic key value =>
        have hkey : ¬ a.Rewritten a' key := h.not_rewritten_of_nameNode ht nofun rfl
        simp only [Option.bind_eq_bind, Option.bind_some, h.identifierName? hkey,
          h.enclosingClass?]
      | _ => rfl
  | name hr =>
    obtain ⟨name, hs, hs'⟩ := hr
    rw [hs, hs']
    rfl
  | bracket hs hs' hb _ _ =>
    rw [hs, hs']
    cases hb <;> rfl

end Arena.Respelled

namespace Arena

variable {a a' b b' : Arena} {id : NodeId}

theorem Respelled.extend (h : a.Respelled a') (hb : a.Extends b)
    (hb' : a'.Extends b') (hsize : b'.size = b.size)
    (hnew : ∀ {id}, a.size ≤ id.index →
      b.shape? id = b'.shape? id ∧ ∀ c ∈ b.children .full id, a.size ≤ c.index) :
    b.Respelled b' := by
  have hold {id : NodeId} (hid : id.index < a.size) :
      b.shape? id = a.shape? id ∧ b'.shape? id = a'.shape? id :=
    ⟨hb.shape?_eq hid, hb'.shape?_eq (h.size ▸ hid)⟩
  have hrewritten {id : NodeId} (hr : b.Rewritten b' id) : a.Rewritten a' id := by
    obtain ⟨name, hs, hs'⟩ := hr
    by_cases hid : id.index < a.size
    · rw [(hold hid).1] at hs
      rw [(hold hid).2] at hs'
      exact ⟨name, hs, hs'⟩
    · rw [(hnew (Nat.le_of_not_lt hid)).1, hs'] at hs
      cases hs
  refine ⟨?_, ?_, ?_, hsize, hb.rooted h.left, hb'.rooted h.right, fun id => ?_, ?_⟩
  · rw [hb.unit, hb'.unit, h.unit]
  · rw [hb.root, hb'.root, h.root]
  · rw [hb.parsedSize, hb'.parsedSize, h.parsedSize]
  · by_cases hid : id.index < a.size
    · obtain ⟨hs, hs'⟩ := hold hid
      cases h.node id with
      | same he hc =>
        refine .same (by rw [hs, hs', he]) fun c hmem hr => hc c ?_ (hrewritten hr)
        rwa [← hb.children_eq hid]
      | name hr =>
        obtain ⟨name, hn, hn'⟩ := hr
        exact .name ⟨name, hs.trans hn, hs'.trans hn'⟩
      | bracket ht ht' hbracket hk ho =>
        obtain ⟨name, hn, hn'⟩ := hk
        have hkey := hold (lt_size_of_shape? hn)
        refine .bracket (hs.trans ht) (hs'.trans ht') hbracket
          ⟨name, hkey.1.trans hn, hkey.2.trans hn'⟩ fun c hc hr => ho c hc (hrewritten hr)
    · obtain ⟨he, hc⟩ := hnew (Nat.le_of_not_lt hid)
      refine .same he fun c hmem hr => ?_
      obtain ⟨name, hs, -⟩ := hrewritten hr
      exact absurd (lt_size_of_shape? hs) (Nat.not_lt.mpr (hc c hmem))
  · intro key c id hbracket hc hk
    have hcold : c.index < a.size := by
      by_contra hge
      exact hbracket.shape?_ne (hnew (Nat.le_of_not_lt hge)).1
    obtain ⟨s, s', hs, hs', hbracket⟩ := hbracket
    rw [(hold hcold).1] at hs
    rw [(hold hcold).2] at hs'
    have hid : id.index < a.size := by
      by_contra hge
      exact Nat.not_lt.mpr ((hnew (Nat.le_of_not_lt hge)).2 c hc) hcold
    rw [hb.children_eq hid] at hc
    rw [kind?_eq_map, (hold hcold).1, ← kind?_eq_map] at hk
    obtain ⟨kind, hkind, hholds⟩ := h.slot ⟨s, s', hs, hs', hbracket⟩ hc hk
    exact ⟨kind, hb.kind?_eq hkind, hholds⟩

end Arena

namespace SourceUnit

structure Twin (u u' : SourceUnit) : Prop where
  respelled : u.Respelled u'
  sound : u.Sound
  grounded : u.Grounded

end SourceUnit

structure Facts.Notes (a : Arena) (f : Facts → Facts) : Prop where
  core : ∀ x, (f x).core = (f x.core).core
  names : ∀ x, (f x).SameNames x
  getters : ∀ {x : Facts} {id m}, ((f x).accessors.get? id).bind (·.getter) = some m →
    (x.accessors.get? id).bind (·.getter) = some m ∨ a.kind? m = some .methodDefinition
  aliases : ∀ {x : Facts} {cls name}, (f x).aliases.get? cls = some name →
    x.aliases.get? cls = some name ∨ a.Stands cls

namespace SourceUnit.Twin

variable {u u' : SourceUnit} (h : u.Twin u')

include h

theorem mapFacts {f : Facts → Facts} (hf : Facts.Notes u.arena f) :
    (u.mapFacts f).Twin (u'.mapFacts f) where
  respelled := by
    have hr := h.respelled
    refine ⟨hr.id, hr.arena, ?_, hr.pending, hr.namespaces, fun hk => ?_, fun hs hs' => ?_⟩
    · show (f u.facts).core = (f u'.facts).core
      rw [hf.core, hr.facts, ← hf.core]
    · show (f u.facts).normalizedKeys.get? _ = (f u'.facts).normalizedKeys.get? _
      rw [(hf.names _).keys, (hf.names _).keys]
      exact hr.keys hk
    · show (f u'.facts).normalizedKeys.get? _ = _
      rw [(hf.names _).keys]
      exact hr.spelled hs hs'
  sound := h.sound.mapFacts (hf.names _).scopes (hf.names _).metas
  grounded := by
    have hg := h.grounded
    refine ⟨hg.nested, fun hs => ?_, fun hk => ?_, fun hm => ?_, fun hget => ?_, fun ha => ?_⟩
    · unfold scope SourceUnit.mapFacts at hs
      rw [(hf.names _).scopes] at hs
      exact hg.scopes hs
    · unfold declaration? SourceUnit.mapFacts at hk
      rw [(hf.names _).declarations] at hk
      exact hg.declarations hk
    · unfold SourceUnit.mapFacts at hm
      rw [(hf.names _).metas] at hm
      exact hg.metas hm
    · rcases hf.getters hget with hget | hk
      · exact hg.getters hget
      · exact hk
    · rcases hf.aliases ha with ha | hs
      · exact hg.aliases ha
      · exact hs

end SourceUnit.Twin

namespace SourceUnit

variable {u u' : SourceUnit} {cls : NodeId} {name : String} {tag : Doc.Attribute}
  {location location' : Location}

theorem children_addMeta {id c : NodeId} (hid : u.arena.size ≤ id.index)
    (hc : c ∈ (u.addMeta cls name tag location).2.arena.children .full id) :
    c = ⟨u.arena.size⟩ := by
  rw [Arena.children_eq_map, shape?_addMeta] at hc
  split at hc
  · exact List.mem_singleton.mp hc
  split at hc
  · cases hc
  · have hnone : u.arena.shape? id = none := by
      simp [Arena.shape?, Arena.get?, Array.getElem?_eq_none hid]
    rw [hnone] at hc
    cases hc

theorem core_addMeta (u : SourceUnit) (cls : NodeId) (name : String) (tag : Doc.Attribute)
    (location : Location) :
    (u.addMeta cls name tag location).2.facts.core =
      { u.facts.core with
        declarations := u.facts.core.declarations.insert ⟨u.arena.size⟩
          ⟨⟨u.arena.size + 1⟩, .property⟩
        docs := u.facts.core.docs.insert ⟨u.arena.size + 1⟩ [tag]
        metas := u.facts.core.metas.append cls ⟨u.arena.size + 1⟩ } := by
  rw [← u.property_addMeta cls name tag location]
  rfl

theorem Respelled.addMeta (h : u.Respelled u') (cls : NodeId) (name : String)
    (tag : Doc.Attribute) (location location' : Location) :
    (u.addMeta cls name tag location).1 = (u'.addMeta cls name tag location').1 ∧
      (u.addMeta cls name tag location).2.Respelled (u'.addMeta cls name tag location').2 := by
  have hsize : u'.arena.size = u.arena.size := h.arena.size
  have hext := u.extends_addMeta cls name tag location
  have hext' := u'.extends_addMeta cls name tag location'
  have hnew {id : NodeId} (hid : u.arena.size ≤ id.index) :
      (u.addMeta cls name tag location).2.arena.shape? id =
        (u'.addMeta cls name tag location').2.arena.shape? id := by
    have hnone : u.arena.shape? id = none := by
      simp [Arena.shape?, Arena.get?, Array.getElem?_eq_none hid]
    have hnone' : u'.arena.shape? id = none := by
      simp [Arena.shape?, Arena.get?, Array.getElem?_eq_none (hsize ▸ hid)]
    rw [shape?_addMeta, shape?_addMeta, hsize, hnone, hnone']
  refine ⟨by rw [property_addMeta, property_addMeta, hsize], h.id, ?_, ?_, h.pending, h.namespaces,
    fun {k} hk => ?_, fun {k text} hs hs' => ?_⟩
  · refine h.arena.extend hext hext' ?_ fun hid => ⟨hnew hid, fun c hc => ?_⟩
    · rw [size_addMeta, size_addMeta, hsize]
    · rw [children_addMeta hid hc]
  · rw [core_addMeta, core_addMeta, h.facts, hsize]
  · apply h.keys
    rintro ⟨text, hs, hs'⟩
    exact hk ⟨text, (hext.shape?_eq (Arena.lt_size_of_shape? hs)).trans hs,
      (hext'.shape?_eq (Arena.lt_size_of_shape? hs')).trans hs'⟩
  · have hold : k.index < u.arena.size := by
      by_contra hge
      rw [hnew (Nat.le_of_not_lt hge), hs'] at hs
      cases hs
    rw [hext.shape?_eq hold] at hs
    rw [hext'.shape?_eq (hsize ▸ hold)] at hs'
    exact h.spelled hs hs'

theorem Grounded.addMeta (h : u.Grounded) (hu : u.Sound) (cls : NodeId) (name : String)
    (tag : Doc.Attribute) (location : Location) :
    (u.addMeta cls name tag location).2.Grounded := by
  have hext := u.extends_addMeta cls name tag location
  have hkind : (u.addMeta cls name tag location).2.arena.kind? ⟨u.arena.size + 1⟩ =
      some .metaProperty := by
    rw [Arena.kind?_eq_map, shape?_addMeta, if_pos rfl]
    rfl
  refine ⟨fun {id c} hc hslot => ?_, fun hs => ?_, fun {k m} hm => ?_,
    fun {cls' properties m} hc hm => ?_, fun hget => ?_, fun ha => ?_⟩
  · by_cases hid : id.index < u.arena.size
    · rw [hext.children_eq hid] at hc
      have hcold := Nat.lt_trans (hu.ascending id c hc) hid
      rw [Arena.isSlot, hext.shape?_eq hcold] at hslot
      obtain ⟨kind, hk, hholds⟩ := h.nested hc hslot
      exact ⟨kind, hext.kind?_eq hk, hholds⟩
    · -- the name of a property is no slot
      obtain rfl := children_addMeta (Nat.le_of_not_lt hid) hc
      rw [Arena.isSlot, shape?_addMeta, if_neg (by simp), if_pos rfl] at hslot
      cases hslot
  · obtain ⟨hbelow, hstands⟩ := h.scopes hs
    exact ⟨hext.below hbelow, hext.stands hstands⟩
  · rw [declaration?_addMeta] at hm
    split at hm
    · cases hm
      exact .inl ⟨_, hkind, by decide⟩
    · exact hext.stands (h.declarations hm)
  · rw [metas_addMeta] at hc
    rcases NodeTable.mem_of_get?_append hc hm with ⟨-, rfl⟩ | ⟨old, hold, hm⟩
    · exact hkind
    · exact hext.kind?_eq (h.metas hold hm)
  · exact hext.kind?_eq (h.getters hget)
  · exact hext.stands (h.aliases ha)

theorem Twin.addMeta (h : u.Twin u') (cls : NodeId) (name : String) (tag : Doc.Attribute)
    (location location' : Location) :
    (u.addMeta cls name tag location).1 = (u'.addMeta cls name tag location').1 ∧
      (u.addMeta cls name tag location).2.Twin (u'.addMeta cls name tag location').2 := by
  obtain ⟨hproperty, hr⟩ := h.respelled.addMeta cls name tag location location'
  exact ⟨hproperty, hr, h.sound.addMeta, h.grounded.addMeta h.sound cls name tag location⟩

end SourceUnit

namespace Facts

variable {a : Arena} {f : Facts → Facts}

theorem notes_of_kept (hcore : ∀ x, (f x).core = (f x.core).core) (hnames : ∀ x, (f x).SameNames x)
    (haccessors : ∀ x, (f x).accessors = x.accessors) (haliases : ∀ x, (f x).aliases = x.aliases) :
    Notes a f :=
  ⟨hcore, hnames, fun h => .inl (haccessors _ ▸ h), fun h => .inl (haliases _ ▸ h)⟩

theorem notes_typeMeta (property : NodeId) (type : Option String) :
    Notes a (SourceUnit.typeMeta property type) := by
  refine notes_of_kept (fun x => ?_) (fun x => ?_) (fun x => ?_) fun x => ?_
  · cases type with
    | none => rfl
    | some type =>
      show (if x.typeOverrides.contains property then x else _ : Facts).core =
        (if x.typeOverrides.contains property then x.core else _ : Facts).core
      split <;> rfl
  · rw [SourceUnit.typeMeta_eq]
    exact ⟨rfl, rfl, rfl, rfl⟩
  · rw [SourceUnit.typeMeta_eq]
  · rw [SourceUnit.typeMeta_eq]

theorem notes_setAccessor (property : NodeId) {method : NodeId} (kind : AccessorKind)
    (hm : a.kind? method = some .methodDefinition) :
    Notes a (SourceUnit.setAccessor property method kind) where
  core x := rfl
  names x := ⟨rfl, rfl, rfl, rfl⟩
  getters hget := (SourceUnit.getter_setAccessor hget).imp_right fun he => by rw [he, hm]
  aliases h := .inl h

theorem notes_alias {cls : NodeId} (name : String) (hc : a.Stands cls) :
    Notes a fun f => { f with aliases := f.aliases.insert cls name } where
  core x := rfl
  names x := ⟨rfl, rfl, rfl, rfl⟩
  getters h := .inl h
  aliases {x cls' name'} h := by
    rw [NodeTable.get?_insert] at h
    split at h
    · next he => exact .inr (he ▸ hc)
    · exact .inl h

end Facts

theorem Arena.stands_of_classOf? {a : Arena} {id cls : NodeId} (h : a.classOf? id = some cls) :
    a.Stands cls := by
  obtain ⟨kind, hk, hclass⟩ := isClass_of_classOf? h
  refine .inl ⟨kind, hk, ?_⟩
  rintro rfl
  cases hclass

namespace SourceUnit.Twin

variable {u u' : SourceUnit} (h : u.Twin u')

include h

theorem metaNamed? (cls : NodeId) (name : String) :
    u.metaNamed? cls name = u'.metaNamed? cls name := by
  unfold SourceUnit.metaNamed?
  rw [← h.respelled.metas]
  cases hget : u.facts.metas.get? cls with
  | none => rfl
  | some properties =>
    refine List.find?_congr fun m hm => ?_
    have hk := h.grounded.metas hget hm
    rw [← h.respelled.arena.bind_shape? Shape.blind_nameNode?]
    cases hn : (u.arena.shape? m).bind Shape.nameNode? with
    | none => rfl
    | some key =>
      obtain ⟨s, hs, hkey⟩ := Option.bind_eq_some_iff.mp hn
      have hne : s.kind ≠ .propertyDefinition := by
        rw [Arena.kind?_eq_map, hs] at hk
        exact (Option.some.inj hk).trans_ne nofun
      rw [Option.bind_some, Option.bind_some,
        h.respelled.arena.identifierName? (h.respelled.arena.not_rewritten_of_nameNode hs hne hkey)]

theorem propertyNamed (cls : NodeId) (name : String) (tag : Doc.Attribute)
    (location location' : Location) :
    (u.propertyNamed cls name tag location).1 = (u'.propertyNamed cls name tag location').1 ∧
      (u.propertyNamed cls name tag location).2.Twin
        (u'.propertyNamed cls name tag location').2 := by
  unfold SourceUnit.propertyNamed
  rw [← h.metaNamed?]
  cases u.metaNamed? cls name with
  | some property => exact ⟨rfl, h⟩
  | none => exact h.addMeta cls name tag location location'

theorem recordMeta (cls : NodeId) (name : String) (tag : Doc.Attribute)
    {accessor : Option (AccessorKind × NodeId)} (location location' : Location)
    (ha : ∀ kind method, accessor = some (kind, method) →
      u.arena.kind? method = some .methodDefinition) :
    (u.recordMeta cls name tag accessor location).Twin
      (u'.recordMeta cls name tag accessor location') := by
  obtain ⟨hproperty, hv⟩ := h.propertyNamed cls name tag location location'
  have htype := hv.mapFacts
    (Facts.notes_typeMeta (u.propertyNamed cls name tag location).1 tag.type)
  cases accessor with
  | none =>
    rw [recordMeta_none, recordMeta_none, ← hproperty]
    exact htype
  | some x =>
    have hm := (u.extends_propertyNamed cls name tag location).kind?_eq (ha x.1 x.2 rfl)
    rw [recordMeta_some, recordMeta_some, ← hproperty]
    exact htype.mapFacts (Facts.notes_setAccessor _ x.1 hm)

theorem note {f : Facts → Facts} (hcore : ∀ x, (f x).core = (f x.core).core)
    (hnames : ∀ x, (f x).SameNames x) (haccessors : ∀ x, (f x).accessors = x.accessors)
    (haliases : ∀ x, (f x).aliases = x.aliases) : (u.mapFacts f).Twin (u'.mapFacts f) :=
  h.mapFacts (Facts.notes_of_kept hcore hnames haccessors haliases)

theorem overrideType (id : NodeId) (type : String) :
    (u.overrideType id type).Twin (u'.overrideType id type) :=
  h.note (fun _ => rfl) (fun _ => ⟨rfl, rfl, rfl, rfl⟩) (fun _ => rfl) fun _ => rfl

theorem overrideReturn (function : NodeId) (type : String) :
    (u.overrideReturn function type).Twin (u'.overrideReturn function type) :=
  h.note (fun _ => rfl) (fun _ => ⟨rfl, rfl, rfl, rfl⟩) (fun _ => rfl) fun _ => rfl

theorem applyType (target : NodeId) (type : String) :
    (u.applyType target type).Twin (u'.applyType target type) := by
  unfold SourceUnit.applyType
  rw [← h.respelled.arena.functionOf?, ← h.respelled.arena.classOf?]
  cases u.arena.functionOf? target with
  | some function => exact h.overrideReturn function type
  | none => exact h.overrideType _ type

theorem applyAccessor (target : NodeId) (tag : Doc.Attribute) (kind : AccessorKind)
    (location location' : Location) :
    (u.applyAccessor target tag kind location).Twin
      (u'.applyAccessor target tag kind location') := by
  have hkind := h.respelled.arena.kind?_eq_iff (k := .methodDefinition) nofun nofun target
  unfold SourceUnit.applyAccessor
  rw [← h.respelled.arena.enclosingClass?]
  by_cases hk : u.arena.kind? target = some .methodDefinition
  · rw [if_pos hk, if_pos (hkind.mp hk)]
    split
    · refine h.recordMeta _ _ tag location location' fun kind method he => ?_
      cases he
      exact hk
    · exact h
  · rw [if_neg hk, if_neg (hkind.not.mp hk)]
    exact h

theorem applyAttribute (config : Config) (target : NodeId) (location location' : Location)
    (tag : Doc.Attribute) : (SourceUnit.applyAttribute config target location u tag).Twin
      (SourceUnit.applyAttribute config target location' u' tag) := by
  have ha := h.respelled.arena
  unfold SourceUnit.applyAttribute
  rw [← ha.functionOf?, ← ha.classOf?, ← ha.enclosingClass?, ← ha.propertyOwner?,
    ← funext (ha.parameterNamed? target)]
  split
  · exact h.note (fun _ => rfl) (fun _ => ⟨rfl, rfl, rfl, rfl⟩) (fun _ => rfl) fun _ => rfl
  · split
    · exact h.applyType target _
    · exact h
  · split
    · exact h.overrideReturn _ _
    · exact h
  · split
    · exact h.overrideReturn _ _
    · exact h
  · split
    · exact h.overrideType _ _
    · exact h
  · split
    · next name cls _ hc => exact h.mapFacts (Facts.notes_alias name (Arena.stands_of_classOf? hc))
    · exact h
  · split
    · exact h.note (fun _ => rfl) (fun _ => ⟨rfl, rfl, rfl, rfl⟩) (fun _ => rfl) fun _ => rfl
    · exact h
  · split
    · exact h.recordMeta _ _ tag location location' nofun
    · exact h
  · exact h.applyAccessor target tag .getter location location'
  · exact h.applyAccessor target tag .setter location location'
  · exact h

theorem attachTo (config : Config) (target : NodeId) {c c' : Doc.Comment}
    (hc : c.attributes = c'.attributes) :
    (SourceUnit.attachTo config u target c).Twin (SourceUnit.attachTo config u' target c') := by
  unfold SourceUnit.attachTo
  rw [← hc]
  have hdocs := h.note (f := fun f => { f with docs := f.docs.insert target c.attributes })
    (fun _ => rfl) (fun _ => ⟨rfl, rfl, rfl, rfl⟩) (fun _ => rfl) fun _ => rfl
  revert hdocs
  generalize u.mapFacts _ = v
  generalize u'.mapFacts _ = v'
  intro hdocs
  induction c.attributes generalizing v v' with
  | nil => exact hdocs
  | cons tag tags ih => exact ih _ _ (hdocs.applyAttribute config target c.location c'.location tag)

end SourceUnit.Twin

end SquirrelAnalyzer
