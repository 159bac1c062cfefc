import SquirrelAnalyzer.Proofs.Declared
import SquirrelAnalyzer.Unit.Documentation

namespace SquirrelAnalyzer

namespace NodeTable

variable {α : Type}

theorem mem_of_get?_append {t : NodeTable (List α)} {id id' : NodeId} {x y : α} {xs : List α}
    (h : (t.append id x).get? id' = some xs) (hy : y ∈ xs) :
    (id' = id ∧ y = x) ∨ ∃ ys, t.get? id' = some ys ∧ y ∈ ys := by
  simp only [append, get?_insert] at h
  split at h
  · next he =>
    cases h
    rcases List.mem_append.mp hy with hy | hy
    · cases ht : t.get? id with
      | none =>
        rw [ht] at hy
        cases hy
      | some ys =>
        rw [ht] at hy
        exact .inr ⟨ys, he ▸ ht, hy⟩
    · exact .inl ⟨he, List.mem_singleton.mp hy⟩
  · exact .inr ⟨xs, h, hy⟩

theorem getD_get?_append (t : NodeTable (List α)) (id id' : NodeId) (x : α) :
    ((t.append id x).get? id').getD [] =
      (t.get? id').getD [] ++ if id = id' then [x] else [] := by
  simp only [append, get?_insert]
  by_cases he : id' = id
  · subst he
    simp
  · simp [he, Ne.symm he]

theorem getD_get?_group (entries : List (NodeId × α)) (id : NodeId) :
    ((group entries).get? id).getD [] = (entries.filter (·.1 = id)).map (·.2) := by
  suffices hfold : ∀ t : NodeTable (List α),
      ((entries.foldl (fun t e => t.append e.1 e.2) t).get? id).getD [] =
        (t.get? id).getD [] ++ (entries.filter (·.1 = id)).map (·.2) by
    rw [group, hfold, get?_empty, Option.getD_none, List.nil_append]
  induction entries with
  | nil => simp
  | cons e entries ih =>
    intro t
    rw [List.foldl_cons, ih, getD_get?_append, List.append_assoc]
    congr 1
    by_cases he : e.1 = id
    · simp [he]
    · simp [he]

theorem mem_group {entries : List (NodeId × α)} {id : NodeId} {xs : List α}
    (h : (group entries).get? id = some xs) {x : α} (hx : x ∈ xs) : (id, x) ∈ entries := by
  have hgroup := getD_get?_group entries id
  rw [h, Option.getD_some] at hgroup
  rw [hgroup] at hx
  obtain ⟨e, he, rfl⟩ := List.mem_map.mp hx
  obtain ⟨hmem, hid⟩ := List.mem_filter.mp he
  obtain rfl := of_decide_eq_true hid
  exact hmem

theorem get?_of_mem_toList {t : NodeTable α} {e : NodeId × α} (h : e ∈ t.toList) :
    t.get? e.1 = some e.2 := by
  obtain ⟨⟨slot, index⟩, hmem, he⟩ := List.mem_filterMap.mp h
  obtain ⟨value, rfl, rfl⟩ := Option.map_eq_some_iff.mp he
  have hslot := List.mem_zipIdx' hmem
  simp only [get?]
  rw [← Array.getElem?_toList, List.getElem?_eq_getElem hslot.1, ← hslot.2]
  rfl

end NodeTable

namespace Declared

variable {a a' : Arena} {b : Branch}

def Near (a : Arena) (b : Branch) (d : Declared) : Prop :=
  ∀ x ∈ d.visible, x.2.declaration = b ∨ ∃ c ∈ a.children .full b.target, x.2.declaration = b.child c

theorem near_child {d : Declared} {c : NodeId} {name : String}
    (hd : d.visible = [(b.target, ⟨name, b.child c⟩)]) (h : c ∈ a.children .full b.target) :
    Near a b d := by
  intro x hx
  rw [hd, List.mem_singleton] at hx
  subst hx
  exact .inr ⟨c, h, rfl⟩

theorem near_binds {m : NodeId} {d : Declared} (h : m ∈ a.children .full b.target)
    (hd : Binds a b m d) : Near a b d := by
  cases hd with
  | nothing => exact nofun
  | plain | defaulted => exact near_child rfl h

theorem near_parts (a : Arena) (b : Branch) : Parts a b (Near a b) where
  empty := nofun
  join h h' x hx := by
    rcases List.mem_append.mp hx with hx | hx
    · exact h x hx
    · exact h' x hx
  own _ _ _ _ h _ hx := .inl (h.declaration_eq hx)
  below _ _ _ _ _ _ _ h _ hx := .inl (h.declaration_eq hx)
  parameter hs hp := near_binds (Arena.mem_children_of_boundName hs hp) (binds_parameter ..)
  loopVariable hs hb := near_binds (Arena.mem_children_of_boundName hs hb) (binds_loopVariable ..)

theorem near_ofBranch (a : Arena) (b : Branch) : Near a b (ofBranch a b) := (near_parts a b).ofBranch

inductive Qualified (a : Arena) (b : Branch) : Prop
  | function {qualifier id : NodeId} {params : List NodeId} {body : NodeId}
      (h : a.shape? b.target = some (.functionDeclaration (some qualifier) id params body))
  | class {qualifier id : NodeId} {superclass : Option NodeId} {body : NodeId}
      (h : a.shape? b.target = some (.classDeclaration (some qualifier) id superclass body))
  | slot {left right object property : NodeId} {computed : Bool}
      (h : a.shape? b.target = some (.assignmentExpression .newSlot left right))
      (hl : a.shape? left = some (.memberExpression object property computed))
      (hk : a.isOpaqueKey computed property = false)

theorem isQualified_joinAll (ds : List Declared) : (joinAll ds).isQualified = false := by
  induction ds with
  | nil => rfl
  | cons d ds ih => exact ih

theorem qualified_of_isQualified (h : (ofBranch a b).isQualified = true) : Qualified a b := by
  unfold ofBranch at h
  split at h
  case h_2 => cases h
  next s hs =>
  cases s with
  | functionDeclaration qualifier id params body =>
    cases qualifier with
    | none => cases h
    | some qualifier => exact .function hs
  | classDeclaration qualifier id superclass body =>
    cases qualifier with
    | none => cases h
    | some qualifier => exact .class hs
  | propertyDefinition isStatic computed key value =>
    simp only [ofShape] at h
    split at h <;> cases h
  | functionExpression params body =>
    rw [ofShape, isQualified_joinAll] at h
    cases h
  | lambdaExpression params body =>
    rw [ofShape, isQualified_joinAll] at h
    cases h
  | foreachStatement index value object body =>
    rw [ofShape, isQualified_joinAll] at h
    cases h
  | tryStatement block param handler =>
    rw [ofShape, isQualified_joinAll] at h
    cases h
  | assignmentExpression operator left right =>
    cases operator with
    | newSlot =>
      simp only [ofShape, Arena.newSlot] at h
      split at h
      · cases h
      · cases h
      · next object property computed hl =>
        split at h
        · cases h
        · next hk => exact .slot hs hl (by simpa using hk)
      · cases h
    | _ => cases h
  | _ => cases h

end Declared

namespace Arena

variable {a a' : Arena} {b : Branch}

theorem Extends.qualified (h : a.Extends a') (ha : a.Ascending) (hb : Declared.Qualified a b) :
    Declared.Qualified a' b := by
  cases hb with
  | function hs => exact .function ((h.shape?_eq (lt_size_of_shape? hs)).trans hs)
  | «class» hs => exact .class ((h.shape?_eq (lt_size_of_shape? hs)).trans hs)
  | slot hs hl hk =>
    refine .slot ((h.shape?_eq (lt_size_of_shape? hs)).trans hs)
      ((h.shape?_eq (lt_size_of_shape? hl)).trans hl) ?_
    rename_i left right object property computed
    have hp : property.index < a.size := by
      refine Nat.lt_trans (ha left property ?_) (lt_size_of_shape? hl)
      rw [children_of_shape? hl]
      simp [Shape.children, Shape.kind, Kind.fields, Shape.field]
    simpa only [isOpaqueKey, literalText?, h.shape?_eq hp] using hk

theorem isSyntactic_of_below {b' : Branch} (hb : a.isSyntactic b = true) (h : a.Below b b') :
    a.isSyntactic b' = true := by
  induction h with
  | refl b => exact hb
  | @child b b' c hc _ ih =>
    apply ih
    simp only [isSyntactic, Branch.child, isSyntactic.go, Bool.and_eq_true, List.contains_iff_mem]
    exact ⟨hc, hb⟩

theorem isSyntactic_of_mem_enclosing_go {inner : NodeId} {ids : List NodeId} {e : Branch × NodeId}
    (h : isSyntactic.go a inner ids = true) (he : e ∈ Branch.enclosing.go b inner ids) :
    a.isSyntactic e.1 = true := by
  induction ids generalizing inner with
  | nil => cases he
  | cons x ids ih =>
    simp only [isSyntactic.go, Bool.and_eq_true] at h
    rcases List.mem_cons.mp he with rfl | he
    · exact h.2
    · exact ih h.2 he

theorem isSyntactic_of_mem_upward {c : Branch} (h : a.isSyntactic b = true) (hc : c ∈ b.upward) :
    a.isSyntactic c = true := by
  rcases List.mem_cons.mp hc with rfl | hc
  · exact h
  · obtain ⟨e, he, rfl⟩ := List.mem_map.mp hc
    exact isSyntactic_of_mem_enclosing_go h he

theorem isSyntactic_root (a : Arena) : a.isSyntactic a.rootBranch = true := by
  simp [isSyntactic, rootBranch, isSyntactic.go]

end Arena

structure Facts.SameNames (f f' : Facts) : Prop where
  scopes : f.scopes = f'.scopes
  metas : f.metas = f'.metas
  declarations : f.declarations = f'.declarations
  keys : f.normalizedKeys = f'.normalizedKeys

def AccessorKind.tag : AccessorKind → String
  | getter => "getter"
  | setter => "setter"

namespace SourceUnit

theorem extends_addMeta (u : SourceUnit) (cls : NodeId) (name : String) (tag : Doc.Attribute)
    (location : Location) : u.arena.Extends (u.addMeta cls name tag location).2.arena :=
  (Arena.Extends.add u.arena location _).trans (.add _ location _)

section AddMeta

variable (u : SourceUnit) (cls : NodeId) (name : String) (tag : Doc.Attribute) (location : Location)

theorem property_addMeta : (u.addMeta cls name tag location).1 = ⟨u.arena.size + 1⟩ :=
  congrArg NodeId.mk (u.arena.size_add location (.identifier name))

theorem size_addMeta : (u.addMeta cls name tag location).2.arena.size = u.arena.size + 2 := by
  show ((u.arena.add location (.identifier name)).2.add location _).2.size = u.arena.size + 2
  rw [Arena.size_add, Arena.size_add]

theorem metas_addMeta : (u.addMeta cls name tag location).2.facts.metas =
    u.facts.metas.append cls ⟨u.arena.size + 1⟩ := by
  rw [← u.property_addMeta cls name tag location]
  rfl

end AddMeta

structure Sound (u : SourceUnit) : Prop where
  unit : u.arena.unit = u.id
  rooted : u.arena.Rooted
  ascending : u.arena.Ascending
  scopes : ∀ node names, u.facts.scopes.get? node = some names → ∀ s ∈ names,
    s.declaration.unit = u.id ∧ u.arena.Holds s.declaration
  metas : ∀ cls properties, u.facts.metas.get? cls = some properties → ∀ m ∈ properties,
    m.index < u.arena.size
  pending : ∀ b ∈ u.pending, u.arena.Below u.arena.rootBranch b ∧ Declared.Qualified u.arena b
  nodup : (u.pending.map (·.target)).Nodup

namespace Sound

variable {u : SourceUnit}

theorem mapFacts (h : u.Sound) {f : Facts → Facts} (hs : (f u.facts).scopes = u.facts.scopes)
    (hm : (f u.facts).metas = u.facts.metas) : (u.mapFacts f).Sound where
  unit := h.unit
  rooted := h.rooted
  ascending := h.ascending
  scopes node names hn := h.scopes node names (hs ▸ hn)
  metas cls properties hc := h.metas cls properties (hm ▸ hc)
  pending := h.pending
  nodup := h.nodup

theorem extend (h : u.Sound) {a : Arena} {facts : Facts} {outline : Outline}
    (ha : u.arena.Extends a) (hasc : a.Ascending) (hs : facts.scopes = u.facts.scopes)
    (hm : ∀ cls properties, facts.metas.get? cls = some properties → ∀ m ∈ properties,
      m.index < a.size) : ({ u with arena := a, facts, outline } : SourceUnit).Sound where
  unit := ha.unit.trans h.unit
  rooted := ha.rooted h.rooted
  ascending := hasc
  scopes node names hn s hmem := by
    obtain ⟨hu, hb⟩ := h.scopes node names (hs ▸ hn) s hmem
    exact ⟨hu, ha.holds hb⟩
  metas := hm
  pending b hb := by
    have hroot : a.rootBranch = u.arena.rootBranch := by
      simp only [Arena.rootBranch, ha.unit, ha.root]
    rw [hroot]
    exact ⟨ha.below (h.pending b hb).1, ha.qualified h.ascending (h.pending b hb).2⟩
  nodup := h.nodup

theorem addMeta (h : u.Sound) {cls : NodeId} {name : String} {tag : Doc.Attribute}
    {location : Location} : (u.addMeta cls name tag location).2.Sound := by
  have hkey := Arena.Extends.add u.arena location (.identifier name)
  have hproperty := Arena.Extends.add (u.arena.add location (.identifier name)).2 location
    (.metaProperty (u.arena.add location (.identifier name)).1)
  have hsize := u.arena.size_add location (.identifier name)
  refine h.extend (hkey.trans hproperty) ?_ rfl ?_
  · refine Arena.Ascending.add (h.ascending.add ?_) ?_
    · simp [Shape.children, Shape.kind, Kind.fields]
    · intro c hc
      obtain rfl : c = (u.arena.add location (.identifier name)).1 := List.mem_singleton.mp hc
      rw [hsize]
      exact Nat.lt_succ_self _
  · intro cls' properties hc m hm
    have hle := (hkey.trans hproperty).size
    rcases NodeTable.mem_of_get?_append hc hm with ⟨-, rfl⟩ | ⟨old, hold, hm⟩
    · simp [Arena.size]
    · exact Nat.lt_of_lt_of_le (h.metas cls' old hold m hm) hle

end Sound

theorem typeMeta_eq (property : NodeId) (type : Option String) (f : Facts) :
    typeMeta property type f =
      { f with typeOverrides := (typeMeta property type f).typeOverrides } := by
  unfold typeMeta
  split
  · split <;> rfl
  · rfl

structure Amends (u : SourceUnit) (f : Facts) : Prop extends f.SameNames u.facts where
  getters : ∀ {id m}, (f.accessors.get? id).bind (·.getter) = some m →
    (u.facts.accessors.get? id).bind (·.getter) = some m ∨
      u.arena.kind? m = some .methodDefinition

theorem Amends.of_sameNames {u : SourceUnit} {f : Facts} (h : f.SameNames u.facts)
    (ha : f.accessors = u.facts.accessors) : u.Amends f :=
  ⟨h, fun hm => .inl (ha ▸ hm)⟩

theorem getter_setAccessor {facts : Facts} {property method id m : NodeId} {kind : AccessorKind}
    (h : ((setAccessor property method kind facts).accessors.get? id).bind (·.getter) = some m) :
    (facts.accessors.get? id).bind (·.getter) = some m ∨ m = method := by
  unfold setAccessor at h
  rw [NodeTable.get?_insert] at h
  split at h
  · next hid =>
    cases kind with
    | getter =>
      cases h
      exact .inr rfl
    | setter =>
      subst hid
      refine .inl ?_
      cases ho : facts.accessors.get? id with
      | none =>
        rw [ho] at h
        cases h
      | some old =>
        rw [ho] at h
        exact h
  · exact .inl h

section RecordMeta

variable {u : SourceUnit} {cls : NodeId} {name : String} {tag : Doc.Attribute}
  {location : Location}

def propertyNamed (u : SourceUnit) (cls : NodeId) (name : String) (tag : Doc.Attribute)
    (location : Location) : NodeId × SourceUnit :=
  match u.metaNamed? cls name with
  | some property => (property, u)
  | none => u.addMeta cls name tag location

theorem extends_propertyNamed (u : SourceUnit) (cls : NodeId) (name : String)
    (tag : Doc.Attribute) (location : Location) :
    u.arena.Extends (u.propertyNamed cls name tag location).2.arena := by
  unfold propertyNamed
  split
  · exact .refl _
  · exact u.extends_addMeta cls name tag location

theorem recordMeta_none : u.recordMeta cls name tag none location =
    (u.propertyNamed cls name tag location).2.mapFacts
      (typeMeta (u.propertyNamed cls name tag location).1 tag.type) := rfl

theorem recordMeta_some {x : AccessorKind × NodeId} :
    u.recordMeta cls name tag (some x) location =
      ((u.propertyNamed cls name tag location).2.mapFacts
        (typeMeta (u.propertyNamed cls name tag location).1 tag.type)).mapFacts
          (setAccessor (u.propertyNamed cls name tag location).1 x.2 x.1) := rfl

theorem recordMeta_steps {motive : SourceUnit → Prop} {accessor : Option (AccessorKind × NodeId)}
    (h : motive u) (hadd : motive (u.addMeta cls name tag location).2)
    (htype : ∀ v property, motive v → motive (v.mapFacts (typeMeta property tag.type)))
    (haccessor : ∀ v property x, accessor = some x → motive v →
      motive (v.mapFacts (setAccessor property x.2 x.1))) :
    motive (u.recordMeta cls name tag accessor location) := by
  have hnamed : motive (u.propertyNamed cls name tag location).2 := by
    unfold propertyNamed
    split
    · exact h
    · exact hadd
  cases accessor with
  | none =>
    rw [recordMeta_none]
    exact htype _ _ hnamed
  | some x =>
    rw [recordMeta_some]
    exact haccessor _ _ x rfl (htype _ _ hnamed)

end RecordMeta

inductive Applied (u : SourceUnit) (config : Config) (target : NodeId) (location : Location)
    (tag : Doc.Attribute) : SourceUnit → Prop
  | deprecated (hkind : tag.kind = "deprecated") : Applied u config target location tag
    (u.mapFacts fun f =>
      { f with deprecated := f.deprecated.insert target (tag.documentation.getD "") })
  | returns {function : NodeId} {type : String} (hkind : tag.kind ∈ ["type", "returns", "return"])
    (htype : tag.type = some type) (hfunction : u.arena.functionOf? target = some function) :
    Applied u config target location tag (u.overrideReturn function type)
  | type {type : String} (hkind : tag.kind = "type") (htype : tag.type = some type)
    (hfunction : u.arena.functionOf? target = none) :
    Applied u config target location tag
      (u.overrideType ((u.arena.classOf? target).getD target) type)
  | param {param : NodeId} {name type : String} (hkind : tag.kind = "param")
    (htype : tag.type = some type) (hparam : u.arena.parameterNamed? target name = some param) :
    Applied u config target location tag (u.overrideType param type)
  | aliased {cls : NodeId} {name : String} (hkind : tag.kind = "alias")
    (hcls : u.arena.classOf? target = some cls) :
    Applied u config target location tag
      (u.mapFacts fun f => { f with aliases := f.aliases.insert cls name })
  | augments {cls : NodeId} {name : String} (hkind : tag.kind = "augments") :
    Applied u config target location tag
      (u.mapFacts fun f => { f with augments := f.augments.insert cls name })
  | property {cls : NodeId} {name : String} (hkind : tag.kind = "property")
    (hname : tag.name = some name) (hcls : u.arena.propertyOwner? config target = some cls) :
    Applied u config target location tag (u.recordMeta cls name tag none location)
  | accessor {kind : AccessorKind} {cls : NodeId} {name : String} (hkind : tag.kind = kind.tag)
    (hname : tag.name = some name) (hmethod : u.arena.kind? target = some .methodDefinition)
    (hcls : u.arena.enclosingClass? target = some cls) :
    Applied u config target location tag
      (u.recordMeta cls name tag (some (kind, target)) location)
  | nothing (hdeprecated : tag.kind ≠ "deprecated")
    (hreturns : tag.kind ∈ ["type", "returns", "return"] → ∀ type, tag.type = some type →
      u.arena.functionOf? target = none)
    (hproperty : tag.kind = "property" → ∀ name, tag.name = some name →
      u.arena.propertyOwner? config target = none)
    (haccessor : tag.kind ∈ ["getter", "setter"] →
      u.arena.kind? target = some .methodDefinition → ∀ name, tag.name = some name →
        u.arena.enclosingClass? target = none) :
    Applied u config target location tag u

section Applied

variable (u : SourceUnit) (config : Config) (target : NodeId) (location : Location)
  (tag : Doc.Attribute)

theorem applied_applyAccessor (kind : AccessorKind) (hkind : tag.kind = kind.tag) :
    u.Applied config target location tag (u.applyAccessor target tag kind location) := by
  have hnothing (h : u.arena.kind? target = some .methodDefinition → ∀ name,
      tag.name = some name → u.arena.enclosingClass? target = none) :
      u.Applied config target location tag u := by
    cases kind <;> exact .nothing (by simp [hkind, AccessorKind.tag])
      (by simp [hkind, AccessorKind.tag]) (by simp [hkind, AccessorKind.tag]) fun _ => h
  unfold applyAccessor
  split
  · next hmethod =>
    split
    · next name cls hname hcls => exact .accessor hkind hname hmethod hcls
    · next hnone =>
      exact hnothing fun _ name hname => Option.eq_none_iff_forall_ne_some.mpr (hnone name · hname)
  · next hmethod => exact hnothing fun h => absurd h hmethod

theorem applied_applyAttribute :
    u.Applied config target location tag (applyAttribute config target location u tag) := by
  unfold applyAttribute
  split
  case h_3 hkind | h_4 hkind =>
    split
    · next type function htype hfunction => exact .returns (by simp [hkind]) htype hfunction
    · next hnone =>
      refine .nothing (by simp [hkind]) (fun _ type htype => ?_) (by simp [hkind]) (by simp [hkind])
      exact Option.eq_none_iff_forall_ne_some.mpr (hnone type · htype)
  · next hkind => exact .deprecated hkind
  · next hkind =>
    split
    · next type htype =>
      unfold applyType
      split
      · next function hfunction => exact .returns (by simp [hkind]) htype hfunction
      · next hfunction => exact .type hkind htype hfunction
    · next htype =>
      exact .nothing (by simp [hkind]) (by simp [htype]) (by simp [hkind]) (by simp [hkind])
  · next hkind =>
    split
    · next type param htype hparam =>
      obtain ⟨name, -, hparam⟩ := Option.bind_eq_some_iff.mp hparam
      exact .param hkind htype hparam
    · exact .nothing (by simp [hkind]) (by simp [hkind]) (by simp [hkind]) (by simp [hkind])
  · next hkind =>
    split
    · next name cls _ hcls => exact .aliased hkind hcls
    · exact .nothing (by simp [hkind]) (by simp [hkind]) (by simp [hkind]) (by simp [hkind])
  · next hkind =>
    split
    · exact .augments hkind
    · exact .nothing (by simp [hkind]) (by simp [hkind]) (by simp [hkind]) (by simp [hkind])
  · next hkind =>
    split
    · next name cls hname hcls => exact .property hkind hname hcls
    · next hnone =>
      refine .nothing (by simp [hkind]) (by simp [hkind]) (fun _ name hname => ?_) (by simp [hkind])
      exact Option.eq_none_iff_forall_ne_some.mpr (hnone name · hname)
  · next hkind => exact u.applied_applyAccessor config target location tag .getter hkind
  · next hkind => exact u.applied_applyAccessor config target location tag .setter hkind
  · next hdeprecated htype hreturns hreturn _ _ _ hproperty hgetter hsetter =>
    exact .nothing hdeprecated
      (fun h => absurd h (by simpa using ⟨htype, hreturns, hreturn⟩))
      (fun h => absurd h hproperty) fun h => absurd h (by simpa using ⟨hgetter, hsetter⟩)

end Applied

section

variable {motive : SourceUnit → Prop}
  (hmap : ∀ u f, motive u → u.Amends (f u.facts) → motive (u.mapFacts f))
  (hadd : ∀ u cls name tag location, motive u → motive (u.addMeta cls name tag location).2)

include hmap hadd

theorem recordMeta_induction {u : SourceUnit} (h : motive u) {cls : NodeId} {name : String}
    {tag : Doc.Attribute} {accessor : Option (AccessorKind × NodeId)} {location : Location}
    (haccessor : ∀ x, accessor = some x → u.arena.kind? x.2 = some .methodDefinition) :
    motive (u.recordMeta cls name tag accessor location) := by
  -- a method of the unit stays a method
  suffices hkept : motive (u.recordMeta cls name tag accessor location) ∧
      u.arena.Extends (u.recordMeta cls name tag accessor location).arena from hkept.1
  refine recordMeta_steps (motive := fun v => motive v ∧ u.arena.Extends v.arena) ⟨h, .refl _⟩
    ⟨hadd u cls name tag location h, u.extends_addMeta cls name tag location⟩
    (fun v property hv => ⟨hmap v _ hv.1 ?_, hv.2⟩)
    fun v property x hx hv => ⟨hmap v _ hv.1 ?_, hv.2⟩
  · rw [typeMeta_eq]
    exact .of_sameNames ⟨rfl, rfl, rfl, rfl⟩ rfl
  · refine ⟨⟨rfl, rfl, rfl, rfl⟩, fun hm => (getter_setAccessor hm).imp_right fun he => ?_⟩
    rw [he]
    exact hv.2.kind?_eq (haccessor x hx)

theorem Applied.induction {u v : SourceUnit} {config : Config} {target : NodeId}
    {location : Location} {tag : Doc.Attribute} (hv : u.Applied config target location tag v)
    (h : motive u) : motive v := by
  have hfacts (f : Facts → Facts) (hnames : (f u.facts).SameNames u.facts)
      (haccessors : (f u.facts).accessors = u.facts.accessors) : motive (u.mapFacts f) :=
    hmap u f h (.of_sameNames hnames haccessors)
  cases hv with
  | deprecated | returns | type | param | aliased | augments =>
    exact hfacts _ ⟨rfl, rfl, rfl, rfl⟩ rfl
  | property => exact recordMeta_induction hmap hadd h nofun
  | accessor _ _ hmethod =>
    refine recordMeta_induction hmap hadd h ?_
    rintro _ ⟨⟩
    exact hmethod
  | nothing => exact h

theorem attachComments_induction {u : SourceUnit} (h : motive u) (config : Config) :
    motive (attachComments config u) := by
  have hattach (target : NodeId) (c : Doc.Comment) {v : SourceUnit} (hv : motive v) :
      motive (attachTo config v target c) := by
    unfold attachTo
    refine List.foldlRecOn c.attributes _ (motive := motive)
      (hmap v _ hv (.of_sameNames ⟨rfl, rfl, rfl, rfl⟩ rfl)) ?_
    exact fun v hv tag _ => (v.applied_applyAttribute _ _ _ tag).induction hmap hadd hv
  unfold attachComments
  refine List.foldlRecOn u.arena.comments _ (motive := motive) h fun v hv c _ => ?_
  split
  · exact hattach _ c hv
  · exact hv

end

theorem pending_ofArena (config : Config) (a : Arena) : (ofArena config a).pending =
    (a.preorder a.rootBranch).filter fun b => (Declared.ofBranch a b).isQualified := by
  simp only [ofArena, List.filter_map, List.map_map, Function.comp_def, List.map_id']

theorem sound_ofArena (config : Config) {a : Arena} (ha : a.Rooted) (hsize : a.parsedSize = a.size) :
    (ofArena config a).Sound where
  unit := rfl
  rooted := ha
  ascending := ha.ascending hsize
  scopes node names hn s hs := by
    obtain ⟨x, hx, hd⟩ := List.mem_flatMap.mp (NodeTable.mem_group hn hs)
    obtain ⟨b, hb, rfl⟩ := List.mem_map.mp hx
    have hbelow := Arena.preorderUpTo_below hb
    have hholds := ha.holds_root.below (ha.ascending hsize) hbelow
    rcases Declared.near_ofBranch a b (node, s) hd with he | ⟨c, hc, he⟩
    · rw [he]
      exact ⟨hbelow.unit_eq, hholds⟩
    · rw [he]
      exact ⟨hbelow.unit_eq, hholds.child (ha.ascending hsize) hc⟩
  metas cls properties hc := by
    rw [show (ofArena config a).facts.metas = ∅ from rfl, NodeTable.get?_empty] at hc
    cases hc
  pending b hpending := by
    rw [pending_ofArena] at hpending
    obtain ⟨hb, hd⟩ := List.mem_filter.mp hpending
    exact ⟨Arena.preorderUpTo_below hb, Declared.qualified_of_isQualified hd⟩
  nodup := by
    rw [pending_ofArena]
    exact ha.nodup_preorder.sublist (List.filter_sublist.map _)

theorem sound_build (config : Config) (id : UnitId) {a : Arena} (ha : a.Parsed) :
    (build config id a).Sound :=
  attachComments_induction (fun _ _ h hn => h.mapFacts hn.scopes hn.metas) (fun _ _ _ _ _ h => h.addMeta)
    (sound_ofArena config (ha.withUnit id) ha.whole) config

@[simp] theorem id_build (config : Config) (id : UnitId) (a : Arena) :
    (build config id a).id = id :=
  attachComments_induction (motive := fun u => u.id = id) (fun _ _ h _ => h)
    (fun _ _ _ _ _ h => h) rfl config

@[simp] theorem namespaces_build (config : Config) (id : UnitId) (a : Arena) :
    (build config id a).namespaces = [] :=
  attachComments_induction (motive := fun u => u.namespaces = []) (fun _ _ h _ => h)
    (fun _ _ _ _ _ h => h) rfl config

end SourceUnit

end SquirrelAnalyzer
