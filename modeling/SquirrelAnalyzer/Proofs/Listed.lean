import SquirrelAnalyzer.Proofs.Mentioned
import SquirrelAnalyzer.Proofs.Mirrored
import SquirrelAnalyzer.Proofs.Respelled.Documented
import SquirrelAnalyzer.Proofs.Trail

namespace SquirrelAnalyzer

theorem eraseDups_concat {α : Type} [BEq α] [LawfulBEq α] (l : List α) (x : α) :
    (l ++ [x]).eraseDups = if x ∈ l then l.eraseDups else l.eraseDups ++ [x] := by
  rw [List.eraseDups_append]
  by_cases h : x ∈ l
  · simp [List.removeAll, h]
  · simp [List.removeAll, h, List.eraseDups_cons]

theorem nodup_eraseDups {α : Type} [BEq α] [LawfulBEq α] (l : List α) : l.eraseDups.Nodup := by
  induction l using List.reverseRecOn with
  | nil => exact List.nodup_nil
  | append_singleton l x ih =>
    rw [eraseDups_concat]
    split
    · exact ih
    · next h =>
      refine List.nodup_append.mpr ⟨ih, List.nodup_singleton x, ?_⟩
      rintro y hy z hz rfl
      exact h (List.mem_singleton.mp hz ▸ List.mem_eraseDups.mp hy)

def namesOf (cls : NodeId) (keys : List (NodeId × String)) : List String :=
  ((keys.filter (·.1 = cls)).map (·.2)).eraseDups

theorem mem_namesOf {cls : NodeId} {name : String} {keys : List (NodeId × String)} :
    name ∈ namesOf cls keys ↔ (cls, name) ∈ keys := by
  rw [namesOf, List.mem_eraseDups]
  constructor
  · intro h
    obtain ⟨key, hkey, rfl⟩ := List.mem_map.mp h
    obtain ⟨hmem, hcls⟩ := List.mem_filter.mp hkey
    obtain rfl := of_decide_eq_true hcls
    exact hmem
  · intro h
    exact List.mem_map.mpr ⟨(cls, name), List.mem_filter.mpr ⟨h, decide_eq_true rfl⟩, rfl⟩

theorem namesOf_concat (cls : NodeId) (keys : List (NodeId × String)) (key : NodeId × String) :
    namesOf cls (keys ++ [key]) =
      namesOf cls keys ++ if key.1 = cls ∧ key ∉ keys then [key.2] else [] := by
  obtain ⟨cls', name⟩ := key
  by_cases hcls : cls' = cls
  · subst hcls
    have hmem : name ∈ (keys.filter (·.1 = cls')).map (·.2) ↔ (cls', name) ∈ keys := by
      rw [← mem_namesOf, namesOf, List.mem_eraseDups]
    simp only [namesOf, List.filter_append, List.map_append, List.filter_cons, List.filter_nil,
      decide_true, if_true, List.map_cons, List.map_nil, eraseDups_concat, hmem, true_and]
    by_cases h : (cls', name) ∈ keys
    · rw [if_pos h, if_neg (not_not_intro h), List.append_nil]
    · rw [if_neg h, if_pos h]
  · simp [namesOf, hcls]

theorem Tree.Fits.role_of_classDeclaration {t : Tree} {r : Role} (h : t.Fits r)
    (hk : t.shape.kind = .classDeclaration) : r = .statement := by
  induction h with
  | ofBlock _ ih | ofVariables _ ih | ofExpression _ ih | initialVariables _ ih | ofName _ ih
  | propertyName _ ih | ownerName _ ih | identifier _ ih | function _ ih => cases ih hk
  | classDeclaration => rfl
  | _ => cases hk

theorem Shape.statement_notMem_partRoles {t : Shape NodeId} {v : NodeId}
    (h : t.storedValue? = some v) : Tree.Role.statement ∉ t.kind.partRoles := by
  cases t with
  | variableDeclarator | enumMember | propertyDefinition | methodDefinition
  | assignmentExpression => simp [kind, Kind.partRoles]
  | _ => cases h

namespace Arena

variable {a : Arena} {cls m key : NodeId} {t : Shape NodeId} {s s' : Symbol}

theorem IsClass.shape?_of_declares (h : a.IsClass cls) (hkey : a.declaredName? cls = some key) :
    ∃ t, a.shape? cls = some t ∧ t.kind = .classDeclaration := by
  obtain ⟨kind, hk, hclass⟩ := h
  rw [kind?_eq_map] at hk
  obtain ⟨t, ht, rfl⟩ := Option.map_eq_some_iff.mp hk
  refine ⟨t, ht, ?_⟩
  cases t with
  | classDeclaration => rfl
  | classExpression =>
    rw [declaredName?, ht] at hkey
    cases hkey
  | _ => cases hclass

theorem Grammatical.storedValue?_ne (h : a.Grammatical) (hcls : a.IsClass cls)
    (hkey : a.declaredName? cls = some key) (ht : a.shape? m = some t) :
    t.storedValue? ≠ some cls := by
  intro hv
  obtain ⟨c, hc, hkind⟩ := hcls.shape?_of_declares hkey
  rcases h.fits ht with ⟨body, rfl⟩ | ⟨r, hfits⟩
  · cases hv
  · have htree := h.shape_tree ht
    obtain ⟨r', hr', hpart⟩ := hfits.part (a.tree cls) (by
      rw [htree, Shape.children_map]
      exact List.mem_map_of_mem (Shape.mem_children_of_storedValue hv))
    rw [htree, Shape.kind_map] at hr'
    have hr : r' = .statement := hpart.role_of_classDeclaration (by
      rw [h.shape_tree hc, Shape.kind_map, hkind])
    exact Shape.statement_notMem_partRoles hv (hr ▸ hr')

theorem Grammatical.eq_of_describes (h : a.Grammatical) (hcls : a.IsClass cls)
    (hs : s ∈ a.outline.preorder) (hs' : s' ∈ a.outline.preorder)
    (hd : s.describes cls = true) (hd' : s'.describes cls = true) : s = s' := by
  have hnode {x : Symbol} (hx : x ∈ a.outline.preorder) (he : x.node = cls) :
      ∃ key, a.declaredName? cls = some key := by
    obtain ⟨key, hkey, -⟩ := (h.mirrors.symbols x hx).name
    exact ⟨key, he ▸ hkey⟩
  have hvalue {x : Symbol} (hx : x ∈ a.outline.preorder) (he : x.value = some cls) :
      ∃ t, a.shape? x.node = some t ∧ t.storedValue? = some cls := by
    rw [outline, preorder_outlineUpTo] at hx
    obtain ⟨b, -, hb⟩ := List.mem_filterMap.mp hx
    obtain ⟨hn, t, -, ht, hv, -⟩ := of_symbol_ofBranch hb he
    exact ⟨t, hn ▸ ht, hv⟩
  have hcases {x : Symbol} (hx : x.describes cls = true) : x.node = cls ∨ x.value = some cls := by
    simpa [Symbol.describes] using hx
  refine List.inj_on_of_nodup_map h.mirrors.once hs hs' ?_
  rcases hcases hd with he | he <;> rcases hcases hd' with he' | he'
  · rw [he, he']
  · obtain ⟨key, hkey⟩ := hnode hs he
    obtain ⟨t, ht, hv⟩ := hvalue hs' he'
    exact absurd hv (h.storedValue?_ne hcls hkey ht)
  · obtain ⟨key, hkey⟩ := hnode hs' he'
    obtain ⟨t, ht, hv⟩ := hvalue hs he
    exact absurd hv (h.storedValue?_ne hcls hkey ht)
  · obtain ⟨t, ht, hv⟩ := hvalue hs he
    obtain ⟨t', ht', hv'⟩ := hvalue hs' he'
    refine h.parent_unique (c := cls) ?_ ?_
    · rw [children_of_shape? ht']
      exact Shape.mem_children_of_storedValue hv'
    · rw [children_of_shape? ht]
      exact Shape.mem_children_of_storedValue hv

end Arena

namespace SourceUnit

def metasOf (u : SourceUnit) (cls : NodeId) : List NodeId := (u.facts.metas.get? cls).getD []

def metaName? (u : SourceUnit) (m : NodeId) : Option String :=
  ((u.arena.shape? m).bind Shape.nameNode?).bind u.arena.identifierName?

variable {a : Arena} {o : Outline} {keys : List (NodeId × String)} {u : SourceUnit}
  {cls cls' m p : NodeId} {name name' : String} {tag : Doc.Attribute} {location l : Location}

theorem metaName?_extends {v : SourceUnit} (h : u.arena.Extends v.arena)
    (hm : u.metaName? m = some name) : v.metaName? m = some name := by
  obtain ⟨key, hkey, hname⟩ := Option.bind_eq_some_iff.mp hm
  obtain ⟨s, hs, hkey⟩ := Option.bind_eq_some_iff.mp hkey
  simp only [metaName?, h.shape?_of hs, Option.bind_some, hkey, h.identifierName? hname]

theorem metasOf_mapFacts {f : Facts → Facts} (h : (f u.facts).metas = u.facts.metas)
    (cls : NodeId) : (u.mapFacts f).metasOf cls = u.metasOf cls := by
  rw [metasOf, mapFacts, h]
  rfl

section AddMeta

variable (u : SourceUnit) (cls : NodeId) (name : String) (tag : Doc.Attribute) (location : Location)

theorem metasOf_addMeta (cls' : NodeId) : (u.addMeta cls name tag location).2.metasOf cls' =
    u.metasOf cls' ++ if cls = cls' then [⟨u.arena.size + 1⟩] else [] := by
  rw [metasOf, metas_addMeta, NodeTable.getD_get?_append]
  rfl

theorem mem_metasOf_addMeta {cls' m : NodeId} :
    m ∈ (u.addMeta cls name tag location).2.metasOf cls' ↔
      m ∈ u.metasOf cls' ∨ cls = cls' ∧ m = ⟨u.arena.size + 1⟩ := by
  rw [metasOf_addMeta, List.mem_append]
  split
  · next h => simp only [List.mem_singleton, h, true_and]
  · next h => simp only [List.not_mem_nil, h, false_and]

theorem location?_addMeta :
    (u.addMeta cls name tag location).2.arena.location? ⟨u.arena.size + 1⟩ = some location := by
  rw [← u.arena.size_add location (.identifier name)]
  exact congrArg (Option.map Node.location) Array.getElem?_push_size

theorem metaName?_addMeta :
    (u.addMeta cls name tag location).2.metaName? ⟨u.arena.size + 1⟩ = some name := by
  simp [metaName?, Arena.identifierName?, shape?_addMeta, Shape.nameNode?, Shape.identifierName?]

end AddMeta

structure Listed (a : Arena) (keys : List (NodeId × String)) (u : SourceUnit) : Prop where
  kept : a.Extends u.arena
  pairs : ∃ n, u.arena.size = a.size + 2 * n ∧ ∀ k < n,
    (∃ name, u.arena.shape? ⟨a.size + 2 * k⟩ = some (.identifier name)) ∧
      u.arena.shape? ⟨a.size + 2 * k + 1⟩ = some (.metaProperty ⟨a.size + 2 * k⟩)
  listed : ∀ m key, u.arena.shape? m = some (.metaProperty key) → ∃! cls, m ∈ u.metasOf cls
  metas : ∀ cls, ∀ m ∈ u.metasOf cls,
    a.IsClass cls ∧ ∃ key, u.arena.shape? m = some (.metaProperty key)
  names : ∀ cls, (u.metasOf cls).map u.metaName? = (namesOf cls keys).map some

namespace Listed

theorem mapFacts (h : u.Listed a keys) {f : Facts → Facts}
    (hf : (f u.facts).metas = u.facts.metas) : (u.mapFacts f).Listed a keys := by
  refine ⟨h.kept, h.pairs, fun m key hm => ?_, fun cls m hm => ?_, fun cls => ?_⟩
  · simp only [metasOf_mapFacts hf]
    exact h.listed m key hm
  · rw [metasOf_mapFacts hf] at hm
    exact h.metas cls m hm
  · rw [metasOf_mapFacts hf]
    exact h.names cls

theorem again (h : u.Listed a keys) {key : NodeId × String} (hkey : key ∈ keys) :
    u.Listed a (keys ++ [key]) := by
  refine ⟨h.kept, h.pairs, h.listed, h.metas, fun cls => ?_⟩
  rw [namesOf_concat, if_neg fun hn => hn.2 hkey, List.append_nil, h.names]

theorem exists_name (h : u.Listed a keys) (hm : m ∈ u.metasOf cls) :
    ∃ name ∈ namesOf cls keys, u.metaName? m = some name := by
  have hmem : u.metaName? m ∈ (u.metasOf cls).map u.metaName? := List.mem_map_of_mem hm
  rw [h.names] at hmem
  obtain ⟨name, hname, he⟩ := List.mem_map.mp hmem
  exact ⟨name, hname, he.symm⟩

theorem mem_keys (h : u.Listed a keys) (hm : m ∈ u.metasOf cls)
    (hname : u.metaName? m = some name) : (cls, name) ∈ keys := by
  obtain ⟨name', hname', he⟩ := h.exists_name hm
  obtain rfl := Option.some.inj (hname.symm.trans he)
  exact mem_namesOf.mp hname'

theorem exists_meta (h : u.Listed a keys) (hkey : (cls, name) ∈ keys) :
    ∃ m ∈ u.metasOf cls, u.metaName? m = some name := by
  have hmem : some name ∈ (namesOf cls keys).map some := List.mem_map_of_mem (mem_namesOf.mpr hkey)
  rw [← h.names] at hmem
  exact List.mem_map.mp hmem

theorem nodup_names (h : u.Listed a keys) (cls : NodeId) :
    ((u.metasOf cls).map u.metaName?).Nodup := by
  rw [h.names]
  exact (nodup_eraseDups _).map fun _ _ he => Option.some.inj he

theorem eq_iff (h : u.Listed a keys) (hp : p ∈ u.metasOf cls) (hpname : u.metaName? p = some name)
    (hm : m ∈ u.metasOf cls') (hmname : u.metaName? m = some name') :
    m = p ↔ (cls, name) = (cls', name') := by
  constructor
  · rintro rfl
    obtain ⟨-, key, hkey⟩ := h.metas cls m hp
    obtain rfl := (h.listed m key hkey).unique hp hm
    rw [Option.some.inj (hpname.symm.trans hmname)]
  · rintro ⟨⟩
    exact List.inj_on_of_nodup_map (h.nodup_names cls) hm hp (hmname.trans hpname.symm)

theorem lt_size (h : u.Listed a keys) (hm : m ∈ u.metasOf cls) : m.index < u.arena.size := by
  obtain ⟨-, key, hkey⟩ := h.metas cls m hm
  exact Arena.lt_size_of_shape? hkey

theorem size_le (h : u.Listed a keys) (ha : a.Grammatical) (hm : m ∈ u.metasOf cls) :
    a.size ≤ m.index := by
  by_contra hlt
  obtain ⟨-, key, hkey⟩ := h.metas cls m hm
  rw [h.kept.shape?_eq (Nat.lt_of_not_le hlt)] at hkey
  exact ha.shape?_ne_metaProperty m key hkey

theorem addMeta_cases (h : u.Listed a keys)
    (hm : m ∈ (u.addMeta cls name tag location).2.metasOf cls')
    (hname : (u.addMeta cls name tag location).2.metaName? m = some name') :
    (m ∈ u.metasOf cls' ∧ u.metaName? m = some name') ∨
      m = ⟨u.arena.size + 1⟩ ∧ cls = cls' ∧ name = name' := by
  rcases (u.mem_metasOf_addMeta cls name tag location).mp hm with hm | ⟨hcls, rfl⟩
  · obtain ⟨old, -, hold⟩ := h.exists_name hm
    have hnew := metaName?_extends (u.extends_addMeta cls name tag location) hold
    obtain rfl := Option.some.inj (hnew.symm.trans hname)
    exact .inl ⟨hm, hold⟩
  · rw [metaName?_addMeta] at hname
    exact .inr ⟨rfl, hcls, Option.some.inj hname⟩

theorem addMeta (h : u.Listed a keys) (hcls : a.IsClass cls) (hnew : (cls, name) ∉ keys)
    (tag : Doc.Attribute) (location : Location) :
    (u.addMeta cls name tag location).2.Listed a (keys ++ [(cls, name)]) := by
  have hext := u.extends_addMeta cls name tag location
  refine ⟨h.kept.trans hext, ?_, fun m key hm => ?_, fun cls' m hm => ?_, fun cls' => ?_⟩
  · obtain ⟨n, hn, hpairs⟩ := h.pairs
    refine ⟨n + 1, by rw [size_addMeta, hn]; rfl, fun k hk => ?_⟩
    rcases Nat.lt_succ_iff_lt_or_eq.mp hk with hk | rfl
    · obtain ⟨⟨key, hkey⟩, hproperty⟩ := hpairs k hk
      exact ⟨⟨key, hext.shape?_of hkey⟩, hext.shape?_of hproperty⟩
    · rw [shape?_addMeta, shape?_addMeta, hn]
      simp
  · rw [shape?_addMeta] at hm
    simp only [mem_metasOf_addMeta]
    split at hm
    · next hindex =>
      obtain rfl : m = ⟨u.arena.size + 1⟩ := by rw [← hindex]
      refine ⟨cls, .inr ⟨rfl, rfl⟩, ?_⟩
      rintro cls' (hmem | ⟨he, -⟩)
      · exact absurd (h.lt_size hmem) (by simp)
      · exact he.symm
    · next hindex =>
      split at hm
      · cases hm
      · have hne : m ≠ ⟨u.arena.size + 1⟩ := by
          rintro rfl
          exact hindex rfl
        simp only [hne, and_false, or_false]
        exact h.listed m key hm
  · rcases (u.mem_metasOf_addMeta cls name tag location).mp hm with hm | ⟨rfl, rfl⟩
    · obtain ⟨hclass, key, hkey⟩ := h.metas cls' m hm
      exact ⟨hclass, key, hext.shape?_of hkey⟩
    · exact ⟨hcls, ⟨u.arena.size⟩, by rw [shape?_addMeta, if_pos rfl]⟩
  · have hold : (u.metasOf cls').map (u.addMeta cls name tag location).2.metaName? =
        (u.metasOf cls').map u.metaName? := by
      refine List.map_congr_left fun m hm => ?_
      obtain ⟨old, -, hname⟩ := h.exists_name hm
      rw [hname, metaName?_extends hext hname]
    rw [metasOf_addMeta, List.map_append, hold, h.names, namesOf_concat, List.map_append]
    congr 1
    by_cases he : cls = cls'
    · rw [if_pos he, if_pos ⟨he, hnew⟩]
      exact congrArg (fun x => [x]) (u.metaName?_addMeta cls name tag location)
    · rw [if_neg he, if_neg fun hn => he hn.1]
      rfl

end Listed

theorem filter_edgesTo (ps : List Symbol) (x : Symbol) (m : NodeId) :
    (ps.map fun s => (some s, x)).filter (·.2.node = m) =
      if x.node = m then ps.map fun s => (some s, x) else [] := by
  split
  · next h =>
    refine List.filter_eq_self.mpr fun e he => ?_
    obtain ⟨s, -, rfl⟩ := List.mem_map.mp he
    exact decide_eq_true h
  · next h =>
    refine List.filter_eq_nil_iff.mpr fun e he => ?_
    obtain ⟨s, -, rfl⟩ := List.mem_map.mp he
    simpa using h

theorem edges_addMeta (h : u.outline.preorder.Nodup) (cls : NodeId) (name : String)
    (tag : Doc.Attribute) (location : Location) : ∃ front back,
    u.outline.edges = front ++ back ∧ (u.addMeta cls name tag location).2.outline.edges =
      front ++ ((u.outline.preorder.find? (·.describes cls)).toList.map fun s =>
        (some s, ⟨name, .property, location, location, ⟨u.arena.size + 1⟩, none⟩)) ++ back := by
  rw [outline_addMeta, property_addMeta]
  cases hadd : u.outline.addUnder? cls
      (.node ⟨name, .property, location, location, ⟨u.arena.size + 1⟩, none⟩ []) with
  | none =>
    rw [Outline.addUnder?_eq_none hadd]
    exact ⟨u.outline.edges, [], (List.append_nil _).symm, by simp⟩
  | some o' =>
    obtain ⟨s, front, back, hs, -, hold, hnew, -⟩ :=
      Outline.exists_gap_addUnder? hadd h (p := none) nofun
    rw [hs]
    exact ⟨front, back, hold, hnew⟩

structure Shown (o : Outline) (a : Arena) (u : SourceUnit) : Prop where
  outlined : u.Outlined
  found : ∀ cls, cls.index < a.size →
    u.outline.preorder.find? (·.describes cls) = o.preorder.find? (·.describes cls)
  symbols : ∀ cls, ∀ m ∈ u.metasOf cls, ∀ name l, u.metaName? m = some name →
    u.arena.location? m = some l → u.outline.edges.filter (·.2.node = m) =
      (o.preorder.find? (·.describes cls)).toList.map fun s =>
        (some s, ⟨name, .property, l, l, m, none⟩)

namespace Shown

theorem mapFacts (h : u.Shown o a) {f : Facts → Facts}
    (hf : (f u.facts).metas = u.facts.metas) : (u.mapFacts f).Shown o a := by
  refine ⟨h.outlined, h.found, fun cls m hm => ?_⟩
  rw [metasOf_mapFacts hf] at hm
  exact h.symbols cls m hm

theorem addMeta (h : u.Shown o a) (hl : u.Listed a keys) (hcls : a.IsClass cls)
    (tag : Doc.Attribute) (location : Location) :
    (u.addMeta cls name tag location).2.Shown o a := by
  obtain ⟨front, back, hold, hnew⟩ :=
    edges_addMeta (.of_map _ h.outlined.1) cls name tag location
  rw [h.found cls hcls.lt_size] at hnew
  have hfresh : ∀ e ∈ front ++ back, e.2.node ≠ ⟨u.arena.size + 1⟩ := by
    intro e he hnode
    have hlt := h.outlined.2 _ (List.mem_map_of_mem (Outline.snd_of_mem_edgesUnder (hold ▸ he)))
    rw [hnode] at hlt
    exact absurd hlt (by simp)
  refine ⟨h.outlined.addMeta cls name tag location, fun id hid => ?_,
    fun cls' m hm name' l hname hlocation => ?_⟩
  · -- the new symbol stands for no node of the source
    have hpreorder (o : Outline) : o.preorder = o.edges.map (·.2) :=
      (Outline.snd_edgesUnder none o).symm
    have hne : (⟨u.arena.size + 1⟩ : NodeId) ≠ id := by
      rintro rfl
      exact absurd hid (Nat.not_lt.mpr (Nat.le_succ_of_le hl.kept.size))
    have hnone : (((o.preorder.find? (·.describes cls)).toList.map fun s =>
        ((some s, ⟨name, .property, location, location, ⟨u.arena.size + 1⟩, none⟩) :
          Option Symbol × Symbol)).map (·.2)).find? (·.describes id) = none := by
      rw [List.map_map, List.find?_eq_none, List.forall_mem_map]
      intro s _
      simp [Symbol.describes, hne]
    rw [← h.found id hid, hpreorder, hpreorder u.outline, hnew, hold, List.map_append,
      List.map_append, List.map_append, List.find?_append, List.find?_append, hnone,
      Option.or_none, List.find?_append]
  · rcases hl.addMeta_cases hm hname with ⟨hm, hname⟩ | ⟨rfl, rfl, rfl⟩
    · have hlt := hl.lt_size hm
      have hne : ⟨u.arena.size + 1⟩ ≠ m := fun he => absurd (he ▸ hlt) (by simp)
      rw [Arena.location?, (u.extends_addMeta cls name tag location).kept m hlt] at hlocation
      rw [← h.symbols cls' m hm name' l hname hlocation, hnew, hold, List.filter_append,
        List.filter_append, List.filter_append, filter_edgesTo, if_neg hne, List.append_nil]
    · rw [location?_addMeta] at hlocation
      cases hlocation
      have hnil : (front ++ back).filter (·.2.node = (⟨u.arena.size + 1⟩ : NodeId)) = [] :=
        List.filter_eq_nil_iff.mpr fun e he => by simpa using hfresh e he
      rw [List.filter_append, List.append_eq_nil_iff] at hnil
      rw [hnew, List.filter_append, List.filter_append, hnil.1, hnil.2, List.nil_append,
        List.append_nil, filter_edgesTo, if_pos rfl]

end Shown

end SourceUnit

end SquirrelAnalyzer
