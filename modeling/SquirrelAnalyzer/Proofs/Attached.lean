import SquirrelAnalyzer.Proofs.Told

/-!
Documentation and the facts drawn from it. A declaration with several comments shows the attributes
of the last one, but is deprecated by any of them and keeps the last return type that any of them
gives.
-/

namespace SquirrelAnalyzer

def Kind.isDocumented : Kind → Bool
  | variableDeclarator | functionDeclaration | classDeclaration | enumDeclaration
  | methodDefinition | propertyDefinition | enumMember | assignmentExpression => true
  | _ => false

namespace Tree

variable {t : Tree} {r : Role}

theorem Fits.kind_declarator (h : t.Fits .declarator) : t.shape.kind = .variableDeclarator := by
  cases h
  rfl

theorem Fits.role_of_functionDeclaration (h : t.Fits r)
    (hk : t.shape.kind = .functionDeclaration) : r = .statement := by
  induction h with
  | ofBlock _ ih | ofVariables _ ih | ofExpression _ ih | initialVariables _ ih | ofName _ ih
  | propertyName _ ih | ownerName _ ih | identifier _ ih | function _ ih => cases ih hk
  | functionDeclaration => rfl
  | _ => cases hk

end Tree

namespace Arena

variable {a : Arena} {d d' f : NodeId} {c : Doc.Comment}

theorem Grammatical.exists_role (h : a.Grammatical) {s : Shape NodeId} (hs : a.shape? d = some s)
    (hfile : s.kind ≠ .sourceFile) {x : NodeId} (hx : x ∈ s.children .full) :
    ∃ r ∈ s.kind.partRoles, (a.tree x).Fits r := by
  have htree := h.shape_tree hs
  rcases h.fits hs with ⟨body, rfl⟩ | ⟨r, hfits⟩
  · exact absurd rfl hfile
  · obtain ⟨r', hr', hpart⟩ := hfits.part (a.tree x) (by
      rw [htree, Shape.children_map]
      exact List.mem_map_of_mem hx)
    rw [htree, Shape.kind_map] at hr'
    exact ⟨r', hr', hpart⟩

theorem Grammatical.kind_of_documentable (h : a.Grammatical)
    (hnumbered : ∀ i (h : i < a.nodes.size), a.nodes[i].id = ⟨i⟩) {p : Nat × NodeId}
    (hp : p ∈ a.documentable) : ∃ s, a.shape? p.2 = some s ∧ s.kind.isDocumented = true := by
  have hkind {kind : Kind} (hk : a.kind? p.2 = some kind) (hdocumented : kind.isDocumented = true) :
      ∃ s, a.shape? p.2 = some s ∧ s.kind.isDocumented = true := by
    rw [kind?_eq_map] at hk
    obtain ⟨s, hs, rfl⟩ := Option.map_eq_some_iff.mp hk
    exact ⟨s, hs, hdocumented⟩
  rcases documentable_cases hnumbered hp with ⟨m, kind, declarations, hs, hd⟩ | hk | ⟨s, hs, hk⟩
  · have hchild := mem_children_of_declarations hs hd
    obtain ⟨r, hr, hfits⟩ :=
      h.exists_role hs (by simp [Shape.kind]) (children_of_shape? hs .full ▸ hchild)
    obtain rfl : r = .declarator := by simpa [Shape.kind, Kind.partRoles] using hr
    have hk := h.kind?_tree (Nat.lt_trans (h.child_lt hchild) (lt_size_of_shape? hs))
    rw [hfits.kind_declarator] at hk
    exact hkind hk rfl
  · exact hkind hk rfl
  · refine ⟨s, hs, ?_⟩
    simp only [List.mem_cons, List.not_mem_nil, or_false] at hk
    rcases hk with hk | hk | hk | hk | hk | hk <;> rw [hk] <;> rfl

theorem functionOf?_cases {s : Shape NodeId} (hs : a.shape? d = some s)
    (hdocumented : s.kind.isDocumented = true) (hf : a.functionOf? d = some f) :
    (f = d ∧ s.kind = .functionDeclaration) ∨
      (f ∈ s.children .full ∧ .statement ∉ s.kind.partRoles) := by
  obtain ⟨hv, hkind⟩ := Option.filter_eq_some_iff.mp hf
  rw [valueOf?, hs] at hv
  cases s with
  | variableDeclarator | methodDefinition | propertyDefinition | assignmentExpression =>
    right
    simp_all [Shape.children, Shape.kind, Kind.fields, Shape.field, Kind.partRoles]
  | functionDeclaration =>
    cases hv
    exact .inl ⟨rfl, rfl⟩
  | classDeclaration | enumDeclaration | enumMember =>
    cases hv
    rw [kind?_eq_map, hs] at hkind
    cases hkind
  | _ => cases hdocumented

theorem Grammatical.functionOf?_inj (h : a.Grammatical)
    (hnumbered : ∀ i (h : i < a.nodes.size), a.nodes[i].id = ⟨i⟩) {p p' : Nat × NodeId}
    (hp : p ∈ a.documentable) (hp' : p' ∈ a.documentable) (hf : a.functionOf? p.2 = some f)
    (hf' : a.functionOf? p'.2 = some f) : p.2 = p'.2 := by
  -- a function that is declared is no part of a declaration
  have hapart {q q' : NodeId} {s s' : Shape NodeId} (hs : a.shape? q = some s)
      (hk : s.kind = .functionDeclaration) (hs' : a.shape? q' = some s')
      (hdocumented : s'.kind.isDocumented = true) (hchild : q ∈ s'.children .full)
      (hroles : .statement ∉ s'.kind.partRoles) : False := by
    have hfile : s'.kind ≠ .sourceFile := by
      intro he
      rw [he] at hdocumented
      cases hdocumented
    obtain ⟨r, hr, hfits⟩ := h.exists_role hs' hfile hchild
    obtain rfl := hfits.role_of_functionDeclaration (by rw [h.shape_tree hs, Shape.kind_map, hk])
    exact hroles hr
  obtain ⟨s, hs, hdocumented⟩ := h.kind_of_documentable hnumbered hp
  obtain ⟨s', hs', hdocumented'⟩ := h.kind_of_documentable hnumbered hp'
  rcases functionOf?_cases hs hdocumented hf with ⟨he, hk⟩ | ⟨hchild, hroles⟩ <;>
    rcases functionOf?_cases hs' hdocumented' hf' with ⟨he', hk'⟩ | ⟨hchild', hroles'⟩
  · rw [← he, ← he']
  · exact (hapart (he ▸ hs) hk hs' hdocumented' hchild' hroles').elim
  · exact (hapart (he' ▸ hs') hk' hs hdocumented hchild hroles).elim
  · refine h.parent_unique (c := f) ?_ ?_
    · rw [children_of_shape? hs']
      exact hchild'
    · rw [children_of_shape? hs]
      exact hchild

theorem documentable_of_attached (hc : c ∈ a.attached d) : ∃ p ∈ a.documentable, p.2 = d := by
  obtain ⟨p, hp, he⟩ := Option.map_eq_some_iff.mp (of_decide_eq_true (List.mem_filter.mp hc).2)
  exact ⟨p, List.mem_of_find?_eq_some hp, he⟩

theorem mem_toldBy {e : NodeId × Doc.Attribute} :
    e ∈ a.comments.flatMap a.toldBy ↔ ∃ c ∈ a.attached e.1, e.2 ∈ c.attributes := by
  obtain ⟨target, tag⟩ := e
  rw [List.mem_flatMap]
  constructor
  · rintro ⟨c, hc, he⟩
    rw [toldBy] at he
    split at he
    · next target' hby =>
      obtain ⟨tag', htag, he⟩ := List.mem_map.mp he
      cases he
      exact ⟨c, List.mem_filter.mpr ⟨hc, decide_eq_true hby⟩, htag⟩
    · cases he
  · rintro ⟨c, hc, htag⟩
    obtain ⟨hmem, hby⟩ := List.mem_filter.mp hc
    refine ⟨c, hmem, ?_⟩
    rw [toldBy, of_decide_eq_true hby]
    exact List.mem_map.mpr ⟨tag, htag, rfl⟩

end Arena

def Doc.Comment.deprecates (c : Doc.Comment) : Bool := c.attributes.any (·.deprecates)

def Doc.Comment.returnTypes (c : Doc.Comment) : List String :=
  c.attributes.filterMap (·.returnType?)

namespace SourceUnit

/-- What the comments of a source make known: the last comment of a declaration is shown, and all of
them tell whether it is deprecated and what its function returns. -/
structure Documented (a : Arena) (u : SourceUnit) : Prop where
  documentation : ∀ d, d.index < a.size →
    u.documentation? d = (a.attached d).getLast?.map (·.attributes)
  properties : ∀ d tags, a.size ≤ d.index → u.documentation? d = some tags →
    ∃ tag, tags = [tag] ∧ tag.kind ∈ ["property", "getter", "setter"]
  deprecated : ∀ d, u.isDeprecated d = true ↔ ∃ c ∈ a.attached d, c.deprecates = true
  returns : ∀ p ∈ a.documentable, ∀ f, a.functionOf? p.2 = some f →
    u.facts.returnOverrides.get? f = ((a.attached p.2).flatMap (·.returnTypes)).getLast?
  others : ∀ f type, u.facts.returnOverrides.get? f = some type →
    ∃ p ∈ a.documentable, a.functionOf? p.2 = some f

variable {a : Arena} {u : SourceUnit} {colours : NodeId → Option Category}

theorem filterMap_toldBy (ha : a.Grammatical)
    (hnumbered : ∀ i (h : i < a.nodes.size), a.nodes[i].id = ⟨i⟩) {p : Nat × NodeId} {f : NodeId}
    (hp : p ∈ a.documentable) (hf : a.functionOf? p.2 = some f) (comments : List Doc.Comment) :
    ((comments.flatMap a.toldBy).filterMap fun e =>
      if a.functionOf? e.1 = some f then e.2.returnType? else none) =
    (comments.filter fun c => documentedBy? a.documentable c = some p.2).flatMap
      (·.returnTypes) := by
  induction comments with
  | nil => rfl
  | cons c comments ih =>
    rw [List.flatMap_cons, List.filterMap_append, ih, Arena.toldBy, List.filter_cons]
    cases hc : documentedBy? a.documentable c with
    | none => simp
    | some target =>
      by_cases he : target = p.2
      · simp [he, hf, List.filterMap_map, Doc.Comment.returnTypes]
      · have hne : a.functionOf? target ≠ some f := by
          intro hf'
          obtain ⟨p', hp', rfl⟩ := Option.map_eq_some_iff.mp hc
          have hp' := List.mem_of_find?_eq_some hp'
          exact he (ha.functionOf?_inj hnumbered hp' hp hf' hf)
        simp [he, hne, List.filterMap_map]

theorem Told.documented
    (h : u.Told a colours (a.docsIn a.comments) (a.comments.flatMap a.toldBy)) (ha : a.Grammatical)
    (hnumbered : ∀ i (h : i < a.nodes.size), a.nodes[i].id = ⟨i⟩) : u.Documented a where
  documentation := h.docs
  properties := h.added
  deprecated d := by
    rw [h.deprecated, List.any_eq_true]
    constructor
    · rintro ⟨e, he, hd⟩
      obtain ⟨hd, hdeprecates⟩ := Bool.and_eq_true_iff.mp hd
      obtain ⟨c, hc, htag⟩ := Arena.mem_toldBy.mp he
      exact ⟨c, of_decide_eq_true hd ▸ hc, List.any_eq_true.mpr ⟨e.2, htag, hdeprecates⟩⟩
    · rintro ⟨c, hc, hdeprecates⟩
      obtain ⟨tag, htag, hdeprecates⟩ := List.any_eq_true.mp hdeprecates
      exact ⟨(d, tag), Arena.mem_toldBy.mpr ⟨c, hc, htag⟩, by simpa using hdeprecates⟩
  returns p hp f hf := by
    rw [h.returns, filterMap_toldBy ha hnumbered hp hf]
    rfl
  others f type hf := by
    rw [h.returns] at hf
    obtain ⟨e, he, hfound⟩ := List.mem_filterMap.mp (List.mem_of_getLast? hf)
    split at hfound
    · next hfunction =>
      obtain ⟨c, hc, -⟩ := Arena.mem_toldBy.mp he
      obtain ⟨p, hp, hd⟩ := Arena.documentable_of_attached hc
      exact ⟨p, hp, hd ▸ hfunction⟩
    · cases hfound

namespace Documented

variable {d f : NodeId}

theorem attached_eq_nil (ha : a.Parsed)
    (hnumbered : ∀ i (h : i < a.nodes.size), a.nodes[i].id = ⟨i⟩)
    (hd : a.size ≤ d.index) : a.attached d = [] := by
  apply List.filter_eq_nil_iff.mpr
  intro c _ hc
  have hlt := ha.lt_size_of_documentedBy? hnumbered (of_decide_eq_true hc)
  omega

theorem isDeprecated_iff (h : u.Documented a) (ha : a.Parsed)
    (hnumbered : ∀ i (h : i < a.nodes.size), a.nodes[i].id = ⟨i⟩) (d : NodeId) :
    (u.isDeprecated d = true ↔ ∃ tag ∈ (u.documentation? d).getD [], tag.kind = "deprecated") ↔
      ((∃ c ∈ a.attached d, c.deprecates = true) →
        ∃ c ∈ (a.attached d).getLast?, c.deprecates = true) := by
  rw [h.deprecated]
  by_cases hd : d.index < a.size
  · have hshown : (∃ tag ∈ (u.documentation? d).getD [], tag.kind = "deprecated") ↔
        ∃ c ∈ (a.attached d).getLast?, c.deprecates = true := by
      rw [h.documentation d hd]
      cases (a.attached d).getLast? with
      | none => simp
      | some c => simp [Doc.Comment.deprecates, Doc.Attribute.deprecates]
    rw [hshown]
    refine ⟨Iff.mp, fun himp => ⟨himp, ?_⟩⟩
    rintro ⟨c, hc, hdeprecates⟩
    exact ⟨c, List.mem_of_getLast? hc, hdeprecates⟩
  · -- a property known from documentation has no comment, and is mentioned by tags of other kinds
    have hd : a.size ≤ d.index := Nat.le_of_not_lt hd
    have hnone : ¬ ∃ tag ∈ (u.documentation? d).getD [], tag.kind = "deprecated" := by
      rintro ⟨tag, htag, hkind⟩
      cases hdocs : u.documentation? d with
      | none => simp [hdocs] at htag
      | some tags =>
        obtain ⟨tag', rfl, hkind'⟩ := h.properties d tags hd hdocs
        rw [hdocs, Option.getD_some, List.mem_singleton] at htag
        rw [← htag, hkind] at hkind'
        revert hkind'
        decide
    simp [attached_eq_nil ha hnumbered hd, hnone]

theorem returnType_iff (h : u.Documented a) {p : Nat × NodeId} (hp : p ∈ a.documentable)
    (hd : p.2.index < a.size) (hf : a.functionOf? p.2 = some f) :
    (∀ type, u.facts.returnOverrides.get? f = some type →
        ∃ tag ∈ (u.documentation? p.2).getD [], tag.returnType? = some type) ↔
      ((∃ c ∈ a.attached p.2, c.returnTypes ≠ []) →
        ∃ c ∈ (a.attached p.2).getLast?, c.returnTypes ≠ []) := by
  rw [h.returns p hp f hf, h.documentation _ hd]
  rcases List.eq_nil_or_concat (a.attached p.2) with hnil | ⟨before, c, hlast⟩
  · simp [hnil]
  · have hshown (type : String) :
        (∃ tag ∈ c.attributes, tag.returnType? = some type) ↔ type ∈ c.returnTypes :=
      List.mem_filterMap.symm
    rw [hlast]
    simp only [List.concat_eq_append, List.getLast?_append, List.getLast?_singleton, Option.some_or,
      Option.map_some, Option.getD_some, hshown, List.flatMap_append, List.flatMap_singleton,
      Option.mem_def, Option.some.injEq, exists_eq_left']
    constructor
    · rintro hall ⟨x, hx, hne⟩ hnone
      rw [hnone, List.getLast?_nil, Option.none_or] at hall
      have hbefore : x ∈ before := by
        rcases List.mem_append.mp hx with hx | hx
        · exact hx
        · rw [List.mem_singleton.mp hx] at hne
          exact absurd hnone hne
      cases hlast : (before.flatMap (·.returnTypes)).getLast? with
      | none =>
        exact hne (List.flatMap_eq_nil_iff.mp (List.getLast?_eq_none_iff.mp hlast) x hbefore)
      | some type => cases hall type hlast
    · intro himp type htype
      by_cases hnone : c.returnTypes = []
      · rw [hnone, List.getLast?_nil, Option.none_or] at htype
        obtain ⟨x, hx, htype⟩ := List.mem_flatMap.mp (List.mem_of_getLast? htype)
        exact absurd hnone (himp ⟨x, List.mem_append_left _ hx, List.ne_nil_of_mem htype⟩)
      · rw [Option.or_of_isSome (by simpa using hnone)] at htype
        exact List.mem_of_getLast? htype

end Documented

/-- Documentation and the facts drawn from it, for every source: both come from the comments in
front of a declaration, and they agree unless an earlier comment tells what the last one does
not. -/
theorem documented_build {source : String} (h : Arena.parse source = .ok a) (config : Config)
    (id : UnitId) :
    (build config id a).Documented a ∧
      (∀ d, ((build config id a).isDeprecated d = true ↔
          ∃ tag ∈ ((build config id a).documentation? d).getD [], tag.kind = "deprecated") ↔
        ((∃ c ∈ a.attached d, c.deprecates = true) →
          ∃ c ∈ (a.attached d).getLast?, c.deprecates = true)) ∧
      ∀ p ∈ a.documentable, ∀ f, a.functionOf? p.2 = some f →
        ((∀ type, (build config id a).facts.returnOverrides.get? f = some type →
            ∃ tag ∈ ((build config id a).documentation? p.2).getD [], tag.returnType? = some type) ↔
          ((∃ c ∈ a.attached p.2, c.returnTypes ≠ []) →
            ∃ c ∈ (a.attached p.2).getLast?, c.returnTypes ≠ [])) := by
  obtain ⟨tokens, body, hreads⟩ := Arena.reads_parse h
  have ha := hreads.grammatical.withUnit id
  have hnumbered : ∀ i (h : i < a.nodes.size), a.nodes[i].id = ⟨i⟩ := fun i hi => hreads.id_eq hi
  have hbuild : (build config id a).Documented { a with unit := id } :=
    (told_attachComments config ha.toParsed hnumbered).documented ha hnumbered
  refine ⟨⟨hbuild.documentation, hbuild.properties, hbuild.deprecated, hbuild.returns,
      hbuild.others⟩,
    hbuild.isDeprecated_iff ha.toParsed hnumbered, fun p hp f hf => ?_⟩
  obtain ⟨s, hs, -⟩ := ha.kind_of_documentable hnumbered hp
  exact hbuild.returnType_iff hp (Arena.lt_size_of_shape? hs) hf

theorem documented_build_hidden : ∃ a,
    Arena.parse ("/** @deprecated\n * @returns \x7bint\x7d */ /** Adds. */ " ++
      "function f() \x7b\x7d") = .ok a ∧
    ((build {} ⟨0⟩ a).documentation? ⟨2⟩ = some [Doc.Attribute.description "Adds."] ∧
      (build {} ⟨0⟩ a).isDeprecated ⟨2⟩ = true ∧ a.functionOf? ⟨2⟩ = some ⟨2⟩ ∧
      (build {} ⟨0⟩ a).facts.returnOverrides.get? ⟨2⟩ = some "int") := by
  have hparsed : (Arena.parse ("/** @deprecated\n * @returns \x7bint\x7d */ /** Adds. */ " ++
      "function f() \x7b\x7d")).toOption.any (fun a =>
        decide ((build {} ⟨0⟩ a).documentation? ⟨2⟩ = some [Doc.Attribute.description "Adds."] ∧
          (build {} ⟨0⟩ a).isDeprecated ⟨2⟩ = true ∧ a.functionOf? ⟨2⟩ = some ⟨2⟩ ∧
          (build {} ⟨0⟩ a).facts.returnOverrides.get? ⟨2⟩ = some "int")) = true := by
    decide +kernel
  obtain ⟨a, ha, hfacts⟩ := exists_ok hparsed
  exact ⟨a, ha, of_decide_eq_true hfacts⟩

theorem documented_build_shown : ∃ a,
    Arena.parse ("/** Adds. */ /** @deprecated\n * @returns \x7bint\x7d */ " ++
      "function f() \x7b\x7d") = .ok a ∧
    ((build {} ⟨0⟩ a).isDeprecated ⟨2⟩ = true ↔
      ∃ tag ∈ ((build {} ⟨0⟩ a).documentation? ⟨2⟩).getD [], tag.kind = "deprecated") := by
  have hparsed : (Arena.parse ("/** Adds. */ /** @deprecated\n * @returns \x7bint\x7d */ " ++
      "function f() \x7b\x7d")).toOption.any (fun a =>
        (a.attached ⟨2⟩).getLast?.any (·.deprecates)) = true := by
    decide +kernel
  obtain ⟨a, ha, hlast⟩ := exists_ok hparsed
  exact ⟨a, ha,
    ((documented_build ha {} ⟨0⟩).2.1 ⟨2⟩).mpr fun _ => (Option.any_eq_true _ _).mp hlast⟩

end SourceUnit

end SquirrelAnalyzer
