import SquirrelAnalyzer.Proofs.Listed

/-!
What comments tell about a declaration, and where it is kept. The attributes of a comment replace
those of an earlier one, while a deprecation stays and a return type stays until another one is
given. What the names of the source are coloured as does not change.
-/

namespace SquirrelAnalyzer

namespace Doc.Attribute

def returnType? (tag : Attribute) : Option String :=
  if tag.kind ∈ ["type", "returns", "return"] then tag.type else none

def deprecates (tag : Attribute) : Bool := tag.kind = "deprecated"

variable {tag : Attribute}

theorem returnType?_of_mem (h : tag.kind ∈ ["type", "returns", "return"]) :
    tag.returnType? = tag.type := if_pos h

theorem returnType?_of_notMem (h : tag.kind ∉ ["type", "returns", "return"]) :
    tag.returnType? = none := if_neg h

end Doc.Attribute

namespace Arena

variable {a : Arena}

def attached (a : Arena) (d : NodeId) : List Doc.Comment :=
  a.comments.filter fun c => SourceUnit.documentedBy? a.documentable c = some d

def docsIn (a : Arena) (comments : List Doc.Comment) (d : NodeId) : Option (List Doc.Attribute) :=
  (comments.filter fun c =>
    SourceUnit.documentedBy? a.documentable c = some d).getLast?.map (·.attributes)

def toldBy (a : Arena) (c : Doc.Comment) : List (NodeId × Doc.Attribute) :=
  match SourceUnit.documentedBy? a.documentable c with
  | some target => c.attributes.map (target, ·)
  | none => []

theorem docsIn_concat (comments : List Doc.Comment) (c : Doc.Comment) (d : NodeId) :
    a.docsIn (comments ++ [c]) d =
      if SourceUnit.documentedBy? a.documentable c = some d then some c.attributes
      else a.docsIn comments d := by
  rw [docsIn, List.filter_append, List.filter_singleton]
  by_cases h : SourceUnit.documentedBy? a.documentable c = some d
  · simp [h]
  · simp [h, docsIn]

end Arena

namespace SourceUnit

structure Told (a : Arena) (colours : NodeId → Option Category)
    (docs : NodeId → Option (List Doc.Attribute)) (told : List (NodeId × Doc.Attribute))
    (u : SourceUnit) : Prop where
  kept : a.Extends u.arena
  docs : ∀ d, d.index < a.size → u.documentation? d = docs d
  added : ∀ d tags, a.size ≤ d.index → u.documentation? d = some tags →
    ∃ tag, tags = [tag] ∧ tag.kind ∈ ["property", "getter", "setter"]
  deprecated : ∀ d, u.isDeprecated d = told.any fun e => e.1 = d && e.2.deprecates
  returns : ∀ f, u.facts.returnOverrides.get? f =
    (told.filterMap fun e => if a.functionOf? e.1 = some f then e.2.returnType? else none).getLast?
  categories : ∀ d, d.index < a.size → u.category? d = colours d

namespace Told

variable {a : Arena} {u : SourceUnit} {colours : NodeId → Option Category}
  {docs : NodeId → Option (List Doc.Attribute)} {told : List (NodeId × Doc.Attribute)}
  {target : NodeId} {tag : Doc.Attribute}

theorem mapFacts (h : u.Told a colours docs told) {f : Facts → Facts}
    (hdocs : (f u.facts).docs = u.facts.docs)
    (hdeprecated : (f u.facts).deprecated = u.facts.deprecated)
    (hreturns : (f u.facts).returnOverrides = u.facts.returnOverrides)
    (hcategories : (f u.facts).categories = u.facts.categories) :
    (u.mapFacts f).Told a colours docs told where
  kept := h.kept
  docs d hd := by
    rw [documentation?, SourceUnit.mapFacts, hdocs]
    exact h.docs d hd
  added d tags hd htags := by
    rw [documentation?, SourceUnit.mapFacts, hdocs] at htags
    exact h.added d tags hd htags
  deprecated d := by
    rw [isDeprecated, SourceUnit.mapFacts, hdeprecated]
    exact h.deprecated d
  returns f' := by
    rw [SourceUnit.mapFacts, hreturns]
    exact h.returns f'
  categories d hd := by
    rw [category?, SourceUnit.mapFacts, hcategories]
    exact h.categories d hd

theorem concat (h : u.Told a colours docs told) (hdeprecates : tag.deprecates = false)
    (hreturns : tag.returnType? = none ∨ a.functionOf? target = none) :
    u.Told a colours docs (told ++ [(target, tag)]) := by
  refine ⟨h.kept, h.docs, h.added, fun d => ?_, fun f => ?_, h.categories⟩
  · rw [h.deprecated, List.any_append]
    simp [hdeprecates]
  · rw [h.returns, List.filterMap_append]
    rcases hreturns with hreturns | hreturns <;> simp [hreturns]

theorem markDeprecated (h : u.Told a colours docs told) (hkind : tag.kind = "deprecated")
    (note : String) :
    (u.mapFacts fun f => { f with deprecated := f.deprecated.insert target note }).Told a colours
      docs (told ++ [(target, tag)]) := by
  refine ⟨h.kept, h.docs, h.added, fun d => ?_, fun f => ?_, h.categories⟩
  · have hd := h.deprecated d
    rw [isDeprecated, NodeTable.contains] at hd
    rw [isDeprecated, NodeTable.contains, SourceUnit.mapFacts, NodeTable.get?_insert,
      List.any_append, ← hd]
    by_cases he : d = target
    · simp [he, Doc.Attribute.deprecates, hkind]
    · simp [he, Ne.symm he]
  · have hnone : tag.returnType? = none :=
      Doc.Attribute.returnType?_of_notMem (by rw [hkind]; decide)
    rw [SourceUnit.mapFacts, h.returns, List.filterMap_append]
    simp [hnone]

theorem overrideReturn (h : u.Told a colours docs told) {function : NodeId} {type : String}
    (hfunction : a.functionOf? target = some function)
    (hkind : tag.kind ∈ ["type", "returns", "return"]) (htype : tag.type = some type) :
    (u.overrideReturn function type).Told a colours docs (told ++ [(target, tag)]) := by
  refine ⟨h.kept, h.docs, h.added, fun d => ?_, fun f => ?_, h.categories⟩
  · have hdeprecates : tag.deprecates = false := by
      simp only [List.mem_cons, List.not_mem_nil, or_false] at hkind
      rcases hkind with hkind | hkind | hkind <;> simp [Doc.Attribute.deprecates, hkind]
    rw [List.any_append, ← h.deprecated]
    simp [hdeprecates]
    rfl
  · rw [SourceUnit.overrideReturn, SourceUnit.mapFacts, NodeTable.get?_insert,
      List.filterMap_append, h.returns]
    by_cases he : f = function
    · simp [he, hfunction, Doc.Attribute.returnType?_of_mem hkind, htype]
    · simp [he, hfunction, Ne.symm he]

theorem addMeta (h : u.Told a colours docs told)
    (hkind : tag.kind ∈ ["property", "getter", "setter"])
    (cls : NodeId) (name : String) (location : Location) :
    (u.addMeta cls name tag location).2.Told a colours docs told := by
  have hsize : a.size ≤ u.arena.size := h.kept.size
  have hdocs (d : NodeId) : (u.addMeta cls name tag location).2.documentation? d =
      if d = ⟨u.arena.size + 1⟩ then some [tag] else u.documentation? d := by
    rw [← u.property_addMeta cls name tag location]
    exact NodeTable.get?_insert ..
  refine ⟨h.kept.trans (u.extends_addMeta cls name tag location), fun d hd => ?_,
    fun d tags hd htags => ?_, h.deprecated, h.returns, fun d hd => ?_⟩
  · rw [hdocs, if_neg]
    · exact h.docs d hd
    · rintro rfl
      simp only at hd
      omega
  · rw [hdocs] at htags
    by_cases he : d = ⟨u.arena.size + 1⟩
    · rw [if_pos he] at htags
      cases htags
      exact ⟨tag, rfl, hkind⟩
    · rw [if_neg he] at htags
      exact h.added d tags hd htags
  · have hget : (u.addMeta cls name tag location).2.category? d =
        if d = (u.arena.add location (.identifier name)).1 then some .property
        else u.category? d := NodeTable.get?_insert ..
    rw [hget, if_neg]
    · exact h.categories d hd
    · rintro rfl
      change u.arena.size < a.size at hd
      omega

theorem recordMeta (h : u.Told a colours docs told)
    (hkind : tag.kind ∈ ["property", "getter", "setter"]) (cls : NodeId) (name : String)
    (accessor : Option (AccessorKind × NodeId)) (location : Location) :
    (u.recordMeta cls name tag accessor location).Told a colours docs told := by
  refine recordMeta_steps h (h.addMeta hkind cls name location)
    (fun v property hv => ?_) fun v property x _ hv => hv.mapFacts rfl rfl rfl rfl
  apply hv.mapFacts
  all_goals rw [typeMeta_eq]

theorem mention (h : u.Told a colours docs told)
    (hkind : tag.kind ∈ ["property", "getter", "setter"]) :
    u.Told a colours docs (told ++ [(target, tag)]) := by
  have hcases := hkind
  simp only [List.mem_cons, List.not_mem_nil, or_false] at hcases
  apply h.concat
  · rcases hcases with hk | hk | hk <;> simp [Doc.Attribute.deprecates, hk]
  · left
    apply Doc.Attribute.returnType?_of_notMem
    rcases hcases with hk | hk | hk <;> simp [hk]

theorem applied (h : u.Told a colours docs told) (ha : a.Parsed) (htarget : target.index < a.size)
    {config : Config} {location : Location} {v : SourceUnit}
    (hv : u.Applied config target location tag v) :
    v.Told a colours docs (told ++ [(target, tag)]) := by
  have hfunction := h.kept.functionOf?_eq ha htarget
  -- tags that tell something else
  have hother {v : SourceUnit} (hdeprecated : tag.kind ≠ "deprecated")
      (htype : tag.kind ∉ ["type", "returns", "return"]) (hv : v.Told a colours docs told) :
      v.Told a colours docs (told ++ [(target, tag)]) :=
    hv.concat (decide_eq_false hdeprecated) (.inl (Doc.Attribute.returnType?_of_notMem htype))
  cases hv with
  | deprecated hkind => exact h.markDeprecated hkind _
  | returns hkind htype hf => exact h.overrideReturn (hfunction ▸ hf) hkind htype
  | type hkind _ hnone =>
    exact (h.mapFacts rfl rfl rfl rfl).concat (decide_eq_false (by simp [hkind]))
      (.inr (hfunction ▸ hnone))
  | param hkind => exact hother (by simp [hkind]) (by simp [hkind]) (h.mapFacts rfl rfl rfl rfl)
  | aliased hkind => exact hother (by simp [hkind]) (by simp [hkind]) (h.mapFacts rfl rfl rfl rfl)
  | augments hkind => exact hother (by simp [hkind]) (by simp [hkind]) (h.mapFacts rfl rfl rfl rfl)
  | property hkind =>
    have hmem : tag.kind ∈ ["property", "getter", "setter"] := by simp [hkind]
    exact (h.recordMeta hmem _ _ _ _).mention hmem
  | @accessor kind _ _ hkind =>
    have hmem : tag.kind ∈ ["property", "getter", "setter"] := by
      cases kind <;> simp [hkind, AccessorKind.tag]
    exact (h.recordMeta hmem _ _ _ _).mention hmem
  | nothing hdeprecated hreturns =>
    refine h.concat (decide_eq_false hdeprecated) ?_
    rw [hfunction] at hreturns
    by_cases hkind : tag.kind ∈ ["type", "returns", "return"]
    · rw [Doc.Attribute.returnType?_of_mem hkind]
      cases htype : tag.type with
      | none => exact .inl rfl
      | some type => exact .inr (hreturns hkind type htype)
    · exact .inl (Doc.Attribute.returnType?_of_notMem hkind)

theorem replaceDocs (h : u.Told a colours docs told) (htarget : target.index < a.size)
    (tags : List Doc.Attribute) :
    (u.mapFacts fun f => { f with docs := f.docs.insert target tags }).Told a colours
      (fun d => if d = target then some tags else docs d) told := by
  have hdocs (d : NodeId) :
      (u.mapFacts fun f => { f with docs := f.docs.insert target tags }).documentation? d =
        if d = target then some tags else u.documentation? d := NodeTable.get?_insert ..
  refine ⟨h.kept, fun d hd => ?_, fun d tags' hd htags => ?_, h.deprecated, h.returns, h.categories⟩
  · rw [hdocs, h.docs d hd]
  · rw [hdocs, if_neg] at htags
    · exact h.added d tags' hd htags
    · rintro rfl
      omega

theorem attachTo (h : u.Told a colours docs told) (ha : a.Parsed) (config : Config)
    (htarget : target.index < a.size) (c : Doc.Comment) :
    (SourceUnit.attachTo config u target c).Told a colours
      (fun d => if d = target then some c.attributes else docs d)
      (told ++ c.attributes.map (target, ·)) := by
  have hreplaced := h.replaceDocs htarget c.attributes
  unfold SourceUnit.attachTo
  revert hreplaced
  clear h
  generalize u.mapFacts _ = v
  generalize (fun d => if d = target then some c.attributes else docs d) = docs'
  intro hv
  induction c.attributes generalizing v told with
  | nil => simpa using hv
  | cons tag tags ih =>
    have htag := hv.applied ha htarget (v.applied_applyAttribute config target c.location tag)
    have htail := ih _ htag
    rwa [List.append_assoc] at htail

end Told

theorem told_attachComments (config : Config) {a : Arena} (ha : a.Parsed)
    (hnumbered : ∀ i (h : i < a.nodes.size), a.nodes[i].id = ⟨i⟩) :
    (attachComments config (ofArena config a)).Told a (ofArena config a).category?
      (fun d => (a.attached d).getLast?.map (·.attributes)) (a.comments.flatMap a.toldBy) := by
  have hbase : (ofArena config a).Told a (ofArena config a).category? (a.docsIn [])
      (([] : List Doc.Comment).flatMap a.toldBy) := by
    refine ⟨.refl a, fun d _ => ?_, fun d tags _ htags => ?_, fun d => ?_, fun f => ?_,
      fun d _ => rfl⟩
    · exact NodeTable.get?_empty d
    · exact absurd htags (by simp [documentation?, ofArena])
    · simp [isDeprecated, NodeTable.contains, ofArena]
    · exact NodeTable.get?_empty f
  change Told a _ (a.docsIn ([] ++ a.comments)) (([] ++ a.comments).flatMap a.toldBy) _
  unfold attachComments
  rw [show (ofArena config a).arena = a from rfl]
  revert hbase
  generalize (ofArena config a).category? = colours
  generalize ofArena config a = v
  generalize ([] : List Doc.Comment) = before
  dsimp only
  intro hv
  -- on the comments that are left, with those in front of them read
  induction a.comments generalizing v before with
  | nil => simpa using hv
  | cons c comments ih =>
    rw [List.append_cons, List.foldl_cons]
    apply ih
    have hdocs := funext (a.docsIn_concat before c)
    rw [hdocs, List.flatMap_append, List.flatMap_singleton, Arena.toldBy]
    cases hc : documentedBy? a.documentable c with
    | none => simpa using hv
    | some target =>
      have htarget := ha.lt_size_of_documentedBy? hnumbered hc
      simpa [eq_comm] using hv.attachTo ha config htarget c

end SourceUnit

end SquirrelAnalyzer
