import SquirrelAnalyzer.Proofs.Assembled

namespace SquirrelAnalyzer

def Arena.Untagged (a : Arena) : Prop :=
  ∀ c ∈ a.comments, ∀ tag ∈ c.attributes, tag.kind ≠ "alias"

instance (a : Arena) : Decidable a.Untagged :=
  inferInstanceAs (Decidable (∀ c ∈ a.comments, ∀ tag ∈ c.attributes, tag.kind ≠ "alias"))

namespace SourceUnit

variable {u : SourceUnit}

theorem aliases_recordMeta (u : SourceUnit) (cls : NodeId) (name : String) (tag : Doc.Attribute)
    (accessor : Option (AccessorKind × NodeId)) (location : Location) :
    (u.recordMeta cls name tag accessor location).facts.aliases = u.facts.aliases := by
  refine recordMeta_steps (motive := fun v => v.facts.aliases = u.facts.aliases) rfl rfl
    (fun v property hv => ?_) fun _ _ _ _ hv => hv
  rw [mapFacts, typeMeta_eq]
  exact hv

theorem Applied.aliases {v : SourceUnit} {config : Config} {target : NodeId} {location : Location}
    {tag : Doc.Attribute} (hv : u.Applied config target location tag v) (h : tag.kind ≠ "alias") :
    v.facts.aliases = u.facts.aliases := by
  cases hv with
  | aliased halias => exact absurd halias h
  | property | accessor => exact aliases_recordMeta _ _ _ _ _ _
  | _ => rfl

theorem aliases_build (config : Config) (id : UnitId) {a : Arena} (ha : a.Untagged) :
    (build config id a).facts.aliases = ∅ := by
  unfold build attachComments
  refine List.foldlRecOn _ _ (motive := fun u : SourceUnit => u.facts.aliases = ∅) rfl ?_
  intro u hu c hc
  split
  · refine List.foldlRecOn _ _ (motive := fun u : SourceUnit => u.facts.aliases = ∅) hu ?_
    exact fun u hu tag ht =>
      ((u.applied_applyAttribute _ _ _ tag).aliases (ha c hc tag ht)).trans hu
  · exact hu

theorem comments_build (config : Config) (id : UnitId) (a : Arena) :
    (build config id a).arena.comments = a.comments :=
  attachComments_induction (motive := fun u => u.arena.comments = a.comments) (fun _ _ h _ => h)
    (fun _ _ _ _ _ h => h) rfl config

end SourceUnit

abbrev InUnit (id : UnitId) (b : Branch) : Prop := b.unit = id

namespace Program

structure Separate (p : Program) : Prop where
  unit : ∀ id u, p.unit? id = some u → u.id = id ∧ u.Sound
  imports : ∀ id, p.imports.of id = []
  aliases : ∀ id u, p.unit? id = some u → u.facts.aliases = ∅

structure Apart (p : Program) : Prop extends Separate p where
  entries : ∀ id u, p.unit? id = some u → ∀ e ∈ u.namespaces,
    e.owner.unit = id ∧ e.declaration.unit = id

variable {p p' : Program} {id : UnitId} {u : SourceUnit}

theorem Separate.imported?_eq_none (h : p.Separate) (id : UnitId) (name : String)
    (arity : Option Nat) : p.imported? id name arity = none := by
  simp [imported?, h.imports]

theorem Separate.aliased?_eq_none (h : p.Separate) (name : String) : p.aliased? name = none := by
  refine List.findSome?_eq_none_iff.mpr fun u hu => ?_
  obtain ⟨id, hid⟩ := mem_liveUnits.mp hu
  rw [SourceUnit.aliased?, h.aliases id u hid]
  rfl

theorem Apart.unit_of_mem_recordedMembers (h : p.Apart) {owner : Branch} {m : String × Branch}
    (hm : m ∈ p.recordedMembers owner) : m.2.unit = owner.unit := by
  obtain ⟨u, hu, hm⟩ := List.mem_flatMap.mp hm
  obtain ⟨e, he, rfl⟩ := List.mem_map.mp hm
  obtain ⟨hmem, howner⟩ := List.mem_filter.mp he
  obtain ⟨id, hid⟩ := mem_liveUnits.mp hu
  obtain ⟨hunit, hdecl⟩ := h.entries id u hid e hmem
  have howner : e.owner = owner.ref := of_decide_eq_true howner
  rw [howner] at hunit
  have hsame : e.declaration.unit = owner.unit := hdecl.trans hunit.symm
  rw [memberBranch, if_pos hsame, Branch.unit_child]

theorem Apart.fullyClosed (h : p.Apart) (id : UnitId) : p.FullyClosed (InUnit id) where
  child hb _ _ := hb
  enclosing hb he := (Branch.mem_enclosing_go he).1.trans hb
  branchTo {b b' u _} hb hu hb' := by
    obtain ⟨hid, hs⟩ := h.unit b.unit u hu
    have hroot : b'.unit = u.arena.unit := (Arena.branchTo_below hb').unit_eq
    rw [InUnit, hroot, hs.unit, hid, hb]
  scope {b u _ _} hb hu hs := by
    obtain ⟨hid, hsound⟩ := h.unit b.unit u hu
    exact (hsound.of_mem_scope hs).1.trans (hid.trans hb)
  imported {b _ name arity} _ hd := by
    rw [h.imported?_eq_none] at hd
    cases hd
  ownMember {b m} hb hm := by
    refine Eq.trans ?_ hb
    unfold ownMembers at hm
    split at hm
    · cases hm
    · rcases List.mem_append.mp hm with hm | hm
      · exact SourceUnit.unit_of_mem_membersAt hm
      · exact h.unit_of_mem_recordedMembers hm
  aliased {_ name} hb := by
    rw [h.aliased?_eq_none] at hb
    cases hb

theorem Apart.closed (h : p.Apart) (id : UnitId) : p.Closed (InUnit id) :=
  (h.fullyClosed id).closed

end Program

end SquirrelAnalyzer
