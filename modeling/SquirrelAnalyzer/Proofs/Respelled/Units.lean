import SquirrelAnalyzer.Program.Lookup
import SquirrelAnalyzer.Proofs.Respelled.Nodes
import SquirrelAnalyzer.Resolve.Label

namespace SquirrelAnalyzer

def Facts.core (f : Facts) : Facts := { f with normalizedKeys := ∅, categories := ∅ }

namespace SourceUnit

structure Respelled (u u' : SourceUnit) : Prop where
  id : u.id = u'.id
  arena : u.arena.Respelled u'.arena
  facts : u.facts.core = u'.facts.core
  pending : u.pending = u'.pending
  namespaces : u.namespaces = u'.namespaces
  keys : ∀ {k}, ¬ u.arena.Rewritten u'.arena k →
    u.facts.normalizedKeys.get? k = u'.facts.normalizedKeys.get? k
  spelled : ∀ {k name}, u.arena.shape? k = some (.identifier name) →
    u'.arena.shape? k = some (.literal (.string name)) →
    u'.facts.normalizedKeys.get? k = some name

theorem respelled_self {u : SourceUnit} (h : u.arena.Rooted) : u.Respelled u where
  id := rfl
  arena := h.respelled
  facts := rfl
  pending := rfl
  namespaces := rfl
  keys _ := rfl
  spelled hs hs' := absurd ⟨_, hs, hs'⟩ (u.arena.not_rewritten_self _)

namespace Respelled

variable {u u' : SourceUnit} (h : u.Respelled u') {b : Branch} {s : Shape NodeId}

include h

theorem scopes : u.facts.scopes = u'.facts.scopes := (congrArg Facts.scopes h.facts :)

theorem declarations : u.facts.declarations = u'.facts.declarations :=
  (congrArg Facts.declarations h.facts :)

theorem metas : u.facts.metas = u'.facts.metas := (congrArg Facts.metas h.facts :)

theorem typeOverrides : u.facts.typeOverrides = u'.facts.typeOverrides :=
  (congrArg Facts.typeOverrides h.facts :)

theorem returnOverrides : u.facts.returnOverrides = u'.facts.returnOverrides :=
  (congrArg Facts.returnOverrides h.facts :)

theorem aliases : u.facts.aliases = u'.facts.aliases := (congrArg Facts.aliases h.facts :)

theorem augments : u.facts.augments = u'.facts.augments := (congrArg Facts.augments h.facts :)

theorem accessors : u.facts.accessors = u'.facts.accessors := (congrArg Facts.accessors h.facts :)

theorem scope (id : NodeId) : u.scope id = u'.scope id := by
  rw [SourceUnit.scope, SourceUnit.scope, h.scopes]

theorem entriesOf (owner : NodeRef) : u.entriesOf owner = u'.entriesOf owner := by
  rw [SourceUnit.entriesOf, SourceUnit.entriesOf, h.namespaces]

theorem declaration? (id : NodeId) : u.declaration? id = u'.declaration? id := by
  rw [SourceUnit.declaration?, SourceUnit.declaration?, h.declarations]

theorem declared? (b : Branch) : Resolve.declared? u b = Resolve.declared? u' b := by
  simp only [Resolve.declared?, h.declaration?, h.arena.branchTo]

theorem aliased? (name : String) : u.aliased? name = u'.aliased? name := by
  simp only [SourceUnit.aliased?, h.aliases, h.arena.branchTo]

theorem keyName? (key : NodeId) : u.keyName? key = u'.keyName? key := by
  rw [SourceUnit.keyName?, SourceUnit.keyName?]
  by_cases hr : u.arena.Rewritten u'.arena key
  · obtain ⟨name, hs, hs'⟩ := hr
    rw [h.spelled hs hs', Arena.identifierName?, Arena.identifierName?, hs, hs']
    rfl
  · rw [h.arena.identifierName? hr, h.keys hr]

theorem memberName? (member : NodeId) : u.memberName? member = u'.memberName? member := by
  rw [SourceUnit.memberName?, SourceUnit.memberName?, h.arena.bind_shape? Shape.blind_nameNode?]
  exact congrArg _ (funext h.keyName?)

theorem namedBelow (b : Branch) (members : List NodeId) :
    u.namedBelow b members = u'.namedBelow b members := by
  simp only [SourceUnit.namedBelow, h.memberName?]

theorem membersAt (b : Branch) : u.membersAt b = u'.membersAt b := by
  unfold SourceUnit.membersAt
  cases h.arena.node b.target with
  | same hs _ => simp only [hs, h.namedBelow, h.arena.children, h.metas]
  | name hr =>
    obtain ⟨name, hs, hs'⟩ := hr
    rw [hs, hs']
    rfl
  | bracket hs hs' hb _ _ =>
    rw [hs, hs']
    cases hb <;> rfl

theorem accessedName? {object property : NodeId} {computed computed' : Bool}
    (hs : u.arena.shape? b.target = some (.memberExpression object property computed))
    (hs' : u'.arena.shape? b.target = some (.memberExpression object property computed')) :
    Resolve.accessedName? u property computed = Resolve.accessedName? u' property computed' := by
  cases h.arena.node b.target with
  | same he hc =>
    have hproperty : ¬ u.arena.Rewritten u'.arena property := by
      apply hc
      rw [Arena.children_eq_map, hs]
      simp [Shape.children, Shape.kind, Kind.fields, Shape.field]
    obtain rfl : computed = computed' := by
      rw [he, hs'] at hs
      cases hs
      rfl
    rw [Resolve.accessedName?, Resolve.accessedName?, h.keys hproperty,
      h.arena.identifierName? hproperty]
  | name hr =>
    obtain ⟨name, hname, -⟩ := hr
    rw [hs] at hname
    cases hname
  | bracket ht ht' hb hk _ =>
    obtain rfl := Option.some.inj (hs.symm.trans ht)
    obtain rfl := Option.some.inj (hs'.symm.trans ht')
    cases hb
    obtain ⟨name, hn, hn'⟩ := hk
    rw [Resolve.accessedName?, Resolve.accessedName?, Arena.identifierName?, hn,
      if_pos rfl, h.spelled hn hn']
    rfl

theorem classLabel (cls : Branch) (isInstance : Bool) :
    u.classLabel cls isInstance = u'.classLabel cls isInstance := by
  have hname : u.classNameNode? cls = u'.classNameNode? cls := by
    rw [classNameNode?, classNameNode?, h.arena.bind_shape? Shape.blind_nameNode?]
    cases cls.parent? with
    | none => rfl
    | some parent =>
      simp only [Option.bind_some, h.arena.bind_shape? Shape.blind_nameNode? parent]
  have hclass : u.className cls = u'.className cls := by
    rw [className, className, h.aliases, hname, funext h.keyName?]
  rw [SourceUnit.classLabel, SourceUnit.classLabel, hclass, h.typeOverrides]

theorem enumLabel {member : Branch} (hm : ∀ parent, member.parent? = some parent →
      u.arena.kind? parent ≠ some .propertyDefinition) :
    u.enumLabel member = u'.enumLabel member := by
  rw [SourceUnit.enumLabel, SourceUnit.enumLabel]
  cases hp : member.parent? with
  | none => rfl
  | some parent =>
    simp only [Option.bind_some, ← h.arena.bind_shape? Shape.blind_nameNode? parent]
    cases hn : (u.arena.shape? parent).bind Shape.nameNode? with
    | none => rfl
    | some name =>
      obtain ⟨s, hs, hname⟩ := Option.bind_eq_some_iff.mp hn
      have hk : s.kind ≠ .propertyDefinition := by
        have hk := hm parent hp
        rw [Arena.kind?_eq_map, hs] at hk
        exact fun he => hk (congrArg some he)
      have hkept := h.arena.not_rewritten_of_nameNode hs hk hname
      simp only [Option.bind_some, h.arena.identifierName? hkept]

theorem form? {id : NodeId} (hid : ¬ u.arena.Rewritten u'.arena id) : u.form? id = u'.form? id :=
  h.arena.map_shape?_of_not (f := fun s => (s.kind, s.literal?.map Literal.kind))
    (fun hb => Prod.ext hb.kind_eq (congrArg (Option.map _) (Shape.even_literal? hb))) hid

end Respelled

end SourceUnit

end SquirrelAnalyzer
