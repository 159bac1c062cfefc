import SquirrelAnalyzer.Proofs.Respelled.Twins
import SquirrelAnalyzer.Proofs.Matches.Answer
import SquirrelAnalyzer.Proofs.Routes

namespace SquirrelAnalyzer

namespace Arena

variable {a : Arena} {b c parent : Branch} {id child : NodeId}

theorem anchor_cases (a : Arena) (b : Branch) :
    a.isSyntactic (a.anchor b) = true ∨ a.anchor b = b ∧ a.branchTo b.target = none := by
  by_cases hs : a.isSyntactic b = true
  · rw [anchor, if_pos hs]
    exact .inl hs
  · cases hto : a.branchTo b.target with
    | none => exact .inr ⟨by rw [anchor, if_neg hs, hto, Option.getD_none], rfl⟩
    | some b' =>
      rw [anchor, if_neg hs, hto, Option.getD_some]
      exact .inl (isSyntactic_of_below a.isSyntactic_root (branchTo_below hto))

theorem Rooted.isSynthetic_of_branchTo (h : a.Rooted) (hto : a.branchTo id = none) :
    a.isSynthetic id = true := by
  refine decide_eq_true (Nat.le_of_not_lt fun hid => ?_)
  obtain ⟨b, -, -, hb, rfl, -⟩ := h.exists_below hid
  rw [h.branchTo_of_below hb] at hto
  cases hto

theorem mem_children_of_isSyntactic (h : a.isSyntactic b = true)
    (hp : b.parentBranch? = some parent) : b.target ∈ a.children .full parent.target := by
  obtain ⟨unit, target, ancestors⟩ := b
  cases ancestors with
  | nil => cases hp
  | cons x above =>
    cases hp
    simp only [isSyntactic, isSyntactic.go, Bool.and_eq_true, List.contains_iff_mem] at h
    exact h.1

theorem exists_kind_of_ownNodeUpTo {accept : Kind → Bool} {n : Nat}
    (h : a.ownNodeUpTo accept n b = some c) :
    ∃ kind, a.kind? c.target = some kind ∧ accept kind = true := by
  induction n generalizing b with
  | zero => cases h
  | succ n ih =>
    simp only [ownNodeUpTo] at h
    split at h
    · cases h
    · next kind hk =>
      split at h
      · next haccept =>
        cases h
        exact ⟨kind, hk, haccept⟩
      · split at h
        · cases h
        · obtain ⟨child, -, h⟩ := List.exists_of_findSome?_eq_some h
          exact ih h

theorem Nested.kind?_parent (h : a.Nested) (hc : child ∈ a.children .full id)
    (hk : a.kind? child = some .enumMember) : a.kind? id ≠ some .propertyDefinition := by
  have hslot : a.isSlot child = true := by
    obtain ⟨s, hs, hkind⟩ := Option.map_eq_some_iff.mp ((kind?_eq_map a child).symm.trans hk)
    rw [isSlot, hs]
    cases s <;> first | rfl | cases hkind
  obtain ⟨kind, hkind, hholds⟩ := h hc hslot
  rw [hkind]
  rintro ⟨⟩
  cases hholds

end Arena

theorem SourceUnit.Documents.kind?_declared {u : SourceUnit} (h : u.Documents) {k m : NodeId}
    {name : String} (hk : u.arena.isSynthetic k = true)
    (hs : u.arena.shape? k = some (.identifier name)) (hd : u.declaration? k = some m) :
    u.arena.kind? m ≠ some .enumMember := by
  rcases h k _ hk hs with ⟨key, he⟩ | ⟨name', m', -, hd', hm⟩
  · cases he
  obtain rfl := Option.some.inj (hd.symm.trans hd')
  rw [Arena.kind?_eq_map]
  intro hkind
  obtain ⟨s, hs, hkind⟩ := Option.map_eq_some_iff.mp hkind
  rcases h m s hm hs with ⟨key, rfl⟩ | ⟨name', _, rfl, -⟩
  · cases hkind
  · cases hkind

theorem Declared.Qualified.exists_kind {a : Arena} {b : Branch} (h : Declared.Qualified a b) :
    ∃ kind, a.kind? b.target = some kind ∧ kind ≠ .identifier ∧ kind ≠ .enumMember := by
  rw [Arena.kind?_eq_map]
  cases h with
  | function hs => exact ⟨.functionDeclaration, by rw [hs]; rfl, nofun, nofun⟩
  | «class» hs => exact ⟨.classDeclaration, by rw [hs]; rfl, nofun, nofun⟩
  | slot hs hl hk => exact ⟨.assignmentExpression, by rw [hs]; rfl, nofun, nofun⟩

namespace Program

variable {p p' : Program}

def Seated (p : Program) (b : Branch) : Prop :=
  p.kind? b = some .enumMember → ∀ parent, b.parentBranch? = some parent →
    p.kind? parent ≠ some .propertyDefinition

structure Kept (p p' : Program) (b : Branch) : Prop where
  kept : ¬ p.Rewritten p' b
  seated : p.Seated b

variable {u : SourceUnit} {b d : Branch} {c : NodeId}

theorem seated_of_kind {kind : Kind} (hk : p.kind? b = some kind) (hne : kind ≠ .enumMember) :
    p.Seated b := by
  intro he
  rw [hk] at he
  exact absurd (Option.some.inj he) hne

theorem seated_of_parent {parent : Branch} (hu : p.unit? b.unit = some u) (hn : u.arena.Nested)
    (hp : b.parentBranch? = some parent) (hc : b.target ∈ u.arena.children .full parent.target) :
    p.Seated b := by
  intro hk parent' hp'
  obtain rfl := Option.some.inj (hp.symm.trans hp')
  rw [kind?_of_unit? hu] at hk
  rw [kind?_of_unit? (u := u) (by rw [unit_of_parentBranch? hp, hu])]
  exact hn.kind?_parent hc hk

theorem seated_child (hu : p.unit? b.unit = some u) (hn : u.arena.Nested)
    (hc : c ∈ u.arena.children .full b.target) : p.Seated (b.child c) :=
  seated_of_parent (b := b.child c) hu hn rfl hc

theorem seated_of_isSyntactic (hu : p.unit? b.unit = some u) (hn : u.arena.Nested)
    (hs : u.arena.isSyntactic b = true) : p.Seated b := by
  intro hk parent hp
  exact seated_of_parent hu hn hp (Arena.mem_children_of_isSyntactic hs hp) hk parent hp

theorem kept_of_kind {kind : Kind} (hk : p.kind? b = some kind) (hi : kind ≠ .identifier)
    (he : kind ≠ .enumMember) : p.Kept p' b := by
  refine ⟨?_, seated_of_kind hk he⟩
  rintro ⟨name, hs, -⟩
  rw [Program.kind?, hs] at hk
  exact hi (Option.some.inj hk).symm

namespace Twins

variable (h : p.Twins p')

include h

theorem not_rewritten_of_stands (hu : p.unit? b.unit = some u) (hs : u.arena.Stands b.target) :
    ¬ p.Rewritten p' b := by
  obtain ⟨u', hu', hstored⟩ := h.stored hu
  rintro ⟨name, ht, ht'⟩
  rw [Program.shape?, hu] at ht
  rw [Program.shape?, hu'] at ht'
  exact hstored.twin.respelled.arena.not_rewritten_of_stands hs ⟨name, ht, ht'⟩

theorem unit_of_below {id : UnitId} (hu : p.unit? id = some u)
    (hb : u.arena.Below u.arena.rootBranch b) : b.unit = id := by
  obtain ⟨u', hu', hstored⟩ := h.stored hu
  rw [hb.unit_eq]
  exact hstored.twin.sound.unit.trans hstored.id

theorem kept_of_below {id : UnitId} (hu : p.unit? id = some u)
    (hb : u.arena.Below u.arena.rootBranch b) (hs : u.arena.Stands b.target) : p.Kept p' b := by
  obtain rfl := h.unit_of_below hu hb
  obtain ⟨u', hu', hstored⟩ := h.stored hu
  exact ⟨h.not_rewritten_of_stands hu hs, seated_of_isSyntactic hu hstored.twin.grounded.nested
    (Arena.isSyntactic_of_below u.arena.isSyntactic_root hb)⟩

theorem ref_anchor (b : Branch) : (p.anchor b).ref = b.ref := by
  unfold Program.anchor
  split
  · next u hu =>
    obtain ⟨u', hu', hstored⟩ := h.stored hu
    exact Arena.ref_anchor (hstored.id.symm.trans hstored.twin.sound.unit.symm)
  · rfl

theorem anchor_cases (hu : p.unit? (p.anchor b).unit = some u) :
    u.arena.isSyntactic (p.anchor b) = true ∨
      p.anchor b = b ∧ u.arena.branchTo b.target = none := by
  rw [(Branch.ref_eq_iff.mp (h.ref_anchor b)).1] at hu
  rw [anchor_of_unit hu]
  exact u.arena.anchor_cases b

theorem kept_anchor (hb : p.Kept p' b) : p.Kept p' (p.anchor b) := by
  refine ⟨?_, ?_⟩
  · have hkept := hb.kept
    unfold Rewritten at hkept ⊢
    rwa [shape?_congr (h.ref_anchor b), shape?_congr (h.ref_anchor b)]
  · intro hk
    obtain ⟨s, hs, -⟩ := Option.map_eq_some_iff.mp hk
    obtain ⟨u, hu, -⟩ := unit?_of_shape? hs
    obtain ⟨u', hu', hstored⟩ := h.stored hu
    rcases h.anchor_cases hu with hsyntactic | ⟨he, -⟩
    · exact seated_of_isSyntactic hu hstored.twin.grounded.nested hsyntactic hk
    · rw [he] at hk ⊢
      exact hb.seated hk

theorem kept_declared (b : Branch) : p.DeclaresIn (p.Kept p') (p.anchor b) := by
  intro u name d hu hs hd
  obtain ⟨u', hu', hstored⟩ := h.stored hu
  have hgrounded := hstored.twin.grounded
  obtain ⟨m, hm, hd⟩ := Option.map_eq_some_iff.mp hd
  rcases Option.or_eq_some_iff.mp hd with hd | ⟨-, hd⟩
  · have hup := List.mem_of_find?_eq_some hd
    obtain rfl : d.target = m := of_decide_eq_true (List.find?_some hd :)
    have hud : p.unit? d.unit = some u := by rw [Branch.unit_of_mem_upward hup, hu]
    refine ⟨h.not_rewritten_of_stands hud (hgrounded.declarations hm), ?_⟩
    rcases h.anchor_cases hu with hsyntactic | ⟨he, hto⟩
    · exact seated_of_isSyntactic hud hgrounded.nested
        (Arena.isSyntactic_of_mem_upward hsyntactic hup)
    · rw [he] at hs hm
      have hsynthetic := hstored.twin.sound.rooted.isSynthetic_of_branchTo hto
      intro hk
      rw [kind?_of_unit? hud] at hk
      exact absurd hk (hstored.documents.kind?_declared hsynthetic hs hm)
  · refine h.kept_of_below hu (Arena.branchTo_below hd) ?_
    rw [Arena.target_of_branchTo hd]
    exact hgrounded.declarations hm

theorem kept_membersAt {m : String × Branch} (hu : p.unit? b.unit = some u)
    (hm : m ∈ u.membersAt b) : p.Kept p' m.2 := by
  obtain ⟨u', hu', hstored⟩ := h.stored hu
  have hnested : u.arena.Nested := hstored.twin.grounded.nested
  obtain ⟨hunit, hseated⟩ : m.2.unit = b.unit ∧ p.Seated m.2 := by
    rcases SourceUnit.mem_membersAt hm with
      ⟨body, hbody, c, hc, he⟩ | ⟨c, hc | ⟨ids, hids, hc⟩, he⟩
    · rw [he]
      exact ⟨rfl, seated_child (b := b.child body) hu hnested hc⟩
    · rw [he]
      exact ⟨rfl, seated_child hu hnested hc⟩
    · rw [he]
      have hk : p.kind? (b.child c) = some .metaProperty :=
        (kind?_of_unit? (b := b.child c) hu).trans (hstored.twin.grounded.metas hids hc)
      exact ⟨rfl, seated_of_kind hk nofun⟩
  -- a member has a name, so it is none
  obtain ⟨key, hkey, -⟩ := Option.bind_eq_some_iff.mp (memberName?_of_mem hm)
  obtain ⟨s, hs, hname⟩ := Option.bind_eq_some_iff.mp hkey
  refine ⟨h.not_rewritten_of_stands (hunit ▸ hu) (Arena.stands_of_shape? hs ?_), hseated⟩
  intro hk
  cases s with
  | identifier name => cases hname
  | _ => cases hk

theorem kept_recorded {id : UnitId} {e : NamespaceEntry} (owner : Branch)
    (hu : p.unit? id = some u) (he : e ∈ u.namespaces) :
    p.Kept p' (memberBranch owner e) := by
  obtain ⟨u', hu', hstored⟩ := h.stored hu
  obtain ⟨hbelow, hqualified⟩ := hstored.twin.sound.pending _ (hstored.recorded e he)
  have hunit := h.unit_of_below hu hbelow
  obtain ⟨kind, hk, hi, hm⟩ := hqualified.exists_kind
  unfold memberBranch
  split
  · next hsame =>
    refine kept_of_kind ?_ hi hm
    rw [kind?_of_unit? (u := u) (by rw [Branch.unit_child, ← hsame, hunit, hu])]
    exact hk
  · refine kept_of_kind ?_ hi hm
    rw [kind?_of_unit? (by rw [hunit, hu])]
    exact hk

theorem kept_ownMember {m : String × Branch} (hm : m ∈ p.ownMembers b) : p.Kept p' m.2 := by
  unfold Program.ownMembers at hm
  split at hm
  · cases hm
  next u hf =>
  obtain ⟨hu, -⟩ := Option.filter_eq_some_iff.mp hf
  rcases List.mem_append.mp hm with hm | hm
  · exact h.kept_membersAt hu hm
  · obtain ⟨w, hw, hm⟩ := List.mem_flatMap.mp hm
    obtain ⟨e, he, rfl⟩ := List.mem_map.mp hm
    obtain ⟨id, hid⟩ := mem_liveUnits.mp hw
    exact h.kept_recorded b hid (List.mem_filter.mp he).1

theorem closed : p.Closed (p.Kept p') where
  childOf {b s c} hb hs hc := by
    obtain ⟨u, hu, hchild⟩ := mem_children_of_operand hs hc
    obtain ⟨u', hu', hstored⟩ := h.stored hu
    refine ⟨h.not_rewritten_of_stands (u := u) hu ?_,
      seated_child hu hstored.twin.grounded.nested hchild⟩
    obtain ⟨v, hv, hsv⟩ := unit?_of_shape? hs
    obtain rfl := Option.some.inj (hu.symm.trans hv)
    exact .inr ⟨b.target, s, hsv, hc⟩
  own {b b' u} hb hu hf := by
    obtain ⟨kind, hk, haccept⟩ := Arena.exists_kind_of_ownNodeUpTo hf
    obtain rfl : kind = .returnStatement := of_decide_eq_true haccept
    have hk' : p.kind? b' = some .returnStatement := by
      rw [kind?_of_unit? (by rw [unit_of_ownNodeUpTo hf, hu]), hk]
    exact kept_of_kind hk' nofun nofun
  enclosing {b e} _ _ := by
    rintro ⟨kind, hk, hnot⟩
    exact kept_of_kind hk (by rintro rfl; cases hnot) (by rintro rfl; cases hnot)
  anchor hb := h.kept_anchor hb
  declared? {b} _ := h.kept_declared b
  getter {b b' u method} hb hu hm hb' := by
    obtain ⟨u', hu', hstored⟩ := h.stored hu
    have hk := hstored.twin.grounded.getters hm
    refine h.kept_of_below hu (Arena.branchTo_below hb') (.inl ⟨.methodDefinition, ?_, nofun⟩)
    rw [Arena.target_of_branchTo hb', hk]
  scope {b u id s} _ hu hs := by
    obtain ⟨u', hu', hstored⟩ := h.stored hu
    obtain ⟨hbelow, hstands⟩ := hstored.twin.grounded.scopes hs
    exact h.kept_of_below hu hbelow hstands
  imported {b d name arity} _ hd := by
    obtain ⟨u, hu, hd⟩ := List.exists_of_findSome?_eq_some hd
    obtain ⟨id, -, hid⟩ := List.mem_filterMap.mp hu
    obtain ⟨u', hu', hstored⟩ := h.stored hid
    obtain ⟨s, hs, -, rfl⟩ := mem_of_scoped? hd
    obtain ⟨hbelow, hstands⟩ := hstored.twin.grounded.scopes hs
    exact h.kept_of_below hid hbelow hstands
  ownMember _ hm := h.kept_ownMember hm
  aliased {b name} hb := by
    obtain ⟨u, hu, hb⟩ := List.exists_of_findSome?_eq_some hb
    obtain ⟨id, hid⟩ := mem_liveUnits.mp hu
    obtain ⟨u', hu', hstored⟩ := h.stored hid
    obtain ⟨e, he, hb⟩ := Option.bind_eq_some_iff.mp hb
    have hget := NodeTable.get?_of_mem_toList (List.mem_of_find?_eq_some he)
    refine h.kept_of_below hid (Arena.branchTo_below hb) ?_
    rw [Arena.target_of_branchTo hb]
    exact hstored.twin.grounded.aliases hget

theorem inner_iff : p.Inner b ↔ p'.Inner b := by
  unfold Inner
  rcases (h.atUnit b.unit).shape?_cases with
    hs | ⟨name, hs, hs'⟩ | ⟨key, s, s', hs, hs', hb, -⟩
  · simp only [Program.kind?, hs]
  · simp [Program.kind?, hs, hs', Shape.kind, Kind.isKeyOrMember]
  · simp only [Program.kind?, hs, hs', Option.map_some, hb.kind_eq]

theorem stored' {id : UnitId} {u' : SourceUnit} (hu' : p'.unit? id = some u') :
    ∃ u, p.unit? id = some u ∧ u.Respelled u' := by
  rcases (h.atUnit id).cases with ⟨-, hnone⟩ | ⟨u, v, hu, hv, hr⟩
  · rw [hnone] at hu'
    cases hu'
  · obtain rfl := Option.some.inj (hv.symm.trans hu')
    exact ⟨u, hu, hr⟩

theorem closed_right : p'.Closed (p.Kept p') where
  childOf {b s' c} hb hs' hc := by
    rcases (h.atUnit b.unit).shape?_cases_of_not hb.kept with hs | ⟨key, s, t, hs, ht, hbracket⟩
    · exact h.closed.childOf hb (hs.trans hs') hc
    · obtain rfl := Option.some.inj (hs'.symm.trans ht)
      exact h.closed.childOf hb hs (hbracket.operands_eq ▸ hc)
  own hb hu' hf := by
    obtain ⟨u, hu, hr⟩ := h.stored' hu'
    rw [← hr.arena.ownNode? rfl rfl] at hf
    exact h.closed.own hb hu hf
  enclosing hb he hi := h.closed.enclosing hb he (h.inner_iff.mpr hi)
  anchor {b} hb := by
    rw [← (h.atUnit b.unit).anchor]
    exact h.closed.anchor hb
  declared? {b} hb := by
    rw [← (h.atUnit b.unit).anchor]
    intro u' name d hu' hs' hd
    obtain ⟨u, hu, hr⟩ := h.stored' hu'
    refine h.closed.declared? hb u name d hu ?_ (by rw [hr.declared?, hd])
    have hshape := shape?_of_unit? hu' hs'
    rcases (h.atUnit _).shape?_cases_of_not (h.kept_anchor hb).kept with
      hs | ⟨key, s, t, -, ht, hbracket⟩
    · obtain ⟨v, hv, hs⟩ := unit?_of_shape? (hs.trans hshape)
      obtain rfl := Option.some.inj (hu.symm.trans hv)
      exact hs
    · exact absurd (Option.some.inj (ht.symm.trans hshape)) (hbracket.ne_identifier name).2
  getter hb hu' hm hb' := by
    obtain ⟨u, hu, hr⟩ := h.stored' hu'
    rw [← hr.accessors] at hm
    rw [← hr.arena.branchTo] at hb'
    exact h.closed.getter hb hu hm hb'
  scope hb hu' hs := by
    obtain ⟨u, hu, hr⟩ := h.stored' hu'
    rw [← hr.scope] at hs
    exact h.closed.scope hb hu hs
  imported hb hd := h.closed.imported hb (by rwa [h.imported?])
  ownMember hb hm := h.closed.ownMember hb (by rwa [h.ownMembers])
  aliased hb := h.closed.aliased (by rwa [h.aliased?])

end Twins

theorem Twins.matches (h : p.Twins p') : p.Matches p' (p.Kept p') where
  config := h.config
  left := h.closed
  right := h.closed_right
  unit {b} _ := h.atUnit b.unit
  kept hb := hb.kept
  imported? := h.imported?
  aliased? := h.aliased?
  ownMembers {b} _ := h.ownMembers b

end Program

end SquirrelAnalyzer
