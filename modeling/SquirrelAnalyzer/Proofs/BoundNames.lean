import SquirrelAnalyzer.Proofs.Inline

namespace SquirrelAnalyzer

namespace Shape

variable {χ : Type} {s : Shape χ} {c : χ}

def bindsVariables : Shape χ → Bool
  | foreachStatement .. | tryStatement .. => true
  | _ => false

def boundIn : Shape χ → List χ
  | foreachStatement _ _ object body => [object, body]
  | tryStatement block _ handler => block :: handler.toList
  | _ => []

theorem mem_boundNames_or_boundIn (hs : s.bindsVariables = true) (hc : c ∈ s.children .full) :
    c ∈ s.boundNames ∨ c ∈ s.boundIn := by
  cases s with
  | foreachStatement | tryStatement =>
    simp only [children, kind, Kind.fields, field, List.flatMap_cons, List.flatMap_nil,
      List.mem_append, List.append_nil, List.mem_singleton] at hc
    simp only [boundNames, boundIn, List.mem_append, List.mem_cons, List.not_mem_nil, or_false]
    tauto
  | _ => cases hs

theorem bindsVariables_map {β : Type} (f : χ → β) :
    (s.map f).bindsVariables = s.bindsVariables := by
  cases s <;> rfl

theorem boundNames_map {β : Type} (f : χ → β) : (s.map f).boundNames = s.boundNames.map f := by
  cases s <;> simp [map, boundNames, Option.toList_map]

end Shape

theorem Tree.Fits.kind_boundName {t : Tree} {r : Role} (h : t.Fits r) :
    t.shape.bindsVariables = true → ∀ c ∈ t.shape.boundNames, c.shape.kind = .identifier := by
  have hname {t : Tree} (h : t.Fits .name) : t.shape.kind = .identifier := by
    cases h
    rfl
  induction h with
  | ofBlock _ ih | ofVariables _ ih | ofExpression _ ih | initialVariables _ ih | ofName _ ih
  | propertyName _ ih | ownerName _ ih | identifier _ ih | function _ ih => exact ih
  | @foreachStatement _ index value object body hindex hvalue _ _ =>
    intro _ c hc
    rcases List.mem_append.mp hc with hc | hc
    · exact hname (hindex c (Option.mem_toList.mp hc))
    · exact List.mem_singleton.mp hc ▸ hname hvalue
  | tryStatement _ => exact nofun
  | catchStatement _ _ hparam _ =>
    intro _ c hc
    exact List.mem_singleton.mp hc ▸ hname hparam
  | _ => exact nofun

namespace Arena

variable {a : Arena} {m c : NodeId} {s : Shape NodeId}

theorem Grammatical.shape?_boundName (h : a.Grammatical) (hs : a.shape? m = some s)
    (hbinds : s.bindsVariables = true) (hc : c ∈ s.boundNames) :
    ∃ name, a.shape? c = some (.identifier name) := by
  have htree := h.shape_tree hs
  have hk : a.kind? c = some .identifier := by
    rcases h.fits hs with ⟨body, rfl⟩ | ⟨r, hfits⟩
    · cases hbinds
    · have hlt := Nat.lt_trans (h.child_lt (mem_children_of_boundName hs hc))
        (lt_size_of_shape? hs)
      rw [h.kind?_tree hlt, hfits.kind_boundName (by rw [htree, Shape.bindsVariables_map, hbinds])
        (a.tree c) (by rw [htree, Shape.boundNames_map]; exact List.mem_map_of_mem hc)]
  rw [a.kind?_eq_map] at hk
  obtain ⟨t, ht, hk⟩ := Option.map_eq_some_iff.mp hk
  cases t with
  | identifier name => exact ⟨name, ht⟩
  | _ => cases hk

theorem Parsed.declaration?_boundName (h : a.Parsed) (config : Config) (hs : a.shape? m = some s)
    (hbinds : s.bindsVariables = true) (hc : c ∈ s.boundNames) {name : String}
    (hname : a.shape? c = some (.identifier name)) :
    (SourceUnit.ofArena config a).declaration? c = some c := by
  obtain ⟨b, hb, rfl⟩ := h.exists_mem_preorder (lt_size_of_shape? hs)
  have hx : (⟨c, c, .variableName⟩ : Binding) ∈ (a.loopVariable b c).bindings := by
    simp [loopVariable, identifierName?, hname, Shape.identifierName?]
  refine SourceUnit.declaration?_bound h ⟨⟨name, hname⟩, _, s, hs, hc⟩ hb
    (x := ⟨c, c, .variableName⟩) ?_ rfl
  have hmem : (⟨c, c, .variableName⟩ : Binding) ∈
      (Declared.joinAll (s.boundNames.map (a.loopVariable b))).bindings := by
    rw [Declared.bindings_joinAll]
    exact List.mem_flatMap.mpr ⟨_, List.mem_map_of_mem hc, hx⟩
  rw [Declared.ofBranch, hs]
  cases s with
  | foreachStatement index value object body => exact hmem
  | tryStatement block param handler => exact hmem
  | _ => cases hbinds

theorem Below.exists_part {b : Branch} (h : a.Below a.rootBranch b) (hm : m ∈ b.ancestors) :
    ∃ inner c outer, b.target :: b.ancestors = inner ++ c :: m :: outer ∧
      c ∈ a.children .full m := by
  obtain ⟨inner, outer, he⟩ := List.append_of_mem hm
  obtain ⟨pre, c, hc⟩ : ∃ pre c, b.target :: inner = pre ++ [c] :=
    ⟨_, _, (List.dropLast_append_getLast (List.cons_ne_nil _ _)).symm⟩
  have hpath : b.target :: b.ancestors = pre ++ c :: m :: outer := by
    rw [he, ← List.cons_append, hc, List.append_assoc]
    rfl
  exact ⟨pre, c, outer, hpath, h.child_of_path hpath⟩

theorem Below.target_of_name {b : Branch} (h : a.Below a.rootBranch b) {inner outer : List NodeId}
    (hpath : b.target :: b.ancestors = inner ++ c :: outer) {name : String}
    (hc : a.shape? c = some (.identifier name)) : c = b.target := by
  rcases inner.eq_nil_or_concat' with rfl | ⟨pre, x, rfl⟩
  · exact (List.cons.inj hpath).1.symm
  · rw [List.append_assoc] at hpath
    obtain ⟨s, hs, hx⟩ := exists_shape?_of_child (h.child_of_path hpath)
    rw [hc] at hs
    cases hs
    cases hx

end Arena

namespace Analysis.Reachable

variable {asked : Program → Branch → Prop} {a : Analysis} {id : UnitId} {u : SourceUnit}
  {m m' c : NodeId} {s s' : Shape NodeId}

theorem declaration?_boundName (h : a.Reachable asked) (hu : a.unit? id = some u)
    (hs : u.arena.shape? m = some s) (hbinds : s.bindsVariables = true) (hc : c ∈ s.boundNames) :
    ∃ name, u.arena.shape? c = some (.identifier name) ∧ u.declaration? c = some c := by
  obtain ⟨base, hr⟩ := h.exists_readFrom hu
  rcases hr.shape?_base hs with hbase | ⟨key, rfl⟩ | ⟨name, rfl⟩
  · obtain ⟨name, hname⟩ := hr.grammatical.shape?_boundName hbase hbinds hc
    refine ⟨name, hr.unit.arena.shape?_of hname, ?_⟩
    refine (hr.unit.declaration c c (Arena.lt_size_of_shape? hname)).mpr ?_
    exact hr.parsed.declaration?_boundName _ hbase hbinds hc hname
  · cases hbinds
  · cases hbinds

theorem boundBy_unique (h : a.Reachable asked) (hu : a.unit? id = some u)
    (hs : u.arena.shape? m = some s) (hc : c ∈ s.boundNames) (hs' : u.arena.shape? m' = some s')
    (hc' : c ∈ s'.boundNames) : m = m' := by
  obtain ⟨base, hr⟩ := h.exists_readFrom hu
  have hchild {m : NodeId} {s : Shape NodeId} (hs : u.arena.shape? m = some s)
      (hc : c ∈ s.boundNames) : c ∈ base.children .full m := by
    rcases hr.shape?_base hs with hbase | ⟨key, rfl⟩ | ⟨name, rfl⟩
    · exact Arena.children_of_shape? hbase .full ▸ Shape.mem_children_of_boundName hc
    · cases hc
    · cases hc
  exact hr.parsed.parent_unique (hchild hs' hc') (hchild hs hc)

end Analysis.Reachable

def Kind.isBindable : Kind → Bool
  | identifier | assignmentPattern => true
  | _ => false

namespace Program

variable {p : Program} {b b' d : Branch} {kind : Kind}

theorem Declaration.isBindable_eq_false (h : p.Declaration d) (hk : p.kind? d = some kind) :
    kind.isBindable = false := by
  obtain ⟨u, s, hu, hs, hdeclaration, hne⟩ := h
  rw [kind?, shape?_of_unit? hu hs] at hk
  obtain rfl := Option.some.inj hk
  cases s with
  | identifier => cases hdeclaration
  | assignmentPattern => exact absurd rfl hne
  | _ => rfl

def BoundAbove (p : Program) (b d : Branch) : Prop :=
  ∃ u name, p.PlainName u b name ∧ d.unit = b.unit ∧ u.arena.parameterText? d.target = some name ∧
    ∃ m ∈ (p.anchor b).ancestors, ∃ s, u.arena.shape? m = some s ∧ d.target ∈ s.boundNames

def Through (p : Program) (b : Branch) (part m : NodeId) : Prop :=
  [part, m] <:+: b.target :: (p.anchor b).ancestors

instance (p : Program) (b : Branch) (part m : NodeId) : Decidable (p.Through b part m) :=
  inferInstanceAs (Decidable ([part, m] <:+: b.target :: (p.anchor b).ancestors))

def Captured (p : Program) (b d : Branch) : Prop :=
  ∀ kind, p.kind? d = some kind → kind.isBindable = true →
    p.kind? b = some .identifier ∧ d.unit = b.unit ∧
        (∃ u, p.unit? b.unit = some u ∧ u.declaration? b.target = some d.target) ∨
      p.BoundAbove b d

def captures (p : Program) : Promise := p.references p.Captured

theorem PlainName.kind?_eq {u : SourceUnit} {name : String} (h : p.PlainName u b name) :
    p.kind? b = some .identifier := by
  rw [kind?, shape?_of_unit? h.unit h.shape]
  rfl

theorem BoundAbove.congr (hp : p.Sound) (ha : p.Assembled) (h : p.BoundAbove b d)
    (hr : b'.ref = b.ref) : p.BoundAbove b' d := by
  obtain ⟨u, name, hb, hdu, htext, hbinds⟩ := h
  obtain ⟨hunit, htarget⟩ := Branch.ref_eq_iff.mp hr
  have hpath := anchor_of_written hp hb.unit hr (hb.written ha)
  refine ⟨u, name, ⟨hunit ▸ hb.unit, htarget ▸ hb.shape, htarget ▸ hb.undeclared, ?_⟩,
    hdu.trans hunit.symm, htext, hpath ▸ hbinds⟩
  rw [hpath, htarget]
  exact hb.free

theorem boundNames_of_scopeAt {u : SourceUnit} (hfiled : u.Filed) {outer : Branch}
    (hu : p.unit? outer.unit = some u) (hp : p.Sound) {s : ScopedName}
    (hs : s ∈ u.scope outer.target) (hk : p.kind? s.declaration = some kind)
    (hbindable : kind.isBindable = true) :
    s.declaration.unit = outer.unit ∧ u.arena.parameterText? s.declaration.target = some s.name ∧
      ∃ t, u.arena.shape? outer.target = some t ∧ s.declaration.target ∈ t.boundNames := by
  obtain ⟨hid, hsound⟩ := hp.unit outer.unit u hu
  have hunit : s.declaration.unit = outer.unit := (hsound.of_mem_scope hs).1.trans hid
  refine ⟨hunit, ?_⟩
  have hkind : u.arena.kind? s.declaration.target = some kind := by
    rw [← kind?_of_unit? (hunit ▸ hu), hk]
  rw [u.arena.kind?_eq_map] at hkind
  cases hfiled.files _ s hs with
  | @named t _ ht hnamed =>
    rw [ht] at hkind
    obtain rfl := Option.some.inj hkind
    cases t with
    | identifier | assignmentPattern => cases hnamed
    | _ => cases hbindable
  | rootSlot ht =>
    rw [ht] at hkind
    obtain rfl := Option.some.inj hkind
    cases hbindable
  | bound ht hbound _ hname => exact ⟨hname, _, ht, hbound⟩

theorem isBindable_of_topLevel {u : SourceUnit} (hp : p.Sound) (hfiled : u.Filed) {id : UnitId}
    (hu : p.unit? id = some u) {name : String} {arity : Option Nat}
    (hd : p.topLevel? name arity u = some d) (hk : p.kind? d = some kind) :
    kind.isBindable = false := by
  rw [← Bool.not_eq_true]
  intro hbindable
  obtain ⟨s, hs, -, rfl⟩ := mem_of_scoped? hd
  have hroot : p.unit? (Branch.mk id u.arena.root []).unit = some u := hu
  obtain ⟨-, -, t, ht, hbound⟩ := boundNames_of_scopeAt hfiled hroot hp hs hk hbindable
  have hkind := hfiled.root
  rw [u.arena.kind?_eq_map, ht] at hkind
  cases t with
  | sourceFile body => cases hbound
  | _ => cases hkind

namespace Captured

theorem of_unbindable (h : ∀ kind, p.kind? d = some kind → kind.isBindable = false) :
    p.Captured b d := by
  intro kind hk hbindable
  rw [h kind hk] at hbindable
  cases hbindable

theorem congr (hp : p.Sound) (ha : p.Assembled) (h : p.Captured b d) (hr : b'.ref = b.ref) :
    p.Captured b' d := by
  obtain ⟨hunit, htarget⟩ := Branch.ref_eq_iff.mp hr
  intro kind hkd hbindable
  rcases h kind hkd hbindable with ⟨hk, hdu, u, hu, hdeclares⟩ | habove
  · exact .inl ⟨(kind?_congr hr).trans hk, hdu.trans hunit.symm, u, hunit ▸ hu,
      htarget ▸ hdeclares⟩
  · exact .inr (habove.congr hp ha hr)

theorem imported (hp : p.Sound) (hfiled : ∀ id u, p.unit? id = some u → u.Filed) {unit : UnitId}
    {name : String} {arity : Option Nat} (hd : p.imported? unit name arity = some d) :
    p.Captured b d := by
  obtain ⟨v, hv, hd⟩ := List.exists_of_findSome?_eq_some hd
  obtain ⟨id, -, hid⟩ := List.mem_filterMap.mp hv
  exact of_unbindable fun _ hk => isBindable_of_topLevel hp (hfiled id v hid) hid hd hk

theorem root (hp : p.Sound) (hfiled : ∀ id u, p.unit? id = some u → u.Filed) {unit : UnitId}
    {name : String} (hd : p.rootName? unit name = some d) : p.Captured b d := by
  rcases Option.or_eq_some_iff.mp hd with hd | ⟨-, hd⟩
  · obtain ⟨v, hv, hd⟩ := Option.bind_eq_some_iff.mp hd
    exact of_unbindable fun _ hk => isBindable_of_topLevel hp (hfiled _ v hv) hv hd hk
  · exact imported hp hfiled hd

theorem property {id : NodeId} {parent : Branch} {s : Shape NodeId}
    (hs : p.shape? parent = some s) (hof : Resolve.isPropertyOf id s = true)
    (hd : p.captures .definition parent.ref d) : p.Captured b d := by
  intro kind hkd hbindable
  have hkind : s.kind.isReference = true ∧ s.kind ≠ .identifier := by
    cases s <;> first | cases hof | exact ⟨rfl, by simp [Shape.kind]⟩
  have hkp : p.kind? parent = some s.kind := by rw [kind?, hs]; rfl
  have hident : p.kind? parent = some .identifier := by
    rcases hd parent s.kind rfl hkp hkind.1 kind hkd hbindable with
      ⟨hident, -⟩ | ⟨u, name, hname, -⟩
    · exact hident
    · exact hname.kind?_eq
  rw [hkp] at hident
  exact absurd (Option.some.inj hident) hkind.2

end Captured

theorem PlainName.of_anchor (hp : p.Sound) {u : SourceUnit} {name : String}
    (hu : p.unit? (p.anchor b).unit = some u)
    (hs : u.arena.shape? (p.anchor b).target = some (.identifier name))
    (hnone : Resolve.declared? u (p.anchor b) = none)
    (hplain : ∀ parent, (p.anchor b).parentBranch? = some parent →
      ∃ s, p.shape? parent = some s ∧ Resolve.isPropertyOf (p.anchor b).target s = false) :
    p.PlainName u b name := by
  obtain ⟨hunit, htarget⟩ := Branch.ref_eq_iff.mp (hp.ref_anchor b)
  refine ⟨hunit ▸ hu, htarget ▸ hs, htarget ▸ Option.map_eq_none_iff.mp hnone, ?_⟩
  intro parent t hparent ht
  obtain ⟨outer, houter⟩ := List.head?_eq_some_iff.mp hparent
  have habove : (p.anchor b).parentBranch? = some ⟨b.unit, parent, outer⟩ := by
    rw [Branch.parentBranch?, houter, hunit]
  obtain ⟨t', ht', hfree⟩ := hplain _ habove
  rw [shape?_of_unit? (hunit ▸ hu) ht] at ht'
  obtain rfl := Option.some.inj ht'
  exact htarget ▸ hfree

theorem PlainName.captured_scoped {u : SourceUnit} {name : String} (h : p.PlainName u b name)
    (hp : p.Sound) (hfiled : u.Filed) {e : Branch × NodeId} (he : e ∈ (p.anchor b).enclosing)
    {s : ScopedName} (hs : s ∈ Resolve.scopeAt p e.1) (hname : s.name = name) :
    p.Captured b s.declaration := by
  intro kind hkd hbindable
  obtain ⟨hunit, -⟩ := Branch.ref_eq_iff.mp (hp.ref_anchor b)
  obtain ⟨v, hv, hs⟩ := Resolve.mem_scope_of_scopeAt hs
  obtain ⟨heu, hids⟩ := Branch.mem_enclosing_go he
  obtain rfl : v = u := Option.some.inj (hv.symm.trans ((heu.trans hunit).symm ▸ h.unit))
  obtain ⟨hdu, htext, t, ht, hbound⟩ := boundNames_of_scopeAt hfiled hv hp hs hkd hbindable
  exact .inr ⟨v, name, h, hdu.trans (heu.trans hunit), hname ▸ htext, e.1.target,
    hids _ (.inl rfl), t, ht, hbound⟩

theorem captures_kept (hp : p.Sound) (ha : p.Assembled) (hl : p.ListsDeclarations)
    (hunits : ∀ id u, p.unit? id = some u → u.Filed ∧ u.Declaring) : p.captures.Kept p := by
  have hfiled (id : UnitId) (u : SourceUnit) (hu : p.unit? id = some u) : u.Filed :=
    (hunits id u hu).1
  have hmember {b owner : Branch} {m : String × Branch} (hm : m ∈ p.ownMembers owner) :
      p.Captured b m.2 :=
    .of_unbindable fun _ hk => (hl.member hm).isBindable_eq_false hk
  refine references_kept fun {ask b kind} hask hk href => ?_
  obtain ⟨hunit, htarget⟩ := Branch.ref_eq_iff.mp (hp.ref_anchor b)
  have hpath : p.kind? (p.anchor b) = some kind := (kind?_congr (hp.ref_anchor b)).trans hk
  refine (Resolve.definitionStep_yields (Q := p.Captured b) hask hpath href ?_ ?_ ?_ hmember
    fun name d => .root hp hfiled).mono fun d hd b' hr => hd.congr hp ha hr
  · intro u name d hu hs hd kd hkd hbindable
    have hkb : p.kind? b = some .identifier := by
      rw [kind?, shape?_of_unit? (hunit ▸ hu) (htarget ▸ hs)]
      rfl
    obtain ⟨hdu, hdeclares, -⟩ := of_declared? hp hu (hunits _ u hu).2 hd
    exact .inl ⟨hkb, hdu.trans hunit, u, hunit ▸ hu, htarget ▸ hdeclares⟩
  · exact fun parent s d _ => .property
  · intro u name hu hs hnone hplain
    have hb : p.PlainName u b name := .of_anchor hp hu hs hnone hplain
    exact Resolve.lookupName_yields hask hmember
      (fun e he s hs hname => hb.captured_scoped hp (hfiled _ u hu) he hs hname)
      fun d => .imported hp hfiled

end Program

namespace Analysis

variable {a : Analysis} {u : SourceUnit} {b d : Branch}

theorem Reachable.captured (h : a.Reachable fun _ _ => True)
    (hk : a.program.kind? b = some .identifier) (hd : ((definition b).run a).1 = some d) :
    a.program.Captured b d := by
  have hkept : a.program.captures.Kept a.program := Program.captures_kept h.sound h.assembled
    h.listsDeclarations fun id v hv => ⟨h.filed hv, h.declaring hv⟩
  have hsubject : (a.program.subject .definition b).ref = b.ref :=
    congrArg Branch.ref (Program.subject_of_indirect hk rfl)
  exact h.keeps (Program.answer_meets hkept) hd b .identifier hsubject.symm hk rfl

theorem Reachable.through_of_boundName (h : a.Reachable fun _ _ => True)
    (hk : a.program.kind? b = some .identifier) (hd : ((definition b).run a).1 = some d)
    (hne : d.ref ≠ b.ref) (hu : a.unit? d.unit = some u) {m : NodeId} {s : Shape NodeId}
    (hs : u.arena.shape? m = some s) (hbinds : s.bindsVariables = true)
    (hbound : d.target ∈ s.boundNames) :
    d.unit = b.unit ∧ ∃ c ∈ s.boundIn, a.program.Through b c m := by
  obtain ⟨name, hname, -⟩ := h.declaration?_boundName hu hs hbinds hbound
  have hkd : a.program.kind? d = some .identifier := by
    rw [Program.kind?, Program.shape?_of_unit? hu hname]
    rfl
  rcases h.captured hk hd _ hkd rfl with
    ⟨-, hdu, v, hv, hdeclares⟩ | ⟨v, text, hb, hdu, -, m', hm, s', hs', hbound'⟩
  · rcases (h.declaring hv).declarations hdeclares with ⟨t, ht, hdeclaration⟩ | ⟨htarget, -⟩
    · obtain rfl : v = u := Option.some.inj (hv.symm.trans (hdu ▸ hu))
      rw [hname] at ht
      obtain rfl := Option.some.inj ht
      cases hdeclaration
    · exact absurd (Branch.ref_eq_iff.mpr ⟨hdu, htarget.symm⟩) hne
  have hv := hb.unit
  obtain rfl : v = u := Option.some.inj (hv.symm.trans (hdu ▸ hu))
  obtain rfl := h.boundBy_unique hu hs hbound hs' hbound'
  obtain rfl := Option.some.inj (hs.symm.trans hs')
  refine ⟨hdu, ?_⟩
  have htarget : (a.program.anchor b).target = b.target :=
    congrArg NodeRef.node (h.sound.ref_anchor b)
  have hbelow := h.sound.anchor_below hv (hb.written h.assembled)
  obtain ⟨inner, c, outer, hpath, hc⟩ := hbelow.exists_part hm
  rw [Arena.children_of_shape? hs] at hc
  rcases s.mem_boundNames_or_boundIn hbinds hc with hc | hc
  · -- a bound name is a declaration itself
    obtain ⟨text, hname, hself⟩ := h.declaration?_boundName hv hs hbinds hc
    rw [hbelow.target_of_name hpath hname, htarget, hb.undeclared] at hself
    cases hself
  · refine ⟨c, hc, inner, outer, ?_⟩
    rw [← htarget, hpath, List.append_assoc]
    rfl

/-- A name that is defined by a variable of a loop over a container stands in that container or in
the body of the loop, unless it is the variable, and one that is defined by the variable of a catch
clause in what is tried or in the clause. -/
theorem definition_boundName (h : a.Reachable fun _ _ => True)
    (hk : a.program.kind? b = some .identifier) (hd : ((definition b).run a).1 = some d)
    (hne : d.ref ≠ b.ref) (hu : a.unit? d.unit = some u) :
    (∀ m index value object body,
      u.arena.shape? m = some (.foreachStatement index value object body) →
      index = some d.target ∨ value = d.target →
      d.unit = b.unit ∧ (a.program.Through b object m ∨ a.program.Through b body m)) ∧
    ∀ m block handler, u.arena.shape? m = some (.tryStatement block (some d.target) handler) →
      d.unit = b.unit ∧
        (a.program.Through b block m ∨ ∃ clause ∈ handler, a.program.Through b clause m) := by
  refine ⟨fun m index value object body hs hbound => ?_, fun m block handler hs => ?_⟩
  · have hbound : d.target ∈ (Shape.foreachStatement index value object body).boundNames := by
      rcases hbound with rfl | rfl
      · exact List.mem_append_left _ (List.mem_singleton_self _)
      · exact List.mem_append_right _ (List.mem_singleton_self _)
    obtain ⟨hunit, c, hc, hthrough⟩ := h.through_of_boundName hk hd hne hu hs rfl hbound
    rcases List.mem_cons.mp hc with rfl | hc
    · exact ⟨hunit, .inl hthrough⟩
    · exact ⟨hunit, .inr (List.mem_singleton.mp hc ▸ hthrough)⟩
  · obtain ⟨hunit, c, hc, hthrough⟩ :=
      h.through_of_boundName hk hd hne hu hs rfl (List.mem_singleton_self _)
    rcases List.mem_cons.mp hc with rfl | hc
    · exact ⟨hunit, .inl hthrough⟩
    · exact ⟨hunit, .inr ⟨c, Option.mem_toList.mp hc, hthrough⟩⟩

theorem definition_boundName_body : ∃ a u b d m object body,
    ofSources {} Imports.none ["foreach (v in t) \x7b v; \x7d"] = .ok a ∧
    a.program.kind? b = some .identifier ∧ ((definition b).run a).1 = some d ∧ d.ref ≠ b.ref ∧
    a.unit? d.unit = some u ∧
    u.arena.shape? m = some (.foreachStatement none d.target object body) ∧ d.unit = b.unit ∧
    (a.program.Through b object m ∨ a.program.Through b body m) := by
  let b : Branch := ⟨⟨0⟩, ⟨2⟩, [⟨3⟩, ⟨4⟩, ⟨5⟩, ⟨6⟩]⟩
  let d : Branch := ⟨⟨0⟩, ⟨0⟩, [⟨5⟩, ⟨6⟩]⟩
  have hbuilt : (ofSources {} Imports.none ["foreach (v in t) \x7b v; \x7d"]).toOption.any
      (fun a => (a.unit? d.unit).any fun u => decide (
        a.program.kind? b = some .identifier ∧ ((definition b).run a).1 = some d ∧
        u.arena.shape? ⟨5⟩ = some (.foreachStatement none d.target ⟨1⟩ ⟨4⟩))) = true := by
    decide +kernel
  obtain ⟨a, ha, h⟩ := exists_ok hbuilt
  obtain ⟨u, hu, h⟩ := (Option.any_eq_true _ _).mp h
  obtain ⟨hk, hd, hs⟩ := of_decide_eq_true h
  exact ⟨a, u, b, d, ⟨5⟩, ⟨1⟩, ⟨4⟩, ha, hk, hd, by decide, hu, hs,
    (definition_boundName (.ofSources ha) hk hd (by decide) hu).1 ⟨5⟩ none d.target ⟨1⟩ ⟨4⟩ hs
      (.inr rfl)⟩

theorem definition_boundName_object : ∃ a u b c d e m n object body block clause,
    ofSources {} Imports.none
      ["foreach (node in node.children) \x7b\x7d try \x7b e; \x7d catch (e) \x7b\x7d"] = .ok a ∧
    a.unit? ⟨0⟩ = some u ∧ a.program.kind? b = some .identifier ∧
    ((definition b).run a).1 = some d ∧ d.ref ≠ b.ref ∧
    u.arena.shape? m = some (.foreachStatement none d.target object body) ∧
    a.program.Through b object m ∧ ¬a.program.Through b body m ∧
    a.program.kind? c = some .identifier ∧ ((definition c).run a).1 = some e ∧ e.ref ≠ c.ref ∧
    u.arena.shape? n = some (.tryStatement block (some e.target) (some clause)) ∧
    a.program.Through c block n ∧ ¬a.program.Through c clause n := by
  let b : Branch := ⟨⟨0⟩, ⟨1⟩, [⟨3⟩, ⟨5⟩, ⟨12⟩]⟩
  let d : Branch := ⟨⟨0⟩, ⟨0⟩, [⟨5⟩, ⟨12⟩]⟩
  let c : Branch := ⟨⟨0⟩, ⟨6⟩, [⟨7⟩, ⟨8⟩, ⟨11⟩, ⟨12⟩]⟩
  let e : Branch := ⟨⟨0⟩, ⟨9⟩, [⟨11⟩, ⟨12⟩]⟩
  have hbuilt : (ofSources {} Imports.none
      ["foreach (node in node.children) \x7b\x7d try \x7b e; \x7d catch (e) \x7b\x7d"]).toOption.any
        (fun a => (a.unit? ⟨0⟩).any fun u => decide (
          (a.program.kind? b = some .identifier ∧ ((definition b).run a).1 = some d ∧
            d.ref ≠ b.ref ∧
            u.arena.shape? ⟨5⟩ = some (.foreachStatement none d.target ⟨3⟩ ⟨4⟩) ∧
            a.program.Through b ⟨3⟩ ⟨5⟩ ∧ ¬a.program.Through b ⟨4⟩ ⟨5⟩) ∧
          a.program.kind? c = some .identifier ∧ ((definition c).run a).1 = some e ∧
            e.ref ≠ c.ref ∧
            u.arena.shape? ⟨11⟩ = some (.tryStatement ⟨8⟩ (some e.target) (some ⟨10⟩)) ∧
            a.program.Through c ⟨8⟩ ⟨11⟩ ∧ ¬a.program.Through c ⟨10⟩ ⟨11⟩)) = true := by
    decide +kernel
  obtain ⟨a, ha, h⟩ := exists_ok hbuilt
  obtain ⟨u, hu, h⟩ := (Option.any_eq_true _ _).mp h
  obtain ⟨⟨hk, hd, hne, hs, hin, hout⟩, hk', hd', hne', hs', hin', hout'⟩ := of_decide_eq_true h
  exact ⟨a, u, b, c, d, e, _, _, _, _, _, _, ha, hu, hk, hd, hne, hs, hin, hout, hk', hd', hne',
    hs', hin', hout'⟩

end Analysis

end SquirrelAnalyzer
