import SquirrelAnalyzer.Proofs.BoundNames

namespace SquirrelAnalyzer

theorem Tree.Fits.owner_child {t : Tree} {r : Role} (h : t.Fits r) : r = .owner ∨ r = .name →
    (t.shape.kind = .identifier ∨ t.shape.kind = .memberExpression) ∧
      ∀ c ∈ t.shape.children .full, ∃ r', (r' = .owner ∨ r' = .name) ∧ c.Fits r' := by
  induction h with
  | ownerName _ ih => exact fun _ => ih (.inr rfl)
  | ownerMember hobject hproperty =>
    refine fun _ => ⟨.inr rfl, fun c hc => ?_⟩
    simp only [shape, Shape.children, Shape.kind, Kind.fields, Shape.field, List.flatMap_cons,
      List.flatMap_nil, List.append_nil, List.mem_append, List.mem_singleton] at hc
    rcases hc with rfl | rfl
    · exact ⟨_, .inl rfl, hobject⟩
    · exact ⟨_, .inr rfl, hproperty⟩
  | name _ => exact fun _ => ⟨.inl rfl, fun c hc => absurd hc List.not_mem_nil⟩
  | _ => rintro (hr | hr) <;> cases hr

theorem Tree.Fits.qualifier {t owner id body : Tree} {r : Role} {params : List Tree}
    (h : t.Fits r) :
    t.shape = .functionDeclaration (some owner) id params body → owner.Fits .owner := by
  induction h with
  | ofBlock _ ih | ofVariables _ ih | ofExpression _ ih | initialVariables _ ih | ofName _ ih
  | propertyName _ ih | ownerName _ ih | identifier _ ih | function _ ih => exact ih
  | functionDeclaration hqualifier _ _ _ =>
    intro hs
    cases hs
    exact hqualifier owner rfl
  | _ => exact nofun

theorem Tree.Fits.boundName {t : Tree} {r : Role} (h : t.Fits r) :
    ∀ c ∈ t.shape.boundNames, c.Fits .parameter := by
  induction h with
  | ofBlock _ ih | ofVariables _ ih | ofExpression _ ih | initialVariables _ ih | ofName _ ih
  | propertyName _ ih | ownerName _ ih | identifier _ ih | function _ ih => exact ih
  | functionDeclaration _ _ hparams _ | method hparams _ | lambda hparams _ => exact hparams
  | foreachStatement hindex hvalue _ _ =>
    intro c hc
    rcases List.mem_append.mp hc with hc | hc
    · exact .ofName (hindex c (Option.mem_toList.mp hc))
    · exact List.mem_singleton.mp hc ▸ .ofName hvalue
  | catchStatement _ _ hparam _ => exact fun c hc => List.mem_singleton.mp hc ▸ .ofName hparam
  | _ => exact nofun

theorem Tree.Fits.kind_parameter {t : Tree} {r : Role} (h : t.Fits r) :
    r = .parameter ∨ r = .name → t.shape.kind.isBindable = true ∨ t.shape.kind = .restElement := by
  induction h with
  | ofName _ ih => exact fun _ => ih (.inr rfl)
  | default | name => exact fun _ => .inl rfl
  | rest => exact fun _ => .inr rfl
  | _ => exact nofun

def Arena.Spells (a : Arena) (m k : NodeId) : Prop :=
  k = m ∨ k ∈ a.children .full m ∨ ∃ c ∈ a.children .full m, k ∈ a.children .full c

theorem Declared.spells_binds {a : Arena} {b : Branch} {m : NodeId} {d : Declared}
    (hd : Binds a b m d) : ∀ x ∈ d.bindings, a.Spells x.declaration.declaring x.key := by
  intro x hx
  cases hd with
  | nothing => cases hx
  | plain =>
    rw [List.mem_singleton.mp hx]
    exact .inl rfl
  | defaulted hs =>
    rw [List.mem_singleton.mp hx]
    refine .inr (.inl ?_)
    rw [Arena.children_of_shape? hs]
    exact Shape.mem_children_of_nameNode rfl

theorem Declared.spells_parts (a : Arena) (b : Branch) :
    Parts a b fun d => ∀ x ∈ d.bindings, a.Spells x.declaration.declaring x.key where
  empty := nofun
  join h h' x hx := (List.mem_append.mp hx).elim (h x) (h' x)
  own hs _ hkey _ h x hx := by
    obtain ⟨rfl, he⟩ := h.binding_eq hx
    exact .inr (.inl (by rwa [he, Arena.children_of_shape? hs]))
  below hs _ hleft hl _ _ hkey h x hx := by
    obtain ⟨rfl, he⟩ := h.binding_eq hx
    refine .inr (.inr ⟨_, ?_, by rwa [Arena.children_of_shape? hl]⟩)
    rwa [he, Arena.children_of_shape? hs]
  parameter _ _ := spells_binds (binds_parameter ..)
  loopVariable _ _ := spells_binds (binds_loopVariable ..)

theorem SourceUnit.spells_of_declaration? {config : Config} {a : Arena} {k m : NodeId}
    (h : (ofArena config a).declaration? k = some m) : a.Spells m k := by
  obtain ⟨b, -, x, hx, rfl, rfl⟩ := exists_binding h
  exact (Declared.spells_parts a b).ofBranch x hx

namespace Arena

variable {a : Arena} {b : Branch} {c e m q : NodeId} {inner outer : List NodeId} {name : String}

theorem Below.along (h : a.Below a.rootBranch b) {R : NodeId → Prop}
    (hpath : b.target :: b.ancestors = inner ++ e :: outer) (he : R e)
    (hstep : ∀ x ∈ (inner ++ [e]).tail, R x → ∀ c ∈ a.children .full x, R c) :
    ∀ id ∈ inner ++ [e], R id := by
  induction inner using List.reverseRecOn generalizing e outer with
  | nil => simpa using he
  | append_singleton pre c ih =>
    rw [List.append_assoc] at hpath
    have htail : (pre ++ [c] ++ [e]).tail = (pre ++ [c]).tail ++ [e] :=
      List.tail_append_of_ne_nil (by simp)
    rw [htail] at hstep
    have hc : R c := hstep e (by simp) he c (h.child_of_path hpath)
    have hpre := ih hpath hc fun x hx => hstep x (List.mem_append_left _ hx)
    intro id hid
    rcases List.mem_append.mp hid with hid | hid
    · exact hpre id hid
    · exact List.mem_singleton.mp hid ▸ he

theorem exists_parameterName? {kind : Kind} (hk : a.kind? q = some kind)
    (hbindable : kind.isBindable = true ∨ kind = .restElement)
    (h : a.parameterText? q = some name) :
    ∃ key, a.parameterName? q = some key ∧ a.identifierName? key = some name := by
  rw [a.kind?_eq_map] at hk
  obtain ⟨s, hs, rfl⟩ := Option.map_eq_some_iff.mp hk
  rw [parameterText?, hs, Option.bind_some] at h
  cases s with
  | identifier text => exact ⟨q, by rw [parameterName?, hs], h⟩
  | assignmentPattern left right => exact ⟨left, by rw [parameterName?, hs], h⟩
  | restElement =>
    have hnone : a.identifierName? q = none := by rw [identifierName?, hs]; rfl
    rw [show a.identifierName? q = some name from h] at hnone
    cases hnone
  | _ => rcases hbindable with hk | hk <;> cases hk

theorem Grammatical.kind_boundName (h : a.Grammatical) {s : Shape NodeId}
    (hs : a.shape? m = some s) (hq : q ∈ s.boundNames) :
    ∃ kind, a.kind? q = some kind ∧ (kind.isBindable = true ∨ kind = .restElement) := by
  have hlt : q.index < a.size :=
    Nat.lt_trans (h.child_lt (mem_children_of_boundName hs hq)) (lt_size_of_shape? hs)
  rcases h.fits hs with ⟨body, rfl⟩ | ⟨r, hfits⟩
  · cases hq
  · have hmem : a.tree q ∈ (a.tree m).shape.boundNames := by
      rw [h.shape_tree hs, Shape.boundNames_map]
      exact List.mem_map_of_mem hq
    exact ⟨_, h.kind?_tree hlt, (hfits.boundName _ hmem).kind_parameter (.inl rfl)⟩

theorem Extends.below_of_lt {a' : Arena} (h : a.Extends a') (ha : a.Parsed) (ha' : a'.Rooted)
    (hb : a'.Below a'.rootBranch b) (hlt : b.target.index < a.size) : a.Below a.rootBranch b := by
  obtain ⟨c, -, -, hc, htarget, -⟩ := ha.exists_below (ha.whole ▸ hlt)
  have hroot : a'.rootBranch = a.rootBranch := by
    rw [Arena.rootBranch, h.unit, h.root]
    rfl
  have hto := ha'.branchTo_of_below (hroot ▸ h.below hc)
  rw [htarget, ha'.branchTo_of_below hb] at hto
  obtain rfl := Option.some.inj hto
  exact hc

theorem Parsed.up_of_path (h : a.Parsed) (hb : a.Below a.rootBranch b)
    (hpath : b.target :: b.ancestors = inner ++ e :: m :: outer) {y z : NodeId}
    (hz : z ∈ inner ++ [e]) (hy : z ∈ a.children .full y) :
    y ∈ inner ++ [e] ∨ y = m ∧ z = e := by
  obtain ⟨pre, post, hsplit⟩ := List.append_of_mem hz
  have hwhole : b.target :: b.ancestors = pre ++ z :: (post ++ m :: outer) := by
    rw [hpath, List.append_cons, hsplit, List.append_assoc]
    rfl
  cases post with
  | nil =>
    have he : [e] = [z] := (List.append_inj' hsplit rfl).2
    exact .inr ⟨h.parent_unique (hb.child_of_path hwhole) hy, (List.cons.inj he).1.symm⟩
  | cons w post =>
    obtain rfl := h.parent_unique (hb.child_of_path hwhole) hy
    exact .inl (hsplit ▸ by simp)

def InOwner (a : Arena) (id : NodeId) : Prop :=
  id.index < a.size ∧ ∃ r, (r = .owner ∨ r = .name) ∧ (a.tree id).Fits r

section Qualifier

variable {f body : NodeId} {params : List NodeId} (h : a.Grammatical)
  (hs : a.shape? m = some (.functionDeclaration (some e) f params body))
  (hb : a.Below a.rootBranch b) (hpath : b.target :: b.ancestors = inner ++ e :: m :: outer)

include h hs hb hpath

theorem Grammatical.kind_of_qualifier :
    ∀ x ∈ inner ++ [e], a.kind? x = some .identifier ∨ a.kind? x = some .memberExpression := by
  have hlt {x c : NodeId} {s : Shape NodeId} (hs : a.shape? x = some s)
      (hc : c ∈ s.children .full) : c.index < a.size := by
    have hmem : c ∈ a.children .full x := children_of_shape? hs .full ▸ hc
    exact Nat.lt_trans (h.child_lt hmem) (lt_size_of_shape? hs)
  have he : a.InOwner e := by
    refine ⟨hlt hs (by simp [Shape.children, Shape.kind, Kind.fields, Shape.field]), .owner,
      .inl rfl, ?_⟩
    rcases h.fits hs with ⟨body, he⟩ | ⟨r, hfits⟩
    · cases he
    · exact hfits.qualifier (h.shape_tree hs)
  have halong : ∀ x ∈ inner ++ [e], a.InOwner x := by
    refine hb.along hpath he fun x _ hx c hc => ?_
    obtain ⟨-, r, hr, hfits⟩ := hx
    obtain ⟨s, hs, hc⟩ := exists_shape?_of_child hc
    have hmem : a.tree c ∈ (a.tree x).shape.children .full := by
      rw [h.shape_tree hs, Shape.children_map]
      exact List.mem_map_of_mem hc
    exact ⟨hlt hs hc, (hfits.owner_child hr).2 _ hmem⟩
  intro x hx
  obtain ⟨hx, r, hr, hfits⟩ := halong x hx
  rw [h.kind?_tree hx]
  exact (hfits.owner_child hr).1.imp (congrArg some) (congrArg some)

theorem Grammatical.not_mem_qualifier_of_param (hq : q ∈ params) : q ∉ inner ++ [e] := by
  intro hmem
  rcases h.up_of_path hb hpath hmem (mem_children_of_boundName hs hq) with hm | ⟨-, rfl⟩
  · have hk : a.kind? m = some .functionDeclaration := by rw [a.kind?_eq_map, hs]; rfl
    rcases h.kind_of_qualifier hs hb hpath m hm with he | he
    · rw [hk] at he
      cases he
    · rw [hk] at he
      cases he
  · obtain ⟨low, n, hn⟩ := h.subtree_of_lt (lt_size_of_shape? hs)
    have hnodup := hn.inner.nodup
    rw [← hn.children_eq, children_of_shape? hs] at hnodup
    refine (List.nodup_cons.mp hnodup).1 ?_
    simp [Shape.field, hq]

theorem Grammatical.not_mem_params_of_spells (hspells : a.Spells q b.target) : q ∉ params := by
  intro hq
  have hnot : q ∉ inner ++ [e] := h.not_mem_qualifier_of_param hs hb hpath hq
  have hlt : q.index < m.index := h.child_lt (mem_children_of_boundName hs hq)
  have htarget : b.target ∈ inner ++ [e] := by
    cases inner with
    | nil => exact (List.cons.inj hpath).1 ▸ List.mem_cons_self
    | cons x inner => exact (List.cons.inj hpath).1 ▸ List.mem_cons_self
  rcases hspells with he | hchild | ⟨c, hc, hchild⟩
  · exact hnot (he ▸ htarget)
  · rcases h.up_of_path hb hpath htarget hchild with hin | ⟨rfl, -⟩
    · exact hnot hin
    · exact Nat.lt_irrefl _ hlt
  · rcases h.up_of_path hb hpath htarget hchild with hin | ⟨rfl, -⟩
    · rcases h.up_of_path hb hpath hin hc with hin | ⟨rfl, -⟩
      · exact hnot hin
      · exact Nat.lt_irrefl _ hlt
    · exact Nat.lt_asymm hlt (h.child_lt hc)

end Qualifier

theorem Extends.parameterText?_eq {a' : Arena} (h : a.Extends a') (ha : a.Ascending)
    (hq : q.index < a.size) : a'.parameterText? q = a.parameterText? q := by
  have hkey : (((a.shape? q).bind Shape.nameNode?).getD q).index < a.size := by
    cases hname : (a.shape? q).bind Shape.nameNode? with
    | none => exact hq
    | some key =>
      obtain ⟨s, hs, hkey⟩ := Option.bind_eq_some_iff.mp hname
      have hchild : key ∈ a.children .full q :=
        children_of_shape? hs .full ▸ Shape.mem_children_of_nameNode hkey
      exact Nat.lt_trans (ha _ _ hchild) hq
  rw [Arena.parameterText?, Arena.parameterText?, h.shape?_eq hq, Arena.identifierName?,
    Arena.identifierName?, h.shape?_eq hkey]

end Arena

namespace SourceUnit

variable {config : Config} {a : Arena} {m q : NodeId} {name : String}

theorem mem_scope_ofArena {b : Branch} (hb : b ∈ a.preorder a.rootBranch) {s : ScopedName}
    (hs : (m, s) ∈ (Declared.ofBranch a b).visible) : s ∈ (ofArena config a).scope m := by
  unfold scope ofArena
  dsimp only
  rw [NodeTable.getD_get?_group]
  refine List.mem_map.mpr ⟨(m, s), List.mem_filter.mpr ⟨?_, by simp⟩, rfl⟩
  exact List.mem_flatMap.mpr ⟨_, List.mem_map_of_mem hb, hs⟩

theorem ReadFrom.shape?_written {u : SourceUnit} {s : Shape NodeId} (h : u.ReadFrom config a)
    (hs : u.arena.shape? m = some s) (hname : s.kind ≠ .identifier)
    (hproperty : s.kind ≠ .metaProperty) : a.shape? m = some s := by
  rcases h.shape?_base hs with hbase | ⟨key, rfl⟩ | ⟨text, rfl⟩
  · exact hbase
  · exact absurd rfl hproperty
  · exact absurd rfl hname

theorem ReadFrom.below {u : SourceUnit} {b : Branch} (h : u.ReadFrom config a)
    (hrooted : u.arena.Rooted) (hb : u.arena.Below u.arena.rootBranch b)
    (hwritten : u.arena.isSynthetic b.target = false) : a.Below a.rootBranch b := by
  have harena := h.unit.arena
  refine harena.below_of_lt h.parsed hrooted hb ?_
  have hparsed : u.arena.parsedSize = a.parsedSize := harena.parsedSize
  show b.target.index < a.size
  rw [← h.parsed.whole, ← hparsed]
  simpa [Arena.isSynthetic] using hwritten

theorem lists_parameter (ha : a.Parsed) {qualifier : Option NodeId} {id body key : NodeId}
    {params : List NodeId} (hs : a.shape? m = some (.functionDeclaration qualifier id params body))
    (hq : q ∈ params) (hkey : a.parameterName? q = some key)
    (hname : a.identifierName? key = some name) : (ofArena config a).Lists name m := by
  obtain ⟨b, hb, rfl⟩ := ha.exists_mem_preorder (Arena.lt_size_of_shape? hs)
  refine ⟨⟨name, b.child q⟩, mem_scope_ofArena hb ?_, rfl⟩
  rw [Declared.ofBranch, hs]
  refine List.mem_append_left _ ?_
  rw [Declared.visible_joinAll]
  refine List.mem_flatMap.mpr ⟨_, List.mem_map_of_mem hq, ?_⟩
  simp [Arena.parameter, hkey, hname]

end SourceUnit

namespace Analysis.Reachable

variable {asked : Program → Branch → Prop} {a : Analysis} {id : UnitId} {u : SourceUnit}
  {b : Branch} {e m q f body : NodeId} {params inner outer : List NodeId} {s : Shape NodeId}
  {name : String}

theorem kind_boundName (h : a.Reachable asked) (hu : a.unit? id = some u)
    (hs : u.arena.shape? m = some s) (hq : q ∈ s.boundNames) :
    ∃ kind, u.arena.kind? q = some kind ∧ (kind.isBindable = true ∨ kind = .restElement) := by
  obtain ⟨base, hr⟩ := h.exists_readFrom hu
  rcases hr.shape?_base hs with hbase | ⟨key, rfl⟩ | ⟨text, rfl⟩
  · obtain ⟨kind, hk, hbindable⟩ := hr.grammatical.kind_boundName hbase hq
    exact ⟨kind, hr.unit.arena.kind?_eq hk, hbindable⟩
  · cases hq
  · cases hq

theorem lists_parameter (h : a.Reachable asked) (hu : a.unit? id = some u)
    {qualifier : Option NodeId}
    (hs : u.arena.shape? m = some (.functionDeclaration qualifier f params body)) (hq : q ∈ params)
    (hname : u.arena.parameterText? q = some name) : u.Lists name m := by
  obtain ⟨base, hr⟩ := h.exists_readFrom hu
  have hbase := hr.shape?_written hs nofun nofun
  obtain ⟨kind, hk, hbindable⟩ := hr.grammatical.kind_boundName hbase hq
  have hlt : q.index < base.size :=
    Nat.lt_trans (hr.parsed.child_lt (Arena.mem_children_of_boundName hbase hq))
      (Arena.lt_size_of_shape? hbase)
  rw [hr.unit.arena.parameterText?_eq (hr.parsed.ascending hr.parsed.whole) hlt] at hname
  obtain ⟨key, hkey, htext⟩ := Arena.exists_parameterName? hk hbindable hname
  obtain ⟨t, ht, he⟩ : (SourceUnit.ofArena a.program.config base).Lists name m :=
    SourceUnit.lists_parameter hr.parsed hbase hq hkey htext
  exact ⟨t, by rwa [SourceUnit.scope, hr.unit.scopes], he⟩

theorem not_nearestScope_of_named (h : a.Reachable asked) (hu : a.unit? id = some u)
    (hs : u.arena.shape? m = some (.functionDeclaration (some e) f params body)) {d : Branch}
    (hbelow : u.arena.Below u.arena.rootBranch d) {t : Shape NodeId}
    (ht : u.arena.shape? d.target = some t) (hnamed : t.isNamedAround = true) :
    ¬u.arena.NearestScope d m := by
  rintro ⟨between, above, hancestors, -, hbetween⟩
  obtain ⟨pre, c, hpre⟩ : ∃ pre c, d.target :: between = pre ++ [c] :=
    ⟨_, _, (List.dropLast_append_getLast (List.cons_ne_nil _ _)).symm⟩
  have hpath : d.target :: d.ancestors = pre ++ c :: m :: above := by
    rw [hancestors, ← List.cons_append, hpre, List.append_assoc]
    rfl
  have hchild := hbelow.child_of_path hpath
  rw [Arena.children_of_shape? hs] at hchild
  rcases Shape.mem_header_or_eq_body hchild with hheader | rfl
  · obtain ⟨I, hI⟩ := h.exists_inlines hu
    have hinline : ∀ x ∈ pre ++ [c], I x := by
      refine hbelow.along hpath (hI.header hs hheader).1 fun x hx hIx y hy => ?_
      rw [← hpre] at hx
      obtain ⟨kind, hkind, hscope⟩ := hbetween x hx
      obtain ⟨sx, hsx, hy⟩ := Arena.exists_shape?_of_child hy
      rw [u.arena.kind?_eq_map, hsx] at hkind
      cases hkind
      have hfunction : sx.kind.isFunction = false := by
        cases sx <;> first | rfl | cases hscope
      exact (hI.child hIx hsx hfunction hy).1
    have hItarget : I d.target := hinline d.target (hpre ▸ List.mem_cons_self)
    rw [(hI.kind hItarget ht).1] at hnamed
    cases hnamed
  · have hblock : u.arena.kind? c = some .blockStatement := h.kind_memberBody hu hs rfl
    have hmem : c ∈ d.target :: between := hpre ▸ List.mem_append_right _ (by simp)
    rcases List.mem_cons.mp hmem with rfl | hmem
    · rw [u.arena.kind?_eq_map, ht] at hblock
      cases t with
      | blockStatement => cases hnamed
      | _ => cases hblock
    · obtain ⟨kind, hkind, hscope⟩ := hbetween _ hmem
      rw [hblock] at hkind
      cases hkind
      cases hscope

theorem bound_of_scope (h : a.Reachable asked) (hu : a.unit? id = some u)
    (hs : u.arena.shape? m = some (.functionDeclaration (some e) f params body)) {s : ScopedName}
    (hmem : s ∈ u.scope m) :
    s.declaration.target ∈ params ∧ u.arena.parameterText? s.declaration.target = some s.name := by
  have hfiled := h.filed hu
  cases hfiled.files m s hmem with
  | bound ht hbound _ hname =>
    rw [hs] at ht
    cases ht
    exact ⟨hbound, hname⟩
  | rootSlot _ _ _ hroot =>
    have hkm := hfiled.root
    rw [← hroot, u.arena.kind?_eq_map, hs] at hkm
    cases hkm
  | named ht hnamed _ _ hscope =>
    exact absurd hscope (h.not_nearestScope_of_named hu hs (hfiled.below m s hmem) ht hnamed)

theorem kind_of_qualifier (h : a.Reachable asked) (hu : a.unit? id = some u)
    (hs : u.arena.shape? m = some (.functionDeclaration (some e) f params body))
    (hb : u.arena.Below u.arena.rootBranch b) (hwritten : u.arena.isSynthetic b.target = false)
    (hpath : b.target :: b.ancestors = inner ++ e :: m :: outer) :
    ∀ x ∈ inner ++ [e], u.arena.kind? x = some .identifier ∨
      u.arena.kind? x = some .memberExpression := by
  obtain ⟨base, hr⟩ := h.exists_readFrom hu
  have hbase := hr.below (h.sound.unit id u hu).2.rooted hb hwritten
  intro x hx
  exact (hr.grammatical.kind_of_qualifier (hr.shape?_written hs nofun nofun) hbase hpath x hx).imp
    hr.unit.arena.kind?_eq hr.unit.arena.kind?_eq

theorem not_mem_params_of_qualifier (h : a.Reachable asked) (hu : a.unit? b.unit = some u)
    (hs : u.arena.shape? m = some (.functionDeclaration (some e) f params body))
    (hpath : b.target :: (a.program.anchor b).ancestors = inner ++ e :: m :: outer)
    (hq : u.declaration? b.target = some q) : q ∉ params := by
  intro hmem
  obtain ⟨-, htarget⟩ := Branch.ref_eq_iff.mp (h.sound.ref_anchor b)
  obtain ⟨base, hr⟩ := h.exists_readFrom hu
  have hbase := hr.shape?_written hs nofun nofun
  have hlt : q.index < base.size :=
    Nat.lt_trans (hr.parsed.child_lt (Arena.mem_children_of_boundName hbase hmem))
      (Arena.lt_size_of_shape? hbase)
  have hdeclared := (hr.unit.declaration b.target q hlt).mp hq
  have hwritten : u.arena.isSynthetic b.target = false := by
    have hparsed : u.arena.parsedSize = base.parsedSize := hr.unit.arena.parsedSize
    have hkey := SourceUnit.index_lt_of_declaration? hr.parsed hdeclared
    simpa [Arena.isSynthetic, hparsed, hr.parsed.whole] using hkey
  have hbelow := hr.below (h.sound.unit _ u hu).2.rooted (h.sound.anchor_below hu hwritten)
    (htarget ▸ hwritten)
  rw [← htarget] at hpath hdeclared
  exact hr.grammatical.not_mem_params_of_spells hbase hbelow hpath
    (SourceUnit.spells_of_declaration? hdeclared) hmem

end Analysis.Reachable

end SquirrelAnalyzer
