import SquirrelAnalyzer.Proofs.Slots

namespace SquirrelAnalyzer

namespace Arena

variable {a a' : Arena} {m : NodeId}

def Declaration (a : Arena) (m : NodeId) : Prop :=
  ∃ s, a.shape? m = some s ∧ s.isDeclaration = true

def Bound (a : Arena) (m : NodeId) : Prop :=
  (∃ name, a.shape? m = some (.identifier name)) ∧
    ∃ parent s, a.shape? parent = some s ∧ m ∈ s.boundNames

theorem Extends.declaration (h : a.Extends a') (hm : a.Declaration m) : a'.Declaration m := by
  obtain ⟨s, hs, hd⟩ := hm
  exact ⟨s, (h.shape?_eq (lt_size_of_shape? hs)).trans hs, hd⟩

theorem Extends.bound (h : a.Extends a') (hm : a.Bound m) : a'.Bound m := by
  obtain ⟨⟨name, hname⟩, parent, s, hs, hb⟩ := hm
  exact ⟨⟨name, (h.shape?_eq (lt_size_of_shape? hname)).trans hname⟩, parent, s,
    (h.shape?_eq (lt_size_of_shape? hs)).trans hs, hb⟩

end Arena

theorem Shape.isDeclaration_of_isSlot {χ : Type} {s : Shape χ} (h : s.isSlot = true) :
    s.isDeclaration = true := by
  cases s <;> first | rfl | cases h

namespace Declared

variable {a : Arena} {b : Branch} {d : Declared}

theorem Qualified.declaration (h : Qualified a b) : a.Declaration b.target := by
  cases h with
  | function hs | «class» hs | slot hs => exact ⟨_, hs, rfl⟩

structure Leads (a : Arena) (d : Declared) : Prop where
  bindings : ∀ x ∈ d.bindings, a.Declaration x.declaration.declaring ∨
    x.key = x.declaration.declaring ∧ a.Bound x.key
  visible : ∀ x ∈ d.visible, a.Declaration x.2.declaration.target ∨
    a.Bound x.2.declaration.target ∧ ∃ y ∈ d.bindings, y.key = x.2.declaration.target

theorem leads_names {s : Shape NodeId} {key : NodeId} (hs : a.shape? b.target = some s)
    (hdeclaration : s.isDeclaration = true) (h : Names a b key d) : Leads a d := by
  have hb : a.Declaration b.target := ⟨s, hs, hdeclaration⟩
  refine ⟨fun x hx => .inl ?_, fun x hx => .inl ?_⟩
  · rw [(h.binding_eq hx).2]
    exact hb
  · rw [h.declaration_eq hx]
    exact hb

theorem leads_bound {scope m : NodeId} {name : String} {category : Category} {c : Branch}
    (hm : a.Bound m) (hc : c.target = m) :
    Leads a { bindings := [⟨m, m, category⟩], visible := [(scope, ⟨name, c⟩)] } := by
  subst hc
  refine ⟨fun x hx => ?_, fun x hx => ?_⟩
  · rw [List.mem_singleton.mp hx]
    exact .inr ⟨rfl, hm⟩
  · rw [List.mem_singleton.mp hx]
    exact .inr ⟨hm, _, List.mem_singleton_self _, rfl⟩

theorem leads_binds {s : Shape NodeId} {m : NodeId} (hs : a.shape? b.target = some s)
    (hm : m ∈ s.boundNames) (hd : Binds a b m d) : Leads a d := by
  cases hd with
  | nothing => exact ⟨nofun, nofun⟩
  | plain hname => exact leads_bound ⟨⟨_, hname⟩, b.target, s, hs, hm⟩ rfl
  | defaulted hpattern =>
    have hd : a.Declaration m := ⟨_, hpattern, rfl⟩
    refine ⟨fun x hx => .inl ?_, fun x hx => .inl ?_⟩
    · rw [List.mem_singleton.mp hx]
      exact hd
    · rw [List.mem_singleton.mp hx]
      exact hd

theorem leads_parts (a : Arena) (b : Branch) : Parts a b (Leads a) where
  empty := ⟨nofun, nofun⟩
  join h h' := by
    refine ⟨fun x hx => ?_, fun x hx => ?_⟩
    · exact (List.mem_append.mp hx).elim (h.bindings x) (h'.bindings x)
    · rcases List.mem_append.mp hx with hx | hx
      · refine (h.visible x hx).imp_right fun ⟨hb, y, hy, he⟩ => ?_
        exact ⟨hb, y, List.mem_append_left _ hy, he⟩
      · refine (h'.visible x hx).imp_right fun ⟨hb, y, hy, he⟩ => ?_
        exact ⟨hb, y, List.mem_append_right _ hy, he⟩
  own hs hdeclaration _ _ h := leads_names hs hdeclaration h
  below hs hdeclaration _ _ _ _ _ h := leads_names hs hdeclaration h
  parameter hs hp := leads_binds hs hp (binds_parameter ..)
  loopVariable hs hb := leads_binds hs hb (binds_loopVariable ..)

theorem declaring_parts (ha : a.Parsed) {m : NodeId} (hm : a.Bound m) (b : Branch) :
    Parts a b fun d => ∀ x ∈ d.bindings, x.key = m → x.declaration.declaring = m := by
  obtain ⟨-, parent, t, ht, hbound⟩ := hm
  have hchild := Arena.mem_children_of_boundName ht hbound
  have hparent {p : NodeId} {l : Shape NodeId} (hl : a.shape? p = some l)
      (hp : m ∈ l.children .full) : p = parent ∧ l = t := by
    obtain rfl := ha.parent_unique hchild (by rwa [Arena.children_of_shape? hl])
    exact ⟨rfl, Option.some.inj (hl.symm.trans ht)⟩
  have hbinds {c : NodeId} {d : Declared} (hd : Binds a b c d) :
      ∀ x ∈ d.bindings, x.key = m → x.declaration.declaring = m := by
    intro x hx he
    cases hd with
    | nothing => cases hx
    | plain =>
      rw [List.mem_singleton.mp hx] at he
      rwa [List.mem_singleton.mp hx]
    | @defaulted left right name hpattern =>
      rw [List.mem_singleton.mp hx] at he
      obtain rfl : left = m := he
      obtain ⟨-, rfl⟩ := hparent hpattern (Shape.mem_children_of_nameNode rfl)
      cases hbound
  constructor
  · simp
  · intro d d' h h' x hx
    exact (List.mem_append.mp hx).elim (h x) (h' x)
  · intro s key d hs _ hkey hfree h x hx he
    obtain rfl := (h.binding_eq hx).1.symm.trans he
    obtain ⟨-, rfl⟩ := hparent hs hkey
    obtain ⟨low, n, hn⟩ := ha.subtree_of_lt (Arena.lt_size_of_shape? hs)
    have hnodup := hn.inner.nodup
    rw [← hn.children_eq, Arena.children_of_shape? hs] at hnodup
    exact absurd hbound (hfree hnodup)
  · intro s left l key d _ _ _ hl _ hnone hkey h x hx he
    obtain rfl := (h.binding_eq hx).1.symm.trans he
    obtain ⟨-, rfl⟩ := hparent hl hkey
    rw [hnone] at hbound
    cases hbound
  · exact fun _ _ => hbinds (binds_parameter ..)
  · exact fun _ _ => hbinds (binds_loopVariable ..)

end Declared

namespace SourceUnit

variable {u : SourceUnit} {m : NodeId}

structure DeclaresItself (u : SourceUnit) (m : NodeId) : Prop where
  bound : u.arena.Bound m
  written : u.arena.isSynthetic m = false
  declaration : u.declaration? m = some m

def IsDeclaring (u : SourceUnit) (m : NodeId) : Prop := u.arena.Declaration m ∨ u.DeclaresItself m

structure Declaring (u : SourceUnit) : Prop where
  declarations : ∀ {k m}, u.declaration? k = some m →
    u.arena.Declaration m ∨ k = m ∧ u.DeclaresItself m
  scopes : ∀ {id s}, s ∈ u.scope id →
    u.arena.Below u.arena.rootBranch s.declaration ∧ u.IsDeclaring s.declaration.target
  metas : ∀ {cls ids m}, u.facts.metas.get? cls = some ids → m ∈ ids →
    ∃ key, u.arena.shape? m = some (.metaProperty key)

theorem declaration?_bound {config : Config} {a : Arena} (ha : a.Parsed) (hm : a.Bound m)
    {b : Branch} (hb : b ∈ a.preorder a.rootBranch) {x : Binding}
    (hx : x ∈ (Declared.ofBranch a b).bindings) (hkey : x.key = m) :
    (ofArena config a).declaration? m = some m := by
  subst hkey
  obtain ⟨m', hm'⟩ := exists_declaration? config hb hx
  obtain ⟨b', -, x', hx', hkey, rfl⟩ := exists_binding hm'
  have he : x'.declaration.declaring = x.key :=
    (Declared.declaring_parts ha hm b').ofBranch x' hx' hkey
  rw [hm', he]

theorem declaresItself_ofArena {config : Config} {a : Arena} (ha : a.Parsed) (hm : a.Bound m)
    (h : (ofArena config a).declaration? m = some m) : (ofArena config a).DeclaresItself m := by
  refine ⟨hm, ?_, h⟩
  obtain ⟨⟨name, hs⟩, -⟩ := hm
  have hlt := Arena.lt_size_of_shape? hs
  simp only [Arena.isSynthetic, decide_eq_false_iff_not, Nat.not_le]
  exact ha.whole ▸ hlt

theorem declaring_ofArena (config : Config) {a : Arena} (ha : a.Parsed) :
    (ofArena config a).Declaring where
  declarations {k m} h := by
    obtain ⟨b, hb, x, hx, rfl, rfl⟩ := exists_binding h
    refine ((Declared.leads_parts a b).ofBranch.bindings x hx).imp_right fun ⟨he, hbound⟩ => ?_
    rw [he] at hbound h
    exact ⟨he, declaresItself_ofArena ha hbound h⟩
  scopes {id s} hs := by
    obtain ⟨b, hb, hd, hbelow⟩ := exists_visible hs
    refine ⟨hbelow, ((Declared.leads_parts a b).ofBranch.visible _ hd).imp_right ?_⟩
    rintro ⟨hbound, y, hy, he⟩
    exact declaresItself_ofArena ha hbound (declaration?_bound ha hbound hb hy he)
  metas h _ := by
    rw [show (ofArena config a).facts.metas = ∅ from rfl, NodeTable.get?_empty] at h
    cases h

namespace Declaring

theorem mapFacts (h : u.Declaring) {f : Facts → Facts} (hf : (f u.facts).SameNames u.facts) :
    (u.mapFacts f).Declaring := by
  have hdeclaration (k : NodeId) : (u.mapFacts f).declaration? k = u.declaration? k := by
    simp only [declaration?, SourceUnit.mapFacts, hf.declarations]
  have hscope (id : NodeId) : (u.mapFacts f).scope id = u.scope id := by
    simp only [scope, SourceUnit.mapFacts, hf.scopes]
  have hself {m : NodeId} (hm : u.DeclaresItself m) : (u.mapFacts f).DeclaresItself m :=
    ⟨hm.bound, hm.written, (hdeclaration m).trans hm.declaration⟩
  refine ⟨fun {k m} hk => ?_, fun {id s} hs => ?_, fun {cls ids m} hm => ?_⟩
  · rw [hdeclaration] at hk
    exact (h.declarations hk).imp_right fun hm => ⟨hm.1, hself hm.2⟩
  · rw [hscope] at hs
    exact ⟨(h.scopes hs).1, (h.scopes hs).2.imp_right hself⟩
  · exact h.metas (hf.metas ▸ hm)

theorem addMeta (h : u.Declaring) (cls : NodeId) (name : String) (tag : Doc.Attribute)
    (location : Location) : (u.addMeta cls name tag location).2.Declaring := by
  have hext := u.extends_addMeta cls name tag location
  have hproperty : (u.addMeta cls name tag location).2.arena.shape? ⟨u.arena.size + 1⟩ =
      some (.metaProperty ⟨u.arena.size⟩) := by rw [shape?_addMeta, if_pos rfl]
  have hself {m : NodeId} (hm : u.DeclaresItself m) :
      (u.addMeta cls name tag location).2.DeclaresItself m := by
    refine ⟨hext.bound hm.bound, hm.written, ?_⟩
    obtain ⟨⟨name, hs⟩, -⟩ := hm.bound
    have hne : m ≠ ⟨u.arena.size⟩ := by
      rintro rfl
      exact Nat.lt_irrefl _ (Arena.lt_size_of_shape? hs)
    rw [declaration?_addMeta, if_neg hne, hm.declaration]
  refine ⟨fun {k m} hk => ?_, fun {id s} hs => ?_, fun {cls' ids m} hc hm => ?_⟩
  · rw [declaration?_addMeta] at hk
    split at hk
    · cases hk
      exact .inl ⟨_, hproperty, rfl⟩
    · exact (h.declarations hk).imp hext.declaration fun hm => ⟨hm.1, hself hm.2⟩
  · obtain ⟨hbelow, hdeclaring⟩ := h.scopes hs
    exact ⟨hext.below hbelow, hdeclaring.imp hext.declaration hself⟩
  · rw [metas_addMeta] at hc
    rcases NodeTable.mem_of_get?_append hc hm with ⟨-, rfl⟩ | ⟨old, hold, hm⟩
    · exact ⟨_, hproperty⟩
    · obtain ⟨key, hs⟩ := h.metas hold hm
      exact ⟨key, (hext.shape?_eq (Arena.lt_size_of_shape? hs)).trans hs⟩

end Declaring

theorem Declaring.withEntries (h : u.Declaring) (namespaces : List NamespaceEntry)
    (outline : Outline) : ({ u with namespaces, outline } : SourceUnit).Declaring := by
  have hself {m : NodeId} (hm : u.DeclaresItself m) :
      ({ u with namespaces, outline } : SourceUnit).DeclaresItself m :=
    ⟨hm.bound, hm.written, hm.declaration⟩
  refine ⟨fun hk => ?_, fun hs => ?_, h.metas⟩
  · exact (h.declarations hk).imp_right fun hm => ⟨hm.1, hself hm.2⟩
  · exact ⟨(h.scopes hs).1, (h.scopes hs).2.imp_right hself⟩

theorem declaring_build (config : Config) (id : UnitId) {a : Arena} (ha : a.Parsed) :
    (build config id a).Declaring := by
  have hparsed : ({ a with unit := id } : Arena).Parsed := ⟨ha.withUnit id, ha.whole⟩
  exact attachComments_induction (fun _ _ h hf => h.mapFacts hf.toSameNames)
    (fun _ _ _ _ _ h => h.addMeta _ _ _ _) (declaring_ofArena config hparsed) config

end SourceUnit

end SquirrelAnalyzer
