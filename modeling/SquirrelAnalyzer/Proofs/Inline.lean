import SquirrelAnalyzer.Proofs.Sight

namespace SquirrelAnalyzer

namespace Shape

variable {α β : Type}

def header : Shape α → List α
  | functionDeclaration qualifier id params _ => qualifier.toList ++ id :: params
  | functionExpression params _ | lambdaExpression params _ => params
  | classDeclaration qualifier id superclass _ => qualifier.toList ++ id :: superclass.toList
  | classExpression superclass _ => superclass.toList
  | _ => []

theorem header_map (f : α → β) (s : Shape α) : (s.map f).header = s.header.map f := by
  cases s <;> simp [map, header, Option.toList_map]

theorem memberBody?_map (f : α → β) (s : Shape α) :
    (s.map f).memberBody? = s.memberBody?.map f := by
  cases s with
  | functionDeclaration qualifier id params body => cases qualifier <;> rfl
  | _ => rfl

theorem mem_children_of_header {s : Shape α} {c : α} (h : c ∈ s.header) :
    c ∈ s.children .full := by
  cases s with
  | functionDeclaration | functionExpression | lambdaExpression | classDeclaration
  | classExpression =>
    simp only [header, List.mem_append, List.mem_cons] at h
    simp only [children, kind, Kind.fields, List.flatMap_cons, List.mem_append, field,
      List.mem_singleton]
    tauto
  | _ => cases h

theorem mem_header_or_eq_body {qualifier : Option α} {id body c : α} {params : List α}
    (h : c ∈ (functionDeclaration qualifier id params body).children .full) :
    c ∈ (functionDeclaration qualifier id params body).header ∨ c = body := by
  simp only [children, kind, Kind.fields, field, List.flatMap_cons, List.flatMap_nil,
    List.mem_append, List.append_nil, List.mem_singleton] at h
  simp only [header, List.mem_append, List.mem_cons]
  tauto

theorem mem_children_of_memberBody {s : Shape α} {c : α} (h : s.memberBody? = some c) :
    c ∈ s.children .full := by
  cases s with
  | functionDeclaration qualifier id params body =>
    cases qualifier with
    | none => cases h
    | some qualifier =>
      cases h
      simp [children, kind, Kind.fields, field]
  | classDeclaration | classExpression =>
    cases h
    simp [children, kind, Kind.fields, field]
  | _ => cases h

theorem isNamedAround_map (f : α → β) (s : Shape α) :
    (s.map f).isNamedAround = s.isNamedAround := by
  cases s with
  | functionDeclaration qualifier id params body => cases qualifier <;> rfl
  | classDeclaration qualifier id superclass body => cases qualifier <;> rfl
  | _ => rfl

end Shape

theorem Kind.isClass_of_partRole {k : Kind} (h : Tree.Role.classBody ∈ k.partRoles) :
    k.isClass = true := by
  have hall : ∀ k ∈ Kind.all, Tree.Role.classBody ∈ k.partRoles → k.isClass = true := by decide
  exact hall k k.mem_all h

namespace Tree

def Role.isInline : Role → Bool
  | .statement | .block | .variables | .declarator | .initial => false
  | _ => true

namespace Fits

variable {t body : Tree} {r : Role}

theorem partRoles_inline (h : t.Fits r) : r.isInline = true → t.shape.kind.isFunction = false →
    t.shape.kind.partRoles.all Role.isInline = true := by
  induction h with
  | ofName _ ih | propertyName _ ih | ownerName _ ih | identifier _ ih | function _ ih => exact ih
  | _ => first | exact fun _ _ => rfl | exact nofun

theorem inline_child (h : t.Fits r) (hinline : r.isInline = true)
    (hfunction : t.shape.kind.isFunction = false) : ∀ c ∈ t.shape.children .full,
      ∃ r', c.Fits r' ∧ r'.isInline = true ∧ (r' = .classBody → t.shape.kind.isClass = true) := by
  intro c hc
  obtain ⟨r', hpart, hfits⟩ := h.part c hc
  have hall := List.all_eq_true.mp (h.partRoles_inline hinline hfunction)
  exact ⟨r', hfits, hall r' hpart, fun hr => Kind.isClass_of_partRole (hr ▸ hpart)⟩

theorem kind_inline (h : t.Fits r) : r.isInline = true → t.shape.isNamedAround = false ∧
    (t.shape.kind.isScope = true → t.shape.kind.isFunction = true) := by
  induction h with
  | ofName _ ih | propertyName _ ih | ownerName _ ih | identifier _ ih | function _ ih => exact ih
  | _ => first | exact fun _ => ⟨rfl, fun h => h⟩ | exact nofun

theorem role_of_classBody (h : t.Fits r) : t.shape.kind = .classBody → r = .classBody := by
  induction h with
  | ofBlock h _ =>
    cases h
    exact nofun
  | ofVariables h _ | initialVariables h _ =>
    cases h
    exact nofun
  | ofExpression _ ih | identifier _ ih | ofName _ ih | propertyName _ ih | ownerName _ ih
  | function _ ih =>
    intro hk
    cases ih hk
  | classBody _ => exact fun _ => rfl
  | _ => exact nofun

theorem header_inline (h : t.Fits r) : ∀ c ∈ t.shape.header,
    ∃ r', c.Fits r' ∧ r'.isInline = true ∧ r' ≠ .classBody := by
  induction h with
  | ofBlock _ ih | ofVariables _ ih | ofExpression _ ih | initialVariables _ ih | ofName _ ih
  | propertyName _ ih | ownerName _ ih | identifier _ ih | function _ ih => exact ih
  | functionDeclaration hqualifier hid hparams _ =>
    intro c hc
    rcases List.mem_append.mp hc with hc | hc
    · exact ⟨.owner, hqualifier c (Option.mem_toList.mp hc), rfl, by decide⟩
    rcases List.mem_cons.mp hc with rfl | hc
    · exact ⟨.name, hid, rfl, by decide⟩
    · exact ⟨.parameter, hparams c hc, rfl, by decide⟩
  | classDeclaration hqualifier hid hsuperclass _ =>
    intro c hc
    rcases List.mem_append.mp hc with hc | hc
    · exact ⟨.owner, hqualifier c (Option.mem_toList.mp hc), rfl, by decide⟩
    rcases List.mem_cons.mp hc with rfl | hc
    · exact ⟨.name, hid, rfl, by decide⟩
    · exact ⟨.expression, hsuperclass c (Option.mem_toList.mp hc), rfl, by decide⟩
  | method hparams _ | lambda hparams _ =>
    exact fun c hc => ⟨.parameter, hparams c hc, rfl, by decide⟩
  | classExpression hsuperclass _ =>
    exact fun c hc => ⟨.expression, hsuperclass c (Option.mem_toList.mp hc), rfl, by decide⟩
  | _ => exact nofun

theorem kind_memberBody (h : t.Fits r) : t.shape.memberBody? = some body →
    body.shape.kind = if t.shape.kind.isClass then .classBody else .blockStatement := by
  have hblock {t : Tree} (h : t.Fits .block) : t.shape.kind = .blockStatement := by
    cases h
    rfl
  have hclass {t : Tree} (h : t.Fits .classBody) : t.shape.kind = .classBody := by
    cases h
    rfl
  induction h with
  | ofBlock _ ih | ofVariables _ ih | ofExpression _ ih | initialVariables _ ih | ofName _ ih
  | propertyName _ ih | ownerName _ ih | identifier _ ih | function _ ih => exact ih
  | @functionDeclaration _ qualifier _ _ _ _ _ _ hbody =>
    intro hs
    cases qualifier with
    | none => cases hs
    | some qualifier =>
      cases hs
      exact hblock hbody
  | classDeclaration _ _ _ hbody | classExpression _ hbody =>
    intro hs
    cases hs
    exact hclass hbody
  | _ =>
    intro hs
    cases hs

end Fits

end Tree

namespace Arena

structure Inlines (a : Arena) (I : NodeId → Prop) : Prop where
  known : ∀ {id}, I id → id.index < a.size
  header : ∀ {id c s}, a.shape? id = some s → c ∈ s.header →
    I c ∧ a.kind? c ≠ some .classBody
  child : ∀ {id c s}, I id → a.shape? id = some s → s.kind.isFunction = false →
    c ∈ s.children .full → I c ∧ (a.kind? c = some .classBody → s.kind.isClass = true)
  kind : ∀ {id s}, I id → a.shape? id = some s → s.isNamedAround = false ∧
    (s.kind.isScope = true → s.kind.isFunction = true)

variable {a a' : Arena} {id m : NodeId} {s : Shape NodeId}

namespace Grammatical

theorem kind_of_role (h : a.Grammatical) {r : Tree.Role} (hid : id.index < a.size)
    (hr : (a.tree id).Fits r) : a.kind? id = some .classBody → r = .classBody := by
  rw [h.kind?_tree hid]
  exact fun hk => hr.role_of_classBody (Option.some.inj hk)

theorem inlines (h : a.Grammatical) :
    a.Inlines fun id => id.index < a.size ∧ ∃ r, (a.tree id).Fits r ∧ r.isInline = true where
  known hid := hid.1
  header {id c s} hs hc := by
    have hshape := h.shape_tree hs
    rcases h.fits hs with ⟨body, rfl⟩ | ⟨r, hfits⟩
    · cases hc
    · have hchild : a.tree c ∈ (a.tree id).shape.header := by
        rw [hshape, Shape.header_map]
        exact List.mem_map_of_mem hc
      obtain ⟨r', hr', hinline, hne⟩ := hfits.header_inline _ hchild
      have hlt : c.index < a.size := by
        have hfull := children_of_shape? hs .full
        have hmem : c ∈ a.children .full id := hfull ▸ Shape.mem_children_of_header hc
        exact Nat.lt_trans (h.child_lt hmem) (lt_size_of_shape? hs)
      exact ⟨⟨hlt, r', hr', hinline⟩, fun hk => hne (h.kind_of_role hlt hr' hk)⟩
  child {id c s} hid hs hfunction hc := by
    obtain ⟨hlt, r, hfits, hinline⟩ := hid
    have hshape := h.shape_tree hs
    have hchild : a.tree c ∈ (a.tree id).shape.children .full := by
      rw [hshape, Shape.children_map]
      exact List.mem_map_of_mem hc
    obtain ⟨r', hr', hinline', hclass⟩ := hfits.inline_child hinline
      (by rw [hshape, Shape.kind_map]; exact hfunction) _ hchild
    have hmem : c ∈ a.children .full id := children_of_shape? hs .full ▸ hc
    have hltc : c.index < a.size := Nat.lt_trans (h.child_lt hmem) hlt
    refine ⟨⟨hltc, r', hr', hinline'⟩, fun hk => ?_⟩
    have hclass := hclass (h.kind_of_role hltc hr' hk)
    rwa [hshape, Shape.kind_map] at hclass
  kind {id s} hid hs := by
    obtain ⟨-, r, hfits, hinline⟩ := hid
    have hkind := hfits.kind_inline hinline
    rwa [h.shape_tree hs, Shape.isNamedAround_map, Shape.kind_map] at hkind

theorem kind_memberBody (h : a.Grammatical) (hs : a.shape? m = some s)
    (hbody : s.memberBody? = some id) :
    a.kind? id = some (if s.kind.isClass then .classBody else .blockStatement) := by
  rcases h.fits hs with ⟨body, rfl⟩ | ⟨r, hfits⟩
  · cases hbody
  · have hmem : id ∈ a.children .full m :=
      children_of_shape? hs .full ▸ Shape.mem_children_of_memberBody hbody
    rw [h.kind?_tree (Nat.lt_trans (h.child_lt hmem) (lt_size_of_shape? hs))]
    have hshape := h.shape_tree hs
    have hbody : (a.tree m).shape.memberBody? = some (a.tree id) := by
      rw [hshape, Shape.memberBody?_map, hbody, Option.map_some]
    rw [hfits.kind_memberBody hbody, hshape, Shape.kind_map]

end Grammatical

theorem Inlines.extends {I : NodeId → Prop} (h : a.Inlines I)
    (hext : a.Extends a')
    (hnew : ∀ id s, a.size ≤ id.index → a'.shape? id = some s → s.header = []) :
    a'.Inlines I := by
  have hold {id : NodeId} {s : Shape NodeId} (hid : id.index < a.size)
      (hs : a'.shape? id = some s) : a.shape? id = some s := (hext.shape?_eq hid).symm.trans hs
  have hkind {id : NodeId} (hid : I id) : a'.kind? id = a.kind? id := by
    rw [kind?_eq_map, kind?_eq_map, hext.shape?_eq (h.known hid)]
  refine ⟨fun hid => Nat.lt_of_lt_of_le (h.known hid) hext.size, ?_, ?_, ?_⟩
  · intro id c s hs hc
    have hid : id.index < a.size := by
      by_contra hge
      rw [hnew id s (Nat.le_of_not_lt hge) hs] at hc
      cases hc
    obtain ⟨hI, hne⟩ := h.header (hold hid hs) hc
    exact ⟨hI, by rwa [hkind hI]⟩
  · intro id c s hid hs hfunction hc
    obtain ⟨hI, hclass⟩ := h.child hid (hold (h.known hid) hs) hfunction hc
    exact ⟨hI, by rwa [hkind hI]⟩
  · exact fun hid hs => h.kind hid (hold (h.known hid) hs)

end Arena

namespace Analysis.Reachable

variable {asked : Program → Branch → Prop} {a : Analysis} {id : UnitId} {u : SourceUnit}

theorem exists_inlines (h : a.Reachable asked) (hu : a.unit? id = some u) :
    ∃ I, u.arena.Inlines I := by
  obtain ⟨base, hr⟩ := h.exists_readFrom hu
  refine ⟨_, hr.grammatical.inlines.extends hr.unit.arena fun m s hm hs => ?_⟩
  rcases hr.shape?_base hs with hbase | ⟨key, rfl⟩ | ⟨name, rfl⟩
  · exact absurd (Arena.lt_size_of_shape? hbase) (Nat.not_lt_of_le hm)
  · rfl
  · rfl

theorem kind_memberBody (h : a.Reachable asked) (hu : a.unit? id = some u) {m c : NodeId}
    {s : Shape NodeId} (hs : u.arena.shape? m = some s) (hbody : s.memberBody? = some c) :
    u.arena.kind? c = some (if s.kind.isClass then .classBody else .blockStatement) := by
  obtain ⟨base, hr⟩ := h.exists_readFrom hu
  rcases hr.shape?_base hs with hbase | ⟨key, rfl⟩ | ⟨name, rfl⟩
  · exact hr.unit.arena.kind?_eq (hr.grammatical.kind_memberBody hbase hbody)
  · cases hbody
  · cases hbody

theorem kind_of_isMemberBody (h : a.Reachable asked) (hu : a.unit? id = some u) {c : NodeId}
    (hc : u.arena.isMemberBody c = true) :
    u.arena.kind? c = some .classBody ∨ u.arena.kind? c = some .blockStatement := by
  obtain ⟨m, s, hs, hbody⟩ := Arena.exists_of_isMemberBody hc
  have hkind := h.kind_memberBody hu hs hbody
  split at hkind
  · exact .inl hkind
  · exact .inr hkind

theorem passes_of_kind (h : a.Reachable asked) (hu : a.unit? id = some u) {c : NodeId} {kind : Kind}
    (hk : u.arena.kind? c = some kind) (hscope : kind.isScope = false) (hne : kind ≠ .classBody)
    (name : String) : u.Passes name c := by
  refine ⟨fun hlists => ?_, ?_⟩
  · obtain ⟨scope, hkind, hlisted⟩ := (h.filed hu).isScope_of_lists hlists
    rw [hk] at hkind
    obtain rfl := Option.some.inj hkind
    rw [hscope] at hlisted
    cases hlisted
  · rw [← Bool.not_eq_true]
    intro hbody
    rcases h.kind_of_isMemberBody hu hbody with hclass | hblock
    · rw [hk] at hclass
      exact hne (Option.some.inj hclass)
    · rw [hk] at hblock
      obtain rfl := Option.some.inj hblock
      cases hscope

theorem passes_name (h : a.Reachable asked) (hu : a.unit? id = some u) {c : NodeId} {text : String}
    (hs : u.arena.shape? c = some (.identifier text)) (name : String) : u.Passes name c := by
  have hk : u.arena.kind? c = some .identifier := by rw [u.arena.kind?_eq_map, hs]; rfl
  exact h.passes_of_kind hu hk rfl nofun name

end Analysis.Reachable

end SquirrelAnalyzer
