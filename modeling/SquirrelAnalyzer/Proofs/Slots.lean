import SquirrelAnalyzer.Proofs.Assembled
import SquirrelAnalyzer.Proofs.PostOrder

namespace SquirrelAnalyzer

namespace NodeTable

variable {α : Type} {entries : List (NodeId × α)} {id : NodeId}

theorem ofList_concat (entries : List (NodeId × α)) (e : NodeId × α) :
    ofList (entries ++ [e]) = (ofList entries).insert e.1 e.2 := by
  simp [ofList]

theorem mem_of_get?_ofList {x : α} (h : (ofList entries).get? id = some x) : (id, x) ∈ entries := by
  -- from the end, where a later entry replaces those before it
  induction entries using List.reverseRecOn with
  | nil =>
    rw [show ofList ([] : List (NodeId × α)) = ∅ from rfl, get?_empty] at h
    cases h
  | append_singleton entries e ih =>
    rw [ofList_concat, get?_insert] at h
    split at h
    · next he =>
      cases h
      rw [he]
      exact List.mem_append_right entries List.mem_cons_self
    · exact List.mem_append_left [e] (ih h)

theorem exists_get?_ofList {x : α} (h : (id, x) ∈ entries) :
    ∃ y, (ofList entries).get? id = some y := by
  induction entries using List.reverseRecOn with
  | nil => cases h
  | append_singleton entries e ih =>
    rw [ofList_concat, get?_insert]
    split
    · exact ⟨e.2, rfl⟩
    · next he =>
      rcases List.mem_append.mp h with h | h
      · exact ih h
      · obtain rfl := List.mem_singleton.mp h
        exact absurd rfl he

end NodeTable

namespace Shape

variable {χ : Type}

def isSlot : Shape χ → Bool
  | methodDefinition .. => true
  | propertyDefinition .. => true
  | enumMember .. => true
  | _ => false

theorem isSlot_of_not_declaration {s : Shape χ} (h : s.isDeclaration = false) :
    s.isSlot = false := by
  cases s <;> first | rfl | cases h

theorem exists_key_of_slot {s : Shape χ} (hslot : s.isSlot = true) :
    ∃ key, s.nameNode? = some key := by
  cases s with
  | methodDefinition | propertyDefinition | enumMember => exact ⟨_, rfl⟩
  | _ => cases hslot

theorem mem_children_of_slot {s : Shape χ} {key : χ} (hslot : s.isSlot = true)
    (hkey : s.nameNode? = some key) : key ∈ s.children .full := by
  cases s with
  | methodDefinition form isStatic key value =>
    cases hkey
    simp [children, kind, Kind.fields, field]
  | propertyDefinition isStatic computed key value =>
    cases hkey
    simp [children, kind, Kind.fields, field]
  | enumMember id init =>
    cases hkey
    simp [children, kind, Kind.fields, field]
  | _ => cases hslot

end Shape

namespace Arena

variable {a : Arena}

def slots (a : Arena) (id : NodeId) : List NodeId :=
  match a.shape? id with
  | none => []
  | some s =>
    match s.classParts?, s with
    | some (_, body), _ => a.children .full body
    | none, .tableExpression properties => properties
    | none, .enumDeclaration _ members => members
    | none, _ => []

def isSlot (a : Arena) (id : NodeId) : Bool := ((a.shape? id).map Shape.isSlot).getD false

def hasOpaqueKey (a : Arena) (id : NodeId) : Bool :=
  match a.shape? id with
  | some (.propertyDefinition _ computed key _) => a.isOpaqueKey computed key
  | _ => false

theorem literalText?_of_normalizedKey? {b : Branch} {k : NodeId} {text : String}
    (h : a.normalizedKey? b = some (k, text)) : a.literalText? k = some text := by
  obtain ⟨key, -, hkey⟩ := Option.bind_eq_some_iff.mp h
  obtain ⟨text', htext, he⟩ := Option.map_eq_some_iff.mp hkey
  cases he
  exact htext

theorem Below.mem_preorderUpTo {b b' : Branch} (h : a.Below b b') (ha : a.Ascending) {n : Nat}
    (hn : b.target.index < n) : b' ∈ a.preorderUpTo n b := by
  induction h generalizing n with
  | refl b =>
    cases n with
    | zero => omega
    | succ n => exact List.mem_cons_self
  | @child b b' c hc h ih =>
    cases n with
    | zero => omega
    | succ n =>
      have hlt := ha b.target c hc
      apply List.mem_cons_of_mem
      exact List.mem_flatMap.mpr ⟨c, hc, ih (by simp only [Branch.target_child]; omega)⟩

theorem Parsed.exists_mem_preorder (h : a.Parsed) {id : NodeId} (hid : id.index < a.size) :
    ∃ b ∈ a.preorder a.rootBranch, b.target = id := by
  obtain ⟨b, -, -, hb, rfl, -⟩ := h.exists_below (h.whole ▸ hid)
  refine ⟨b, hb.mem_preorderUpTo (h.ascending h.whole) ?_, rfl⟩
  exact h.holds_root.target

end Arena

namespace Declared

variable {a : Arena} {b : Branch}

def Introduces (a : Arena) (b : Branch) (d : Declared) : Prop :=
  ∀ x ∈ d.bindings,
    (x.key ∈ a.children .full b.target ∨ ∃ c, x.key ∈ a.children .full c ∧ a.isSlot c = false) ∧
    (x.declaration.declaring = b.target ∨ a.isSlot x.declaration.declaring = false)

theorem introduces_binds {m : NodeId} {d : Declared} (h : m ∈ a.children .full b.target)
    (hd : Binds a b m d) : Introduces a b d := by
  cases hd with
  | nothing => exact nofun
  | plain hs =>
    intro x hx
    rw [List.mem_singleton.mp hx]
    exact ⟨.inl h, .inr (by simp [Arena.isSlot, hs, Shape.isSlot])⟩
  | defaulted hs =>
    intro x hx
    rw [List.mem_singleton.mp hx]
    have hslot : a.isSlot m = false := by simp [Arena.isSlot, hs, Shape.isSlot]
    refine ⟨.inr ⟨m, ?_, hslot⟩, .inr hslot⟩
    rw [Arena.children_of_shape? hs]
    exact Shape.mem_children_of_nameNode rfl

theorem introduces_parts (a : Arena) (b : Branch) : Parts a b (Introduces a b) where
  empty := nofun
  join h h' x hx := by
    rcases List.mem_append.mp hx with hx | hx
    · exact h x hx
    · exact h' x hx
  own hs _ hkey _ h x hx := by
    obtain ⟨hk, hd⟩ := h.binding_eq hx
    exact ⟨.inl (by rwa [hk, Arena.children_of_shape? hs]), .inl hd⟩
  below {s left l key d} _ _ _ hl hdeclaration _ hkey h x hx := by
    obtain ⟨hk, hd⟩ := h.binding_eq hx
    refine ⟨.inr ⟨left, by rwa [hk, Arena.children_of_shape? hl], ?_⟩, .inl hd⟩
    simp [Arena.isSlot, hl, Shape.isSlot_of_not_declaration hdeclaration]
  parameter hs hp := introduces_binds (Arena.mem_children_of_boundName hs hp) (binds_parameter ..)
  loopVariable hs hb :=
    introduces_binds (Arena.mem_children_of_boundName hs hb) (binds_loopVariable ..)

theorem introduces_ofBranch (a : Arena) (b : Branch) : Introduces a b (ofBranch a b) :=
  (introduces_parts a b).ofBranch

theorem bindings_slot {s : Shape NodeId} {key : NodeId} (hs : a.shape? b.target = some s)
    (hslot : s.isSlot = true) (hkey : s.nameNode? = some key) :
    (a.hasOpaqueKey b.target = true → (ofBranch a b).bindings = []) ∧
    (a.hasOpaqueKey b.target = false →
      ∃ category, (ofBranch a b).bindings = [⟨key, b.target, category⟩]) := by
  unfold ofBranch Arena.hasOpaqueKey
  rw [hs]
  cases s with
  | methodDefinition kind isStatic key' value =>
    cases hkey
    exact ⟨nofun, fun _ => ⟨_, rfl⟩⟩
  | enumMember id init =>
    cases hkey
    exact ⟨nofun, fun _ => ⟨_, rfl⟩⟩
  | propertyDefinition isStatic computed key' value =>
    cases hkey
    dsimp only [ofShape]
    cases a.isOpaqueKey computed key with
    | true => exact ⟨fun _ => rfl, nofun⟩
    | false => exact ⟨nofun, fun _ => ⟨_, rfl⟩⟩
  | _ => cases hslot

theorem target_of_binding (ha : a.Parsed) {m : NodeId} (hm : a.isSlot m = true) {x : Binding}
    (hx : x ∈ (ofBranch a b).bindings)
    (h : x.key ∈ a.children .full m ∨ x.declaration.declaring = m) : b.target = m := by
  obtain ⟨hkey, hdeclaring⟩ := introduces_ofBranch a b x hx
  rcases h with h | rfl
  · rcases hkey with hkey | ⟨c, hc, hslot⟩
    · exact ha.parent_unique h hkey
    · obtain rfl := ha.parent_unique h hc
      rw [hm] at hslot
      cases hslot
  · rcases hdeclaring with he | hslot
    · exact he.symm
    · rw [hm] at hslot
      cases hslot

end Declared

namespace SourceUnit

variable {u v : SourceUnit} {config : Config} {a : Arena} {k m : NodeId}

theorem exists_binding (h : (ofArena config a).declaration? k = some m) :
    ∃ b ∈ a.preorder a.rootBranch, ∃ x ∈ (Declared.ofBranch a b).bindings,
      x.key = k ∧ x.declaration.declaring = m := by
  obtain ⟨d, hd, rfl⟩ := Option.map_eq_some_iff.mp h
  obtain ⟨x, hx, he⟩ := List.mem_map.mp (NodeTable.mem_of_get?_ofList hd)
  cases he
  obtain ⟨y, hy, hx⟩ := List.mem_flatMap.mp hx
  obtain ⟨b, hb, rfl⟩ := List.mem_map.mp hy
  exact ⟨b, hb, x, hx, rfl, rfl⟩

theorem exists_visible {id : NodeId} {s : ScopedName} (h : s ∈ (ofArena config a).scope id) :
    ∃ b ∈ a.preorder a.rootBranch, (id, s) ∈ (Declared.ofBranch a b).visible ∧
      a.Below a.rootBranch s.declaration := by
  obtain ⟨names, hn, hs⟩ := mem_of_scope h
  obtain ⟨x, hx, hd⟩ := List.mem_flatMap.mp (NodeTable.mem_group hn hs)
  obtain ⟨b, hb, rfl⟩ := List.mem_map.mp hx
  have hbelow := Arena.preorderUpTo_below hb
  refine ⟨b, hb, hd, ?_⟩
  rcases Declared.near_ofBranch a b (id, s) hd with he | ⟨c, hc, he⟩
  · exact he ▸ hbelow
  · exact he ▸ hbelow.trans (.child hc (.refl _))

theorem exists_declaration? (config : Config) {b : Branch} (hb : b ∈ a.preorder a.rootBranch)
    {x : Binding} (hx : x ∈ (Declared.ofBranch a b).bindings) :
    ∃ m, (ofArena config a).declaration? x.key = some m := by
  have hmem : (x.key, x.declaration) ∈
      (((a.preorder a.rootBranch).map fun b => (b, Declared.ofBranch a b)).flatMap
        (·.2.bindings)).map fun x => (x.key, x.declaration) :=
    List.mem_map_of_mem (List.mem_flatMap.mpr ⟨_, List.mem_map_of_mem hb, hx⟩)
  obtain ⟨d, hd⟩ := NodeTable.exists_get?_ofList hmem
  exact ⟨d.declaring, by unfold declaration? ofArena; dsimp only; rw [hd]; rfl⟩

theorem declaration?_slot (ha : a.Parsed) {s : Shape NodeId} {key : NodeId}
    (hs : a.shape? m = some s) (hslot : s.isSlot = true) (hkey : s.nameNode? = some key) :
    (ofArena config a).declaration? k = some m ↔ k = key ∧ a.hasOpaqueKey m = false := by
  have hm : a.isSlot m = true := by simp [Arena.isSlot, hs, hslot]
  have hchild : key ∈ a.children .full m := by
    rw [Arena.children_of_shape? hs]
    exact Shape.mem_children_of_slot hslot hkey
  constructor
  · intro h
    obtain ⟨b, -, x, hx, rfl, hdeclaring⟩ := exists_binding h
    obtain rfl := Declared.target_of_binding ha hm hx (.inr hdeclaring)
    obtain ⟨hnone, hone⟩ := Declared.bindings_slot hs hslot hkey
    cases hunnamed : a.hasOpaqueKey b.target with
    | true =>
      rw [hnone hunnamed] at hx
      cases hx
    | false =>
      obtain ⟨category, he⟩ := hone hunnamed
      rw [he, List.mem_singleton] at hx
      subst hx
      exact ⟨rfl, rfl⟩
  · rintro ⟨rfl, hunnamed⟩
    obtain ⟨b, hb, rfl⟩ := ha.exists_mem_preorder (Arena.lt_size_of_shape? hs)
    obtain ⟨category, he⟩ := (Declared.bindings_slot hs hslot hkey).2 hunnamed
    have hx : (⟨k, b.target, category⟩ : Binding) ∈ (Declared.ofBranch a b).bindings := by
      rw [he]
      exact List.mem_cons_self
    obtain ⟨m, hdeclared⟩ := exists_declaration? config hb hx
    obtain ⟨b', -, x, hx', hxkey, rfl⟩ := exists_binding hdeclared
    have htarget := Declared.target_of_binding ha hm hx' (.inl (hxkey ▸ hchild))
    rw [← htarget] at hs hunnamed
    obtain ⟨category', he'⟩ := (Declared.bindings_slot hs hslot hkey).2 hunnamed
    rw [he', List.mem_singleton] at hx'
    subst hx'
    rw [← htarget]
    exact hdeclared

theorem index_lt_of_declaration? (ha : a.Parsed)
    (h : (ofArena config a).declaration? k = some m) : k.index < a.size := by
  obtain ⟨b, -, x, hx, rfl, -⟩ := exists_binding h
  have hascending := ha.ascending ha.whole
  rcases (Declared.introduces_ofBranch a b x hx).1 with hkey | ⟨c, hkey, -⟩
  · exact Nat.lt_trans (hascending _ _ hkey) (Arena.index_lt_of_children hkey)
  · exact Nat.lt_trans (hascending _ _ hkey) (Arena.index_lt_of_children hkey)

theorem normalizedKeys_ofArena {text : String}
    (h : (ofArena config a).facts.normalizedKeys.get? k = some text) :
    a.literalText? k = some text := by
  obtain ⟨b, -, hb⟩ := List.mem_filterMap.mp (NodeTable.mem_of_get?_ofList h)
  exact Arena.literalText?_of_normalizedKey? hb

structure Extends (v u : SourceUnit) : Prop where
  arena : v.arena.Extends u.arena
  scopes : u.facts.scopes = v.facts.scopes
  keys : u.facts.normalizedKeys = v.facts.normalizedKeys
  declaration : ∀ k m, m.index < v.arena.size →
    (u.declaration? k = some m ↔ v.declaration? k = some m)

theorem Extends.addMeta (h : v.Extends u)
    (hv : ∀ k m, v.declaration? k = some m → k.index < v.arena.size) (cls : NodeId) (name : String)
    (tag : Doc.Attribute) (location : Location) :
    v.Extends (u.addMeta cls name tag location).2 where
  arena := (h.arena.trans (.add u.arena location _)).trans (.add _ location _)
  scopes := h.scopes
  keys := h.keys
  declaration k m hm := by
    have hsize := h.arena.size
    rw [declaration?_addMeta, ← h.declaration k m hm]
    split
    · next hk =>
      subst hk
      constructor
      · intro he
        cases he
        dsimp only at hm
        omega
      · intro he
        have hlt := hv _ _ ((h.declaration _ m hm).mp he)
        dsimp only at hlt
        omega
    · rfl

theorem extends_build (config : Config) (id : UnitId) (ha : a.Parsed) :
    (ofArena config { a with unit := id }).Extends (build config id a) := by
  have hparsed : ({ a with unit := id } : Arena).Parsed := ⟨ha.withUnit id, ha.whole⟩
  have hkeys (k m : NodeId) (h : (ofArena config { a with unit := id }).declaration? k = some m) :=
    index_lt_of_declaration? hparsed h
  apply attachComments_induction
  · intro u f hu hnames
    refine ⟨hu.arena, hnames.scopes.trans hu.scopes, hnames.keys.trans hu.keys, ?_⟩
    simpa only [declaration?, mapFacts, hnames.declarations] using hu.declaration
  · intro u cls name tag location hu
    exact hu.addMeta hkeys cls name tag location
  · exact ⟨⟨rfl, rfl, rfl, Nat.le_refl _, fun _ _ => rfl⟩, rfl, rfl, fun _ _ _ => Iff.rfl⟩

end SourceUnit

namespace Tree.Fits

variable {t body : Tree} {r : Role} {ts : List Tree}

theorem isSlot_table (h : t.Fits r) : t.shape = .tableExpression ts →
    ∀ m ∈ ts, m.shape.isSlot = true := by
  have hslot (m : Tree) (hm : m.Fits .slot) : m.shape.isSlot = true := by
    cases hm <;> rfl
  -- a role may only hand the tree on to another one, so its shape is an equation in the goal
  induction h with
  | ofBlock _ ih | ofVariables _ ih | ofExpression _ ih | initialVariables _ ih | ofName _ ih
  | propertyName _ ih | ownerName _ ih | identifier _ ih | function _ ih => exact ih
  | table hfits =>
    intro hs m hm
    cases hs
    exact hslot m (hfits m hm)
  | _ =>
    intro hs
    cases hs

theorem isSlot_enum {id : Tree} (h : t.Fits r) : t.shape = .enumDeclaration id ts →
    ∀ m ∈ ts, m.shape.isSlot = true := by
  have hslot (m : Tree) (hm : m.Fits .enumMember) : m.shape.isSlot = true := by
    cases hm
    rfl
  induction h with
  | ofBlock _ ih | ofVariables _ ih | ofExpression _ ih | initialVariables _ ih | ofName _ ih
  | propertyName _ ih | ownerName _ ih | identifier _ ih | function _ ih => exact ih
  | enumDeclaration _ hfits =>
    intro hs m hm
    cases hs
    exact hslot m (hfits m hm)
  | _ =>
    intro hs
    cases hs

theorem isSlot_class {superclass : Option Tree} (h : t.Fits r) :
    t.shape.classParts? = some (superclass, body) →
    ∀ m ∈ body.shape.children .full, m.shape.isSlot = true := by
  have hslot (m : Tree) (hm : m.Fits .classMember) : m.shape.isSlot = true := by
    cases hm <;> rfl
  have hmembers (body : Tree) (hbody : body.Fits .classBody) :
      ∀ m ∈ body.shape.children .full, m.shape.isSlot = true := by
    cases hbody with
    | classBody hfits =>
      intro m hm
      apply hslot
      apply hfits
      simpa [shape, Shape.children, Shape.kind, Kind.fields, Shape.field] using hm
  induction h with
  | ofBlock _ ih | ofVariables _ ih | ofExpression _ ih | initialVariables _ ih | ofName _ ih
  | propertyName _ ih | ownerName _ ih | identifier _ ih | function _ ih => exact ih
  | classDeclaration _ _ _ hbody | classExpression _ hbody =>
    intro hs
    cases hs
    exact hmembers _ hbody
  | _ =>
    intro hs
    cases hs

end Tree.Fits

namespace Shape

variable {α β : Type}

theorem isSlot_map (f : α → β) (s : Shape α) : (s.map f).isSlot = s.isSlot := by
  cases s <;> rfl

theorem classParts?_map (f : α → β) {s : Shape α} {superclass : Option α} {body : α}
    (h : s.classParts? = some (superclass, body)) :
    (s.map f).classParts? = some (superclass.map f, f body) := by
  cases s with
  | classDeclaration | classExpression =>
    cases h
    rfl
  | _ => cases h

end Shape

namespace Arena

variable {a a' : Arena} {id m : NodeId}

theorem Parsed.shape_tree (h : a.Parsed) {s : Shape NodeId} (hs : a.shape? id = some s) :
    (a.tree id).shape = s.map a.tree := by
  obtain ⟨n, hn, rfl⟩ := Option.map_eq_some_iff.mp hs
  obtain ⟨low, hsub⟩ := h.subtree_of_get? hn
  rw [hsub.tree_eq]
  rfl

theorem Parsed.isSlot_of_tree (h : a.Parsed) (hid : id.index < a.size)
    (ht : (a.tree id).shape.isSlot = true) : a.isSlot id = true := by
  obtain ⟨low, n, hn⟩ := h.subtree_of_lt hid
  have hs : a.shape? id = some n.shape := by rw [shape?, hn.node]; rfl
  rw [h.shape_tree hs, Shape.isSlot_map] at ht
  rw [isSlot, hs]
  exact ht

theorem mem_slots (h : m ∈ a.slots id) : ∃ s, a.shape? id = some s ∧
    ((∃ superclass body, s.classParts? = some (superclass, body) ∧ m ∈ a.children .full body) ∨
      (∃ properties, s = .tableExpression properties ∧ m ∈ properties) ∨
      ∃ name members, s = .enumDeclaration name members ∧ m ∈ members) := by
  unfold slots at h
  split at h
  · cases h
  · next s hs =>
    refine ⟨s, hs, ?_⟩
    split at h
    · next superclass body hparts => exact .inl ⟨superclass, body, hparts, h⟩
    · next properties hparts => exact .inr (.inl ⟨properties, rfl, h⟩)
    · next name members hparts => exact .inr (.inr ⟨name, members, rfl, h⟩)
    · cases h

theorem Grammatical.isSlot_of_mem_slots (h : a.Grammatical) (hm : m ∈ a.slots id) :
    a.isSlot m = true := by
  have hparsed := h.toParsed
  obtain ⟨s, hs, hcases⟩ := mem_slots hm
  have hid := lt_size_of_shape? hs
  have hascending := hparsed.ascending hparsed.whole
  have htree := hparsed.shape_tree hs
  obtain ⟨r, hfits⟩ : ∃ r, (a.tree id).Fits r := by
    rcases h.fits hs with ⟨body, rfl⟩ | hfits
    · rcases hcases with ⟨_, _, hparts, -⟩ | ⟨_, he, -⟩ | ⟨_, _, he, -⟩
      · cases hparts
      · cases he
      · cases he
    · exact hfits
  rcases hcases with ⟨superclass, body, hparts, hm⟩ | ⟨properties, rfl, hm⟩ |
    ⟨name, members, rfl, hm⟩
  · have hlt := Nat.lt_trans (hascending body m hm) (index_lt_of_children hm)
    apply hparsed.isSlot_of_tree hlt
    apply hfits.isSlot_class (htree ▸ Shape.classParts?_map a.tree hparts)
    obtain ⟨low, n, hn, hmem⟩ := hparsed.subtree_of_child hm
    rw [hn.children_tree]
    exact List.mem_map_of_mem hmem
  · have hchild : m ∈ a.children .full id := by
      rw [children_of_shape? hs]
      simpa [Shape.children, Shape.kind, Kind.fields, Shape.field] using hm
    apply hparsed.isSlot_of_tree (Nat.lt_trans (hascending id m hchild) hid)
    exact hfits.isSlot_table htree _ (List.mem_map_of_mem hm)
  · have hchild : m ∈ a.children .full id := by
      rw [children_of_shape? hs]
      simp [Shape.children, Shape.kind, Kind.fields, Shape.field, hm]
    apply hparsed.isSlot_of_tree (Nat.lt_trans (hascending id m hchild) hid)
    exact hfits.isSlot_enum htree _ (List.mem_map_of_mem hm)

end Arena

namespace Arena

variable {a a' : Arena} {id m : NodeId}

theorem Extends.slots_eq (h : a.Extends a') (ha : a.Ascending) (hid : id.index < a.size) :
    a'.slots id = a.slots id := by
  unfold slots
  rw [h.shape?_eq hid]
  cases hs : a.shape? id with
  | none => rfl
  | some s =>
    dsimp only
    split
    · next superclass body hparts =>
      have hbody : body ∈ a.children .full id := by
        rw [children_of_shape? hs]
        exact Shape.mem_children_of_classBody hparts
      exact h.children_eq (Nat.lt_trans (ha id body hbody) hid) _
    all_goals rfl

def bracketName? (a : Arena) (id : NodeId) : Option String :=
  match a.shape? id with
  | some (.propertyDefinition _ true key _) => a.identifierName? key
  | _ => none

theorem bracketName?_of_named (h : a.hasOpaqueKey id = false) : a.bracketName? id = none := by
  unfold hasOpaqueKey at h
  unfold bracketName?
  split at h
  · next isStatic computed key value hs =>
    cases computed with
    | false => rw [hs]
    | true =>
      rw [hs]
      dsimp only
      unfold isOpaqueKey literalText? at h
      unfold identifierName?
      cases hk : a.shape? key with
      | none => rfl
      | some s =>
        rw [hk] at h
        cases s with
        | identifier name => cases h
        | _ => rfl
  · next hne =>
    split
    · next isStatic key value hs => exact absurd hs (hne isStatic true key value)
    · rfl

end Arena

theorem Analysis.reads_parseArena {source : String} {a : Arena}
    (h : Analysis.parseArena source = .ok a) : ∃ tokens body, a.Reads source tokens body :=
  Arena.reads_parse (parseArena_eq_ok_iff.mp h)

namespace SourceUnit

def Declares (u : SourceUnit) (m : NodeId) (name : String) : Prop :=
  ∃ key, u.declaration? key = some m ∧ u.keyName? key = some name

structure ReadFrom (u : SourceUnit) (config : Config) (a : Arena) : Prop where
  grammatical : a.Grammatical
  unit : (ofArena config a).Extends u
  documents : u.Documents

variable {u : SourceUnit} {config : Config} {a : Arena} {id m key : NodeId} {s : Shape NodeId}

theorem readFrom_build {source : String} (h : Analysis.parseArena source = .ok a)
    (config : Config) (id : UnitId) (namespaces : List NamespaceEntry) (outline : Outline) :
    ({ build config id a with namespaces, outline } : SourceUnit).ReadFrom config
      { a with unit := id } := by
  have hparsed := Analysis.parsed_parseArena h
  obtain ⟨tokens, body, hreads⟩ := Analysis.reads_parseArena h
  have hext := extends_build config id hparsed
  exact ⟨hreads.grammatical.withUnit id,
    ⟨hext.arena, hext.scopes, hext.keys, hext.declaration⟩, documents_build config id hparsed⟩

namespace ReadFrom

theorem parsed (h : u.ReadFrom config a) : a.Parsed := h.grammatical.toParsed

theorem shape?_base (h : u.ReadFrom config a) (hs : u.arena.shape? m = some s) :
    a.shape? m = some s ∨ (∃ key, s = .metaProperty key) ∨ ∃ name, s = .identifier name := by
  have harena := h.unit.arena
  by_cases hm : m.index < a.size
  · exact .inl ((harena.shape?_eq hm).symm.trans hs)
  · have hsynthetic : u.arena.isSynthetic m = true := by
      have hparsed : u.arena.parsedSize = a.parsedSize := harena.parsedSize
      rw [Arena.isSynthetic, hparsed, h.parsed.whole]
      exact decide_eq_true (Nat.le_of_not_lt hm)
    rcases h.documents m s hsynthetic hs with hproperty | ⟨name, property, he, -⟩
    · exact .inr (.inl hproperty)
    · exact .inr (.inr ⟨name, he⟩)

theorem slots_eq (h : u.ReadFrom config a) (hm : m ∈ u.arena.slots id) :
    u.arena.slots id = a.slots id := by
  obtain ⟨s, hs, hcases⟩ := Arena.mem_slots hm
  have hbase : a.shape? id = some s := by
    rcases h.shape?_base hs with hbase | ⟨key, rfl⟩ | ⟨name, rfl⟩
    · exact hbase
    · rcases hcases with ⟨_, _, hparts, -⟩ | ⟨_, he, -⟩ | ⟨_, _, he, -⟩
      · cases hparts
      · cases he
      · cases he
    · rcases hcases with ⟨_, _, hparts, -⟩ | ⟨_, he, -⟩ | ⟨_, _, he, -⟩
      · cases hparts
      · cases he
      · cases he
  exact Arena.Extends.slots_eq h.unit.arena (h.parsed.ascending h.parsed.whole)
    (Arena.lt_size_of_shape? hbase)

theorem exists_slot (h : u.ReadFrom config a) (hm : m ∈ u.arena.slots id) :
    ∃ s key, a.shape? m = some s ∧ s.isSlot = true ∧ s.nameNode? = some key := by
  rw [h.slots_eq hm] at hm
  have hslot := h.grammatical.isSlot_of_mem_slots hm
  unfold Arena.isSlot at hslot
  cases hs : a.shape? m with
  | none =>
    rw [hs] at hslot
    cases hslot
  | some s =>
    rw [hs] at hslot
    obtain ⟨key, hkey⟩ := Shape.exists_key_of_slot hslot
    exact ⟨s, key, rfl, hslot, hkey⟩

theorem shape?_slot (h : u.ReadFrom config a) (hs : a.shape? m = some s) :
    u.arena.shape? m = some s :=
  (h.unit.arena.shape?_eq (Arena.lt_size_of_shape? hs)).trans hs

theorem shape?_key (h : u.ReadFrom config a) (hs : a.shape? m = some s) (hslot : s.isSlot = true)
    (hkey : s.nameNode? = some key) : u.arena.shape? key = a.shape? key := by
  have hchild : key ∈ a.children .full m := by
    rw [Arena.children_of_shape? hs]
    exact Shape.mem_children_of_slot hslot hkey
  have hlt := h.parsed.child_lt hchild
  exact h.unit.arena.shape?_eq (Nat.lt_trans hlt (Arena.lt_size_of_shape? hs))

theorem hasOpaqueKey_eq (h : u.ReadFrom config a) (hs : a.shape? m = some s)
    (hslot : s.isSlot = true) (hkey : s.nameNode? = some key) :
    u.arena.hasOpaqueKey m = a.hasOpaqueKey m := by
  unfold Arena.hasOpaqueKey
  rw [h.shape?_slot hs, hs]
  cases s with
  | propertyDefinition isStatic computed key' value =>
    cases hkey
    simp only [Arena.isOpaqueKey, Arena.literalText?, h.shape?_key hs hslot rfl]
  | _ => rfl

theorem declares_iff (h : u.ReadFrom config a) (hs : a.shape? m = some s) (hslot : s.isSlot = true)
    (hkey : s.nameNode? = some key) (name : String) :
    u.Declares m name ↔ u.arena.hasOpaqueKey m = false ∧ u.keyName? key = some name := by
  rw [h.hasOpaqueKey_eq hs hslot hkey]
  have hdeclared (k : NodeId) : u.declaration? k = some m ↔ k = key ∧ a.hasOpaqueKey m = false :=
    (h.unit.declaration k m (Arena.lt_size_of_shape? hs)).trans
      (declaration?_slot h.parsed hs hslot hkey)
  constructor
  · rintro ⟨k, hk, hname⟩
    obtain ⟨rfl, hunnamed⟩ := (hdeclared k).mp hk
    exact ⟨hunnamed, hname⟩
  · rintro ⟨hunnamed, hname⟩
    exact ⟨key, (hdeclared key).mpr ⟨rfl, hunnamed⟩, hname⟩

theorem memberName?_slot (h : u.ReadFrom config a) (hs : a.shape? m = some s)
    (hkey : s.nameNode? = some key) : u.memberName? m = u.keyName? key := by
  rw [memberName?, h.shape?_slot hs, Option.bind_some, hkey, Option.bind_some]

theorem keyName?_opaque (h : u.ReadFrom config a) (htext : a.literalText? key = none) :
    u.keyName? key = u.arena.identifierName? key := by
  have hnormalized : u.facts.normalizedKeys.get? key = none := by
    rw [h.unit.keys]
    cases hget : (ofArena config a).facts.normalizedKeys.get? key with
    | none => rfl
    | some text =>
      rw [normalizedKeys_ofArena hget] at htext
      cases htext
  rw [keyName?, hnormalized, Option.or_none]

theorem keyName?_computed (h : u.ReadFrom config a) (hs : a.shape? m = some s)
    (hslot : s.isSlot = true) (hkey : s.nameNode? = some key)
    (hunnamed : u.arena.hasOpaqueKey m = true) : u.keyName? key = u.arena.bracketName? m := by
  have hshape := h.shape?_key hs hslot hkey
  rw [Arena.hasOpaqueKey, h.shape?_slot hs] at hunnamed
  rw [Arena.bracketName?, h.shape?_slot hs]
  cases s with
  | propertyDefinition isStatic computed key' value =>
    cases hkey
    obtain ⟨rfl, htext⟩ := Bool.and_eq_true_iff.mp hunnamed
    rw [Option.isNone_iff_eq_none, Arena.literalText?, hshape] at htext
    exact h.keyName?_opaque htext
  | _ => cases hunnamed

theorem not_declares (h : u.ReadFrom config a) (hm : m ∈ u.arena.slots id)
    (hunnamed : u.arena.hasOpaqueKey m = true) (name : String) : ¬u.Declares m name := by
  obtain ⟨s, key, hs, hslot, hkey⟩ := h.exists_slot hm
  rw [h.declares_iff hs hslot hkey, hunnamed]
  exact fun hdeclared => Bool.noConfusion hdeclared.1

end ReadFrom

end SourceUnit

namespace Program

def Lists (p : Program) (owner : Branch) (m : NodeId) (name : String) : Prop :=
  ∃ b, (name, b) ∈ p.ownMembers owner ∧ b.ref = ⟨owner.unit, m⟩

variable {p : Program} {owner : Branch} {u : SourceUnit} {m : NodeId} {name : String}

theorem memberName?_of_mem {b : Branch} {x : String × Branch} (h : x ∈ u.membersAt b) :
    u.memberName? x.2.target = some x.1 := by
  have hbelow {b : Branch} {ids : List NodeId} (h : x ∈ u.namedBelow b ids) :
      u.memberName? x.2.target = some x.1 := by
    obtain ⟨c, -, hc⟩ := List.mem_filterMap.mp h
    obtain ⟨name, hname, rfl⟩ := Option.map_eq_some_iff.mp hc
    exact hname
  unfold SourceUnit.membersAt at h
  split at h
  · cases h
  · split at h
    · rcases List.mem_append.mp h with h | h
      · exact hbelow h
      · exact hbelow h
    · exact hbelow h
    · exact hbelow h
    · cases h

theorem exists_of_memberName? (hm : m ∈ u.arena.slots owner.target)
    (hname : u.memberName? m = some name) :
    ∃ b, (name, b) ∈ u.membersAt owner ∧ b.ref = ⟨owner.unit, m⟩ := by
  have hbelow {b : Branch} {ids : List NodeId} (hm : m ∈ ids) :
      (name, b.child m) ∈ u.namedBelow b ids :=
    List.mem_filterMap.mpr ⟨m, hm, by rw [hname]; rfl⟩
  obtain ⟨s, hs, hcases⟩ := Arena.mem_slots hm
  unfold SourceUnit.membersAt
  rw [hs]
  rcases hcases with ⟨superclass, body, hparts, hm⟩ | ⟨properties, rfl, hm⟩ | ⟨id, members, rfl, hm⟩
  · dsimp only
    rw [hparts]
    exact ⟨_, List.mem_append_left _ (hbelow hm), rfl⟩
  · exact ⟨_, hbelow hm, rfl⟩
  · exact ⟨_, hbelow hm, rfl⟩

theorem qualified_of_recorded (hp : p.Sound) {x : String × Branch}
    (hx : x ∈ p.recordedMembers owner) : ∃ u b, p.unit? x.2.unit = some u ∧
      b.target = x.2.target ∧ Declared.Qualified u.arena b := by
  obtain ⟨v, hv, hx⟩ := List.mem_flatMap.mp hx
  obtain ⟨e, he, rfl⟩ := List.mem_map.mp hx
  obtain ⟨id, hid⟩ := mem_liveUnits.mp hv
  obtain ⟨hvid, hsound⟩ := hp.unit id v hid
  have hmem : e.declaration ∈ v.pending :=
    (hp.recorded id v hid).subset (List.mem_map_of_mem (List.mem_filter.mp he).1)
  obtain ⟨hbelow, hqualified⟩ := hsound.pending e.declaration hmem
  have hunit : e.declaration.unit = id := hbelow.unit_eq.trans (hsound.unit.trans hvid)
  have htarget : (memberBranch owner e).unit = e.declaration.unit ∧
      (memberBranch owner e).target = e.declaration.target := by
    unfold memberBranch
    split
    · next h => exact ⟨h.symm, rfl⟩
    · exact ⟨rfl, rfl⟩
  exact ⟨v, e.declaration, by rw [htarget.1, hunit, hid], htarget.2.symm, hqualified⟩

theorem not_isSlot_of_recorded (hp : p.Sound) {x : String × Branch}
    (hx : x ∈ p.recordedMembers owner) (hu : p.unit? x.2.unit = some u) :
    u.arena.isSlot x.2.target = false := by
  obtain ⟨v, b, hv, htarget, hqualified⟩ := qualified_of_recorded hp hx
  obtain rfl := Option.some.inj (hu.symm.trans hv)
  rw [← htarget]
  unfold Arena.isSlot
  cases hqualified with
  | function h | «class» h | slot h =>
    rw [h]
    rfl

theorem lists_iff (hp : p.Sound) (hu : p.unit? owner.unit = some u)
    (hm : m ∈ u.arena.slots owner.target) (hslot : u.arena.isSlot m = true) :
    p.Lists owner m name ↔ u.memberName? m = some name := by
  have hmembers : p.ownMembers owner = u.membersAt owner ++ p.recordedMembers owner := by
    obtain ⟨s, hs, -⟩ := Arena.mem_slots hm
    rw [ownMembers, hu, Option.filter_some, hs]
    rfl
  constructor
  · rintro ⟨b, hb, href⟩
    obtain ⟨hunit, htarget⟩ := NodeRef.mk.inj href
    rw [hmembers] at hb
    rcases List.mem_append.mp hb with hb | hb
    · rw [← htarget]
      exact memberName?_of_mem hb
    · -- a declaration recorded under the owner is named through it and stands elsewhere
      have hrecorded := not_isSlot_of_recorded hp hb (hunit ▸ hu)
      rw [htarget, hslot] at hrecorded
      cases hrecorded
  · intro hname
    obtain ⟨b, hb, href⟩ := exists_of_memberName? hm hname
    exact ⟨b, hmembers ▸ List.mem_append_left _ hb, href⟩

end Program

namespace Analysis

variable {asked : Program → Branch → Prop} {a : Analysis} {u : SourceUnit} {owner : Branch}
  {m : NodeId}

theorem Reachable.exists_readFrom (h : a.Reachable asked) {id : UnitId} (hu : a.unit? id = some u) :
    ∃ base, u.ReadFrom a.program.config base := by
  obtain ⟨source, base, ha, namespaces, outline, rfl⟩ := h.assembled.exists_build hu
  exact ⟨_, SourceUnit.readFrom_build ha _ _ _ _⟩

/-- A slot is one of the members of its class, table or enum under the names it is declared under,
unless its key is a variable in brackets: then it is a member under the name of the variable and is
not declared. No slot with a computed key other than a string is declared. -/
theorem members_declared (h : a.Reachable asked) (hu : a.unit? owner.unit = some u)
    (hm : m ∈ u.arena.slots owner.target) :
    (u.arena.bracketName? m = none → ∀ name,
      a.program.Lists owner m name ↔ u.Declares m name) ∧
    (∀ bracketed, u.arena.bracketName? m = some bracketed → ∀ name,
      a.program.Lists owner m name ↔ name = bracketed) ∧
    (u.arena.hasOpaqueKey m = true → ∀ name, ¬u.Declares m name) := by
  obtain ⟨base, hr⟩ := h.exists_readFrom hu
  obtain ⟨s, key, hs, hslot, hkey⟩ := hr.exists_slot hm
  have hisSlot : u.arena.isSlot m = true := by rw [Arena.isSlot, hr.shape?_slot hs]; exact hslot
  have hlists (name : String) : a.program.Lists owner m name ↔ u.keyName? key = some name := by
    rw [Program.lists_iff h.sound hu hm hisSlot, hr.memberName?_slot hs hkey]
  refine ⟨fun hnone name => ?_, fun bracketed hbracketed name => ?_, hr.not_declares hm⟩
  · rw [hlists, hr.declares_iff hs hslot hkey]
    cases hunnamed : u.arena.hasOpaqueKey m with
    | false => simp
    | true => simp [hr.keyName?_computed hs hslot hkey hunnamed, hnone]
  · have hunnamed : u.arena.hasOpaqueKey m = true := by
      cases hunnamed : u.arena.hasOpaqueKey m with
      | true => rfl
      | false =>
        rw [Arena.bracketName?_of_named hunnamed] at hbracketed
        cases hbracketed
    rw [hlists, hr.keyName?_computed hs hslot hkey hunnamed, hbracketed, Option.some.injEq]
    exact eq_comm

theorem members_declared_string : ∃ a u owner m,
    ofSources {} Imports.none ["local t = \x7b [\"x\"] = 1 \x7d;"] = .ok a ∧
    a.unit? owner.unit = some u ∧ m ∈ u.arena.slots owner.target ∧
    a.program.Lists owner m "x" ∧ u.Declares m "x" := by
  let owner : Branch := ⟨⟨0⟩, ⟨4⟩, [⟨5⟩, ⟨6⟩, ⟨7⟩]⟩
  have hbuilt : (ofSources {} Imports.none
      ["local t = \x7b [\"x\"] = 1 \x7d;"]).toOption.any (fun a =>
      (a.unit? owner.unit).any fun u => decide (⟨3⟩ ∈ u.arena.slots owner.target ∧
        u.arena.bracketName? ⟨3⟩ = none ∧
        ("x", owner.child ⟨3⟩) ∈ a.program.ownMembers owner)) = true := by decide +kernel
  obtain ⟨a, ha, h⟩ := exists_ok hbuilt
  obtain ⟨u, hu, h⟩ := (Option.any_eq_true _ _).mp h
  obtain ⟨hm, hnone, hmember⟩ := of_decide_eq_true h
  have hreachable : a.Reachable fun _ _ => True := .ofSources ha
  have hlists : a.program.Lists owner ⟨3⟩ "x" := ⟨_, hmember, rfl⟩
  exact ⟨a, u, owner, ⟨3⟩, ha, hu, hm, hlists,
    ((members_declared hreachable hu hm).1 hnone "x").mp hlists⟩

theorem members_not_declared : ∃ a u owner m,
    ofSources {} Imports.none ["local k = 1; local t = \x7b [k] = 2 \x7d;"] = .ok a ∧
    a.unit? owner.unit = some u ∧ m ∈ u.arena.slots owner.target ∧
    a.program.Lists owner m "k" ∧ ¬u.Declares m "k" := by
  let owner : Branch := ⟨⟨0⟩, ⟨8⟩, [⟨9⟩, ⟨10⟩, ⟨11⟩]⟩
  have hbuilt : (ofSources {} Imports.none
      ["local k = 1; local t = \x7b [k] = 2 \x7d;"]).toOption.any (fun a =>
        (a.unit? owner.unit).any fun u => decide (⟨7⟩ ∈ u.arena.slots owner.target ∧
          u.arena.hasOpaqueKey ⟨7⟩ = true ∧
          ("k", owner.child ⟨7⟩) ∈ a.program.ownMembers owner)) = true := by decide +kernel
  obtain ⟨a, ha, h⟩ := exists_ok hbuilt
  obtain ⟨u, hu, h⟩ := (Option.any_eq_true _ _).mp h
  obtain ⟨hm, hunnamed, hmember⟩ := of_decide_eq_true h
  have hreachable : a.Reachable fun _ _ => True := .ofSources ha
  obtain ⟨base, hr⟩ := hreachable.exists_readFrom hu
  exact ⟨a, u, owner, ⟨7⟩, ha, hu, hm, ⟨_, hmember, rfl⟩, hr.not_declares hm hunnamed "k"⟩

end Analysis

end SquirrelAnalyzer
