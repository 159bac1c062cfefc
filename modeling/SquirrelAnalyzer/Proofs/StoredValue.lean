import SquirrelAnalyzer.Proofs.Followed
import SquirrelAnalyzer.Proofs.KeyDefinition
import SquirrelAnalyzer.Proofs.Respelled.Declared

namespace SquirrelAnalyzer

def Shape.storedValue? {χ : Type} : Shape χ → Option χ
  | variableDeclarator _ value | enumMember _ value | propertyDefinition _ _ _ value => value
  | methodDefinition _ _ _ value | assignmentExpression .newSlot _ value => some value
  | _ => none

theorem Shape.mem_children_of_storedValue {χ : Type} {t : Shape χ} {value : χ}
    (h : t.storedValue? = some value) : value ∈ t.children .full := by
  cases t with
  | variableDeclarator | enumMember | propertyDefinition | methodDefinition =>
    cases h
    simp [children, kind, Kind.fields, field]
  | assignmentExpression operator left right =>
    cases operator with
    | newSlot =>
      cases h
      simp [children, kind, Kind.fields, field]
    | _ => cases h
  | _ => cases h

namespace Arena

def slotKey? (a : Arena) (left : NodeId) : Option NodeId :=
  match a.shape? left with
  | some (.identifier _) => some left
  | some (.rootExpression property) => some property
  | some (.memberExpression _ property computed) =>
    if a.isOpaqueKey computed property then none else some property
  | _ => none

def storageKey? (a : Arena) : Shape NodeId → Option NodeId
  | .variableDeclarator key _ | .enumMember key _ | .methodDefinition _ _ key _ => some key
  | .propertyDefinition _ computed key _ => if a.isOpaqueKey computed key then none else some key
  | .assignmentExpression .newSlot left _ => a.slotKey? left
  | _ => none

def namesSlotIndirectly (a : Arena) : Shape NodeId → Bool
  | .assignmentExpression .newSlot left _ => (a.identifierName? left).isNone
  | _ => false

variable {a : Arena} {b : Branch} {key m k : NodeId} {s : Symbol} {t : Shape NodeId}

theorem shape?_of_literalText? {text : String} (h : a.literalText? k = some text) :
    a.shape? k = some (.literal (.string text)) := by
  obtain ⟨s, hs, h⟩ := Option.bind_eq_some_iff.mp h
  obtain ⟨value, hvalue, h⟩ := Option.bind_eq_some_iff.mp h
  cases s with
  | literal =>
    cases hvalue
    cases value with
    | string =>
      cases h
      exact hs
    | _ => cases h
  | _ => cases hvalue

theorem literalText?_of_opaque (h : a.isOpaqueKey true key = true) : a.literalText? key = none := by
  simpa [isOpaqueKey] using h

theorem of_symbolOf? {kind : SymbolKind} {value : Option NodeId}
    (h : a.symbolOf? b key kind value = some s) :
    s.node = b.target ∧ s.value = value ∧ a.slotName? key = some s.name := by
  unfold symbolOf? at h
  simp only [Option.bind_eq_bind, Option.bind_eq_some_iff] at h
  obtain ⟨name, hname, selection, -, location, -, h⟩ := h
  split at h
  · cases h
    exact ⟨rfl, rfl, hname⟩
  · cases h

theorem of_symbol_newSlot {left right : NodeId} (h : (a.newSlot b left right).symbol = some s) :
    s.node = b.target ∧ s.value = some right ∧
      ∃ key, a.slotKey? left = some key ∧ a.slotName? key = some s.name := by
  unfold newSlot at h
  split at h
  · next hl =>
    obtain ⟨hnode, hvalue, hname⟩ := of_symbolOf? h
    exact ⟨hnode, hvalue, left, by rw [slotKey?, hl], hname⟩
  · next property hl =>
    obtain ⟨hnode, hvalue, hname⟩ := of_symbolOf? h
    exact ⟨hnode, hvalue, property, by rw [slotKey?, hl], hname⟩
  · next property computed hl =>
    split at h
    · cases h
    · next hnamed =>
      obtain ⟨hnode, hvalue, hname⟩ := of_symbolOf? h
      exact ⟨hnode, hvalue, property, by rw [slotKey?, hl]; exact if_neg hnamed, hname⟩
  · cases h

theorem of_symbol_ofBranch {v : NodeId} (h : (Declared.ofBranch a b).symbol = some s)
    (hv : s.value = some v) : s.node = b.target ∧ ∃ t key, a.shape? b.target = some t ∧
      t.storedValue? = some v ∧ a.storageKey? t = some key ∧ a.slotName? key = some s.name := by
  unfold Declared.ofBranch at h
  split at h
  case h_2 => cases h
  next t ht =>
  have hkeyed {key : NodeId} {kind : SymbolKind} {value : Option NodeId}
      (h : a.symbolOf? b key kind value = some s) (hvalue : t.storedValue? = value)
      (hkey : a.storageKey? t = some key) : s.node = b.target ∧ ∃ t key,
        a.shape? b.target = some t ∧ t.storedValue? = some v ∧ a.storageKey? t = some key ∧
          a.slotName? key = some s.name := by
    obtain ⟨hnode, hsame, hname⟩ := of_symbolOf? h
    exact ⟨hnode, t, key, ht, hvalue.trans (hsame.symm.trans hv), hkey, hname⟩
  have hunbound {key : NodeId} {kind : SymbolKind} (h : a.symbolOf? b key kind none = some s) :
      False := by
    rw [(of_symbolOf? h).2.1] at hv
    cases hv
  cases t with
  | variableDeclarator | enumMember | methodDefinition => exact hkeyed h rfl rfl
  | functionDeclaration | classDeclaration | enumDeclaration => exact (hunbound h).elim
  | functionExpression | lambdaExpression | foreachStatement | tryStatement =>
    rw [Declared.ofShape, Declared.symbol_joinAll] at h
    cases h
  | propertyDefinition isStatic computed key value =>
    simp only [Declared.ofShape] at h
    split at h
    · cases h
    · next hnamed => exact hkeyed h rfl (if_neg hnamed)
  | assignmentExpression operator left right =>
    cases operator with
    | newSlot =>
      obtain ⟨hnode, hvalue, key, hkey, hname⟩ := of_symbol_newSlot h
      exact ⟨hnode, _, key, ht, hvalue.symm.trans hv, hkey, hname⟩
    | _ => cases h
  | _ => cases h

section Extends

variable {a' : Arena}

theorem Extends.literalText? (h : a.Extends a') {text : String}
    (htext : a.literalText? k = some text) : a'.literalText? k = some text := by
  obtain ⟨s, hs, htext⟩ := Option.bind_eq_some_iff.mp htext
  exact Option.bind_eq_some_iff.mpr ⟨s, h.shape?_of hs, htext⟩

theorem Extends.slotName? (h : a.Extends a') {name : String}
    (hname : a.slotName? k = some name) : a'.slotName? k = some name := by
  rcases Option.or_eq_some_iff.mp hname with hname | ⟨hnone, htext⟩
  · exact Option.or_eq_some_iff.mpr (.inl (h.identifierName? hname))
  · obtain ⟨s, hs, -⟩ := Option.bind_eq_some_iff.mp htext
    refine Option.or_eq_some_iff.mpr (.inr ⟨?_, h.literalText? htext⟩)
    rw [Arena.identifierName?, hs, Option.bind_some] at hnone
    rw [h.identifierName?_of hs, hnone]

theorem Extends.isOpaqueKey (h : a.Extends a') {computed : Bool}
    (hnamed : ¬ a.isOpaqueKey computed key = true) : ¬ a'.isOpaqueKey computed key = true := by
  cases computed with
  | false => exact Bool.false_ne_true
  | true =>
    cases htext : a.literalText? key with
    | none => exact absurd (by simp [Arena.isOpaqueKey, htext]) hnamed
    | some text => simp [Arena.isOpaqueKey, h.literalText? htext]

theorem Extends.storageKey? (h : a.Extends a') (hkey : a.storageKey? t = some key) :
    a'.storageKey? t = some key := by
  cases t with
  | variableDeclarator | enumMember | methodDefinition => exact hkey
  | propertyDefinition isStatic computed key' value =>
    simp only [Arena.storageKey?] at hkey ⊢
    split at hkey
    · cases hkey
    · next hnamed => rw [if_neg (h.isOpaqueKey hnamed), hkey]
  | assignmentExpression operator left right =>
    cases operator with
    | newSlot =>
      simp only [Arena.storageKey?, slotKey?] at hkey ⊢
      split at hkey
      · next hl => rw [h.shape?_of hl]; exact hkey
      · next hl => rw [h.shape?_of hl]; exact hkey
      · next hl =>
        rw [h.shape?_of hl]
        dsimp only
        split at hkey
        · cases hkey
        · next hnamed => rw [if_neg (h.isOpaqueKey hnamed), hkey]
      · cases hkey
    | _ => cases hkey
  | _ => cases hkey

end Extends

end Arena

namespace SourceUnit

variable {u : SourceUnit} {config : Config} {a : Arena} {s : Symbol} {v : NodeId}

theorem mem_preorder_build (config : Config) (id : UnitId) (a : Arena)
    (hs : s ∈ Outline.preorder (build config id a).outline) (hv : s.value = some v) :
    s ∈ Outline.preorder ({ a with unit := id } : Arena).outline := by
  have hbuilt : ∀ s ∈ Outline.preorder (build config id a).outline,
      s.value = none ∨ s ∈ Outline.preorder ({ a with unit := id } : Arena).outline := by
    refine attachComments_induction (motive := fun u => ∀ s ∈ Outline.preorder u.outline,
      s.value = none ∨ s ∈ Outline.preorder ({ a with unit := id } : Arena).outline)
      (fun _ _ h _ => h) (fun u cls name tag location h s hs => ?_) (fun s hs => .inr hs) config
    rw [outline_addMeta] at hs
    cases hadd : u.outline.addUnder? cls (.node ⟨name, .property, location, location,
        (u.addMeta cls name tag location).1, none⟩ []) with
    | none =>
      rw [hadd] at hs
      exact h s hs
    | some o' =>
      rw [hadd] at hs
      rcases List.mem_append.mp ((Outline.preorder_addUnder? hadd).mem_iff.mp hs) with hs | hs
      · simp only [Outline.preorder, List.append_nil, List.mem_singleton] at hs
        exact .inl (congrArg Symbol.value hs)
      · exact h s hs
  rcases hbuilt s hs with hnone | hs
  · rw [hnone] at hv
    cases hv
  · exact hs

namespace ReadFrom

variable {m k : NodeId} {t : Shape NodeId} {text : String}

theorem keyName?_child (h : u.ReadFrom config a) (ht : a.shape? m = some t)
    (hk : k ∈ t.children .full) (hslot : t.kind ≠ .propertyDefinition)
    (haccess : t.kind ≠ .memberExpression) : u.keyName? k = u.arena.identifierName? k := by
  have hnormalized : u.facts.normalizedKeys.get? k = none := by
    refine Option.eq_none_iff_forall_ne_some.mpr fun text hget => ?_
    rw [h.unit.keys] at hget
    obtain ⟨b, -, hb⟩ := (get?_normalizedKeys config a k text).mp hget
    obtain ⟨key, hkey, hb⟩ := Option.bind_eq_some_iff.mp hb
    obtain ⟨text', -, he⟩ := Option.map_eq_some_iff.mp hb
    cases he
    have hchild {s : Shape NodeId} (hs : a.shape? b.target = some s)
        (hc : k ∈ s.children .full) : s = t := by
      have hm : k ∈ a.children .full m := Arena.children_of_shape? ht .full ▸ hk
      have hb : k ∈ a.children .full b.target := Arena.children_of_shape? hs .full ▸ hc
      rw [h.parsed.parent_unique hm hb, ht] at hs
      exact (Option.some.inj hs).symm
    split at hkey
    · next hs =>
      cases hkey
      obtain rfl := hchild hs (by simp [Shape.children, Shape.kind, Kind.fields, Shape.field])
      exact haccess rfl
    · next hs =>
      cases hkey
      obtain rfl := hchild hs (by simp [Shape.children, Shape.kind, Kind.fields, Shape.field])
      exact hslot rfl
    · cases hkey
  rw [keyName?, hnormalized, Option.or_none]

theorem keyName?_slot (h : u.ReadFrom config a) {isStatic computed : Bool} {value : Option NodeId}
    (ht : a.shape? m = some (.propertyDefinition isStatic computed k value))
    (hnamed : ¬ a.isOpaqueKey computed k = true) : u.keyName? k = u.arena.slotName? k := by
  cases computed with
  | false =>
    obtain ⟨name, hname⟩ := h.grammatical.shape?_plainName ht rfl
    rw [keyName?, Arena.slotName?, h.unit.arena.identifierName?_of hname]
    rfl
  | true =>
    cases htext : a.literalText? k with
    | none => exact absurd (by simp [Arena.isOpaqueKey, htext]) hnamed
    | some text =>
      have hs : a.shape? k = some (.literal (.string text)) := Arena.shape?_of_literalText? htext
      have hnormalized : u.facts.normalizedKeys.get? k = some text := by
        rw [h.unit.keys]
        exact get?_normalizedKeys_of_bracketed config h.parsed (.slot isStatic value) ht hs
      rw [keyName?, Arena.slotName?, hnormalized, h.unit.arena.literalText? htext]

end ReadFrom

end SourceUnit

namespace Analysis

variable {asked : Program → Branch → Prop} {a : Analysis} {id : UnitId} {u : SourceUnit}
  {s : Symbol} {v : NodeId}

theorem Reachable.exists_declaring (h : a.Reachable asked) (hu : a.unit? id = some u) :
    ∃ base, u.ReadFrom a.program.config base ∧
      ∀ s ∈ Outline.preorder u.outline, ∀ v, s.value = some v →
        ∃ b, (Declared.ofBranch base b).symbol = some s := by
  obtain ⟨source, arena, ha, namespaces, entries, rfl⟩ := h.exists_followed hu
  refine ⟨_, SourceUnit.readFrom_build ha _ id _ _, fun s hs v hv => ?_⟩
  have hs := (Outline.preorder_follow id entries _).mem_iff.mp hs
  have hs := SourceUnit.mem_preorder_build _ id arena hs hv
  rw [Arena.outline, Arena.preorder_outlineUpTo] at hs
  obtain ⟨b, -, hb⟩ := List.mem_filterMap.mp hs
  exact ⟨b, hb⟩

end Analysis

end SquirrelAnalyzer
