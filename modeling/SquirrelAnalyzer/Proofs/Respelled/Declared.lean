import SquirrelAnalyzer.Proofs.Respelled.Source
import SquirrelAnalyzer.Proofs.Respelled.Units

namespace SquirrelAnalyzer

structure Declared.Alike (d d' : Declared) : Prop where
  bindings : d.bindings = d'.bindings
  visible : d.visible = d'.visible
  isQualified : d.isQualified = d'.isQualified

namespace Declared

variable {d d' e e' : Declared}

theorem Alike.refl (d : Declared) : d.Alike d := ⟨rfl, rfl, rfl⟩

theorem Alike.join (h : d.Alike d') (he : e.Alike e') : (d.join e).Alike (d'.join e') where
  bindings := congrArg₂ _ h.bindings he.bindings
  visible := congrArg₂ _ h.visible he.visible
  isQualified := he.isQualified

theorem alike_joinAll {ids : List NodeId} {f g : NodeId → Declared}
    (h : ∀ c ∈ ids, (f c).Alike (g c)) : (joinAll (ids.map f)).Alike (joinAll (ids.map g)) := by
  induction ids with
  | nil => exact ⟨rfl, rfl, rfl⟩
  | cons c ids ih =>
    exact (h c List.mem_cons_self).join (ih fun c hc => h c (List.mem_cons_of_mem _ hc))

end Declared

theorem Arena.Rewritten.isOpaqueKey {a a' : Arena} {key : NodeId} (h : a.Rewritten a' key) :
    a'.isOpaqueKey true key = false := by
  obtain ⟨name, -, hs⟩ := h
  rw [Arena.isOpaqueKey, literalText?, hs]
  rfl

namespace Arena.Respelled

variable {a a' : Arena} (h : a.Respelled a') (b : Branch)

include h

theorem scopeAround : a.scopeAround b = a'.scopeAround b := by
  unfold Arena.scopeAround
  simp only [h.map_kind? (f := Kind.isScope) rfl, h.root]

theorem isConstant : a.isConstant b = a'.isConstant b := by
  unfold Arena.isConstant
  cases b.parent? with
  | none => rfl
  | some parent =>
    rw [Option.bind_some, Option.bind_some]
    cases h.node parent with
    | same hs _ => rw [hs]
    | name hr =>
      obtain ⟨name, hs, hs'⟩ := hr
      rw [hs, hs']
    | bracket hs hs' hb _ _ =>
      rw [hs, hs']
      cases hb <;> rfl

theorem memberKinds (value : Option NodeId) : a.memberKinds value = a'.memberKinds value := by
  rw [Arena.memberKinds, Arena.memberKinds, h.valueKinds]

theorem member (key : NodeId) (value : Option NodeId) :
    (a.member b key (a.memberKinds value) value).Alike
      (a'.member b key (a'.memberKinds value) value) where
  bindings := by rw [Arena.member, Arena.member, h.memberKinds]
  visible := rfl
  isQualified := rfl

variable {b} {key : NodeId} (hkey : ¬ a.Rewritten a' key)

include hkey

theorem scopedAt (scope : NodeId) : a.scopedAt scope key b = a'.scopedAt scope key b := by
  rw [Arena.scopedAt, Arena.scopedAt, h.identifierName? hkey]

theorem named {kinds kinds' : Category × SymbolKind} (hk : kinds = kinds') (value : Option NodeId)
    (isQualified : Bool) :
    (a.named b key kinds value isQualified).Alike (a'.named b key kinds' value isQualified) where
  bindings := by rw [hk, Arena.named, Arena.named]
  visible := by
    rw [Arena.named, Arena.named, h.scopeAround, h.scopedAt hkey]
  isQualified := rfl

theorem isOpaqueKey (computed : Bool) :
    a.isOpaqueKey computed key = a'.isOpaqueKey computed key := by
  rw [Arena.isOpaqueKey, Arena.isOpaqueKey, h.literalText? hkey]

theorem loopVariable : (a.loopVariable b key).Alike (a'.loopVariable b key) := by
  unfold Arena.loopVariable
  rw [h.identifierName? hkey]
  exact .refl _

theorem rootSlot (value : NodeId) : (a.rootSlot b key value).Alike (a'.rootSlot b key value) where
  bindings := by rw [Arena.rootSlot, Arena.rootSlot, h.valueKinds]
  visible := by rw [Arena.rootSlot, Arena.rootSlot, h.root, h.scopedAt hkey]
  isQualified := rfl

theorem parameter : (a.parameter b key).Alike (a'.parameter b key) := by
  have hname (nameNode : NodeId) (hn : ¬ a.Rewritten a' nameNode) :
      a.identifierName? nameNode = a'.identifierName? nameNode := h.identifierName? hn
  unfold Arena.parameter Arena.parameterName?
  cases h.node key with
  | same hs hc =>
    rw [← hs]
    cases ht : a.shape? key with
    | none => exact .refl _
    | some s =>
      cases s with
      | identifier name =>
        dsimp only
        rw [hname key hkey]
        exact .refl _
      | assignmentPattern left right =>
        dsimp only
        rw [hname left (hc left (by simp [children_of_shape? ht, Shape.children, Shape.kind,
          Kind.fields, Shape.field]))]
        exact .refl _
      | _ => exact .refl _
  | name hr => exact absurd hr hkey
  | bracket hs hs' hb _ _ =>
    rw [hs, hs']
    cases hb <;> exact .refl _

theorem newSlot (right : NodeId) : (a.newSlot b key right).Alike (a'.newSlot b key right) := by
  unfold Arena.newSlot
  cases h.node key with
  | same hs hc =>
    rw [← hs]
    cases ht : a.shape? key with
    | none => exact .refl _
    | some s =>
      have hchild {c : NodeId} (hmem : c ∈ s.children .full) : ¬ a.Rewritten a' c :=
        hc c (by rwa [children_of_shape? ht])
      cases s with
      | identifier name => exact h.rootSlot hkey right
      | rootExpression property =>
        refine h.rootSlot (hchild ?_) right
        simp [Shape.children, Shape.kind, Kind.fields, Shape.field]
      | memberExpression object property computed =>
        have hproperty : ¬ a.Rewritten a' property :=
          hchild (by simp [Shape.children, Shape.kind, Kind.fields, Shape.field])
        dsimp only
        rw [h.isOpaqueKey hproperty]
        split
        · exact .refl _
        · have hmember := h.member b property (some right)
          exact ⟨hmember.bindings, hmember.visible, rfl⟩
      | _ => exact .refl _
  | name hr => exact absurd hr hkey
  | @bracket property s s' hs hs' hb hk _ =>
    rw [hs, hs']
    cases hb with
    | access object =>
      have hmember := h.member b property (some right)
      dsimp only
      rw [hk.isOpaqueKey]
      exact ⟨hmember.bindings, hmember.visible, rfl⟩
    | slot isStatic value => exact .refl _

omit hkey

variable {s s' : Shape NodeId}

theorem parameters {params : List NodeId} (hparams : ∀ c ∈ params, ¬ a.Rewritten a' c) :
    (Declared.joinAll (params.map (a.parameter b))).Alike
      (Declared.joinAll (params.map (a'.parameter b))) :=
  Declared.alike_joinAll fun c hc => h.parameter (hparams c hc)

theorem loopVariables {names : List NodeId} (hnames : ∀ c ∈ names, ¬ a.Rewritten a' c) :
    (Declared.joinAll (names.map (a.loopVariable b))).Alike
      (Declared.joinAll (names.map (a'.loopVariable b))) :=
  Declared.alike_joinAll fun c hc => h.loopVariable (hnames c hc)

theorem property {computed : Bool} {value : Option NodeId}
    (hsame : a.isOpaqueKey computed key = a'.isOpaqueKey computed key) (isStatic : Bool) :
    (Declared.ofShape a b (.propertyDefinition isStatic computed key value)).Alike
      (Declared.ofShape a' b (.propertyDefinition isStatic computed key value)) := by
  dsimp only [Declared.ofShape]
  rw [hsame]
  split
  · exact .refl _
  · exact h.member b key value

theorem ofShape (hc : ∀ c ∈ s.children .full, ¬ a.Rewritten a' c) :
    (Declared.ofShape a b s).Alike (Declared.ofShape a' b s) := by
  have hfield (k : Kind) (f : Field) (hk : s.kind = k) (hf : f ∈ k.fields .full) :
      ∀ c ∈ s.field f, ¬ a.Rewritten a' c :=
    fun c hmem => hc c (List.mem_flatMap.mpr ⟨f, hk ▸ hf, hmem⟩)
  cases s with
  | variableDeclarator id init =>
    have hid := hfield .variableDeclarator .id rfl (by decide) id List.mem_cons_self
    refine h.named hid ?_ init false
    rw [h.valueKinds, h.isConstant]
  | functionDeclaration qualifier id params body =>
    exact (h.parameters (hfield .functionDeclaration .params rfl (by decide))).join
      (h.named (hfield .functionDeclaration .id rfl (by decide) id List.mem_cons_self) rfl none _)
  | classDeclaration qualifier id superclass body =>
    exact h.named (hfield .classDeclaration .id rfl (by decide) id List.mem_cons_self) rfl none _
  | enumDeclaration id members =>
    exact h.named (hfield .enumDeclaration .id rfl (by decide) id List.mem_cons_self) rfl none false
  | propertyDefinition isStatic computed key value =>
    have hkey := hfield .propertyDefinition .key rfl (by decide) key List.mem_cons_self
    exact h.property (h.isOpaqueKey hkey computed) isStatic
  | functionExpression params body =>
    exact h.parameters (hfield .functionExpression .params rfl (by decide))
  | lambdaExpression params body =>
    exact h.parameters (hfield .lambdaExpression .params rfl (by decide))
  | foreachStatement index value object body =>
    refine h.loopVariables fun c hmem => ?_
    rcases List.mem_append.mp hmem with hindex | hvalue
    · exact hfield .foreachStatement .index rfl (by decide) c hindex
    · exact hfield .foreachStatement .value rfl (by decide) c hvalue
  | tryStatement block param handler =>
    exact h.loopVariables (hfield .tryStatement .param rfl (by decide))
  | assignmentExpression operator left right =>
    cases operator with
    | newSlot =>
      have hleft := hfield .assignmentExpression .left rfl (by decide) left List.mem_cons_self
      exact h.newSlot hleft right
    | _ => exact .refl _
  | _ => exact ⟨rfl, rfl, rfl⟩

theorem ofShape_bracketed (hb : s.Bracketed key s') (hk : a.Rewritten a' key) :
    (Declared.ofShape a b s).Alike (Declared.ofShape a' b s') := by
  cases hb with
  | access object => exact .refl _
  | slot isStatic value =>
    dsimp only [Declared.ofShape]
    rw [hk.isOpaqueKey]
    exact h.member b _ value

theorem ofBranch (b : Branch) : (Declared.ofBranch a b).Alike (Declared.ofBranch a' b) := by
  unfold Declared.ofBranch
  cases h.node b.target with
  | name hr =>
    obtain ⟨name, hs, hs'⟩ := hr
    rw [hs, hs']
    exact .refl _
  | bracket hs hs' hb hk _ =>
    rw [hs, hs']
    exact h.ofShape_bracketed hb hk
  | same hs hc =>
    rw [← hs]
    cases ht : a.shape? b.target with
    | none => exact .refl _
    | some s => exact h.ofShape fun c hmem => hc c (by rwa [children_of_shape? ht])

end Arena.Respelled

namespace Arena

variable {a a' : Arena} {b : Branch} {k : NodeId} {text : String}

theorem Respelled.normalizedKey? (h : a.Respelled a') (hk : ¬ a.Rewritten a' k) :
    a.normalizedKey? b = some (k, text) ↔ a'.normalizedKey? b = some (k, text) := by
  unfold Arena.normalizedKey?
  cases h.node b.target with
  | same hs hc =>
    rw [← hs]
    have htext {s : Shape NodeId} (ht : a.shape? b.target = some s) (key : NodeId)
        (hmem : key ∈ s.children .full) : a.literalText? key = a'.literalText? key :=
      h.literalText? (hc key (by rwa [children_of_shape? ht]))
    split
    · next object property ht =>
      have hproperty := htext ht property
        (by simp [Shape.children, Shape.kind, Kind.fields, Shape.field])
      simp only [Option.bind_some, hproperty]
    · next isStatic key value ht =>
      have hkey := htext ht key
        (by simp [Shape.children, Shape.kind, Kind.fields, Shape.field])
      simp only [Option.bind_some, hkey]
    · rfl
  | name hr =>
    obtain ⟨name, hs, hs'⟩ := hr
    rw [hs, hs']
    exact Iff.rfl
  | @bracket key s s' hs hs' hb hkey _ =>
    have hne (o : Option String) : o.map (key, ·) ≠ some (k, text) := by
      intro he
      obtain ⟨x, -, hx⟩ := Option.map_eq_some_iff.mp he
      cases hx
      exact hk hkey
    rw [hs, hs']
    cases hb <;> simpa using hne _

end Arena

namespace SourceUnit

variable {a a' : Arena} {k : NodeId}

theorem get?_normalizedKeys (config : Config) (a : Arena) (k : NodeId) (text : String) :
    (ofArena config a).facts.normalizedKeys.get? k = some text ↔
      ∃ b ∈ a.preorder a.rootBranch, a.normalizedKey? b = some (k, text) := by
  constructor
  · intro h
    exact List.mem_filterMap.mp (NodeTable.mem_of_get?_ofList h)
  · rintro ⟨b, hb, hkey⟩
    have hmem := List.mem_filterMap.mpr ⟨b, hb, hkey⟩
    obtain ⟨text', hget⟩ := NodeTable.exists_get?_ofList hmem
    obtain ⟨b', -, hkey'⟩ := List.mem_filterMap.mp (NodeTable.mem_of_get?_ofList hget)
    -- whichever node came last, the text is that of the key
    have htext := Arena.literalText?_of_normalizedKey? hkey
    rw [Arena.literalText?_of_normalizedKey? hkey'] at htext
    obtain rfl := Option.some.inj htext
    exact hget

theorem get?_normalizedKeys_of_bracketed (config : Config) {a : Arena} (ha : a.Parsed)
    {s s' : Shape NodeId} {k id : NodeId} {name : String} (hb : s.Bracketed k s')
    (hid : a.shape? id = some s') (hk : a.shape? k = some (.literal (.string name))) :
    (ofArena config a).facts.normalizedKeys.get? k = some name := by
  obtain ⟨b, hmem, rfl⟩ := ha.exists_mem_preorder (Arena.lt_size_of_shape? hid)
  refine (get?_normalizedKeys config a k name).mpr ⟨b, hmem, ?_⟩
  have htext : a.literalText? k = some name := by
    rw [Arena.literalText?, hk]
    rfl
  unfold Arena.normalizedKey?
  rw [hid]
  cases hb <;> simp [htext]

end SourceUnit

namespace Arena

variable {a a' : Arena}

theorem Respelled.facts_ofArena (h : a.Respelled a') (config : Config) :
    (SourceUnit.ofArena config a).facts.core = (SourceUnit.ofArena config a').facts.core := by
  have hbindings (nodes : List Branch) :
      (nodes.map fun b => (b, Declared.ofBranch a b)).flatMap (·.2.bindings) =
        (nodes.map fun b => (b, Declared.ofBranch a' b)).flatMap (·.2.bindings) := by
    simp only [List.flatMap_map, (h.ofBranch _).bindings]
  have hvisible (nodes : List Branch) :
      (nodes.map fun b => (b, Declared.ofBranch a b)).flatMap (·.2.visible) =
        (nodes.map fun b => (b, Declared.ofBranch a' b)).flatMap (·.2.visible) := by
    simp only [List.flatMap_map, (h.ofBranch _).visible]
  simp only [SourceUnit.ofArena, Facts.core, ← h.preorder, hbindings, hvisible]

theorem Respelled.pending_ofArena (h : a.Respelled a') (config : Config) :
    (SourceUnit.ofArena config a).pending = (SourceUnit.ofArena config a').pending := by
  simp only [SourceUnit.pending_ofArena, ← h.preorder, (h.ofBranch _).isQualified]

theorem Rekeyed.ofArena (h : a.Rekeyed a') (ha : a.Parsed) (ha' : a'.Parsed) (hn : a.Nested)
    (config : Config) (id : UnitId) : (SourceUnit.ofArena config { a with unit := id }).Respelled
      (SourceUnit.ofArena config { a' with unit := id }) := by
  have hr := h.respelled ha ha' hn id
  refine ⟨rfl, hr, hr.facts_ofArena config, hr.pending_ofArena config, rfl, ?_, ?_⟩
  · intro k hk
    refine Option.ext fun text => ?_
    rw [SourceUnit.get?_normalizedKeys, SourceUnit.get?_normalizedKeys, ← hr.preorder]
    exact exists_congr fun b => and_congr_right fun _ => hr.normalizedKey? hk
  · intro k name hs hs'
    obtain ⟨owner, s, s', -, howner, hb⟩ := h.owner ⟨name, hs, hs'⟩
    exact SourceUnit.get?_normalizedKeys_of_bracketed config ⟨ha'.withUnit id, ha'.whole⟩ hb howner
      hs'

end Arena

end SquirrelAnalyzer
