import SquirrelAnalyzer.Proofs.Extension
import SquirrelAnalyzer.Unit.Declared

namespace SquirrelAnalyzer

namespace Shape

variable {χ : Type} {s : Shape χ} {c : χ}

def isDeclaration : Shape χ → Bool
  | variableDeclarator .. | functionDeclaration .. | classDeclaration .. | enumDeclaration ..
  | methodDefinition .. | propertyDefinition .. | enumMember .. | metaProperty ..
  | assignmentPattern .. | assignmentExpression .newSlot .. => true
  | _ => false

def boundNames : Shape χ → List χ
  | functionDeclaration _ _ params _ | functionExpression params _ | lambdaExpression params _ =>
    params
  | foreachStatement index value _ _ => index.toList ++ [value]
  | tryStatement _ param _ => param.toList
  | _ => []

theorem mem_children_of_boundName (h : c ∈ s.boundNames) : c ∈ s.children .full := by
  cases s with
  | functionDeclaration qualifier id params body =>
    simpa [children, kind, Kind.fields, field] using .inr (.inr (.inl h))
  | functionExpression params body | lambdaExpression params body =>
    simpa [children, kind, Kind.fields, field] using .inl h
  | foreachStatement index value object body =>
    rcases List.mem_append.mp h with h | h
    · simpa [children, kind, Kind.fields, field] using .inl (by simpa using h)
    · simpa [children, kind, Kind.fields, field] using .inr (.inl (List.mem_singleton.mp h))
  | tryStatement block param handler =>
    simpa [children, kind, Kind.fields, field] using .inr (.inl (by simpa [boundNames] using h))
  | _ => cases h

theorem mem_children_of_nameNode (h : s.nameNode? = some c) : c ∈ s.children .full := by
  cases s with
  | assignmentExpression operator left right =>
    cases operator <;> simp [nameNode?] at h
    simp [h, children, kind, Kind.fields, field]
  | _ =>
    simp [nameNode?] at h
    try simp [h, children, kind, Kind.fields, field]

end Shape

theorem Arena.mem_children_of_boundName {a : Arena} {id c : NodeId} {s : Shape NodeId}
    (hs : a.shape? id = some s) (h : c ∈ s.boundNames) : c ∈ a.children .full id := by
  rw [children_of_shape? hs]
  exact Shape.mem_children_of_boundName h

theorem Arena.shape?_of_identifierName? {a : Arena} {id : NodeId} {name : String}
    (h : a.identifierName? id = some name) : a.shape? id = some (.identifier name) := by
  obtain ⟨s, hs, hname⟩ := Option.bind_eq_some_iff.mp h
  cases s with
  | identifier text =>
    cases hname
    exact hs
  | _ => cases hname

namespace Declared

variable {a : Arena} {b : Branch} {motive : Declared → Prop}

structure Names (a : Arena) (b : Branch) (key : NodeId) (d : Declared) : Prop where
  bindings : ∃ category, d.bindings = [⟨key, b.target, category⟩]
  visible : d.visible = [] ∨ ∃ scope, d.visible = a.scopedAt scope key b

theorem Names.declaration_eq {key : NodeId} {d : Declared} (h : Names a b key d)
    {x : NodeId × ScopedName} (hx : x ∈ d.visible) : x.2.declaration = b := by
  rcases h.visible with hv | ⟨scope, hv⟩
  · rw [hv] at hx
    cases hx
  · rw [hv] at hx
    unfold Arena.scopedAt at hx
    split at hx
    · rw [List.mem_singleton.mp hx]
    · cases hx

theorem Names.binding_eq {key : NodeId} {d : Declared} (h : Names a b key d) {x : Binding}
    (hx : x ∈ d.bindings) : x.key = key ∧ x.declaration.declaring = b.target := by
  obtain ⟨category, hd⟩ := h.bindings
  rw [hd, List.mem_singleton] at hx
  subst hx
  exact ⟨rfl, rfl⟩

inductive Binds (a : Arena) (b : Branch) (m : NodeId) : Declared → Prop
  | nothing : Binds a b m {}
  | plain {name : String} {category : Category} (hs : a.shape? m = some (.identifier name)) :
    Binds a b m
      { bindings := [⟨m, m, category⟩], visible := [(b.target, ⟨name, b.child m⟩)] }
  | defaulted {left right : NodeId} {name : String}
    (hs : a.shape? m = some (.assignmentPattern left right))
    (hname : a.identifierName? left = some name) :
    Binds a b m
      { bindings := [⟨left, m, .parameter⟩], visible := [(b.target, ⟨name, b.child m⟩)] }

theorem binds_parameter (a : Arena) (b : Branch) (m : NodeId) : Binds a b m (a.parameter b m) := by
  unfold Arena.parameter
  split
  · exact .nothing
  · next key hkey =>
    split
    · exact .nothing
    · next name hname =>
      unfold Arena.parameterName? at hkey
      split at hkey
      · cases hkey
        exact .plain (Arena.shape?_of_identifierName? hname)
      · next left right hs =>
        cases hkey
        exact .defaulted hs hname
      · cases hkey

theorem binds_loopVariable (a : Arena) (b : Branch) (m : NodeId) :
    Binds a b m (a.loopVariable b m) := by
  unfold Arena.loopVariable
  split
  · exact .nothing
  · next name hname => exact .plain (Arena.shape?_of_identifierName? hname)

structure Parts (a : Arena) (b : Branch) (motive : Declared → Prop) : Prop where
  empty : motive {}
  join : ∀ {d d'}, motive d → motive d' → motive (d.join d')
  own : ∀ {s key d}, a.shape? b.target = some s → s.isDeclaration = true →
    key ∈ s.children .full → ((s.children .full).Nodup → key ∉ s.boundNames) →
    Names a b key d → motive d
  below : ∀ {s left l key d}, a.shape? b.target = some s → s.isDeclaration = true →
    left ∈ s.children .full → a.shape? left = some l → l.isDeclaration = false →
    l.boundNames = [] → key ∈ l.children .full → Names a b key d → motive d
  parameter : ∀ {s param}, a.shape? b.target = some s → param ∈ s.boundNames →
    motive (a.parameter b param)
  loopVariable : ∀ {s binding}, a.shape? b.target = some s → binding ∈ s.boundNames →
    motive (a.loopVariable b binding)

theorem names_named {key : NodeId} {kinds : Category × SymbolKind} {value : Option NodeId}
    {isQualified : Bool} : Names a b key (a.named b key kinds value isQualified) where
  bindings := ⟨_, rfl⟩
  visible := by
    cases isQualified with
    | true => exact .inl rfl
    | false => exact .inr ⟨_, rfl⟩

namespace Parts

theorem joinAll (h : Parts a b motive) {ds : List Declared} (hd : ∀ d ∈ ds, motive d) :
    motive (joinAll ds) := by
  induction ds with
  | nil => exact h.empty
  | cons d ds ih =>
    refine h.join (hd d List.mem_cons_self) (ih fun d hmem => ?_)
    exact hd d (List.mem_cons_of_mem _ hmem)

theorem parameters (h : Parts a b motive) {s : Shape NodeId} (hs : a.shape? b.target = some s) :
    motive (Declared.joinAll (s.boundNames.map (a.parameter b))) := by
  refine h.joinAll fun d hd => ?_
  obtain ⟨param, hparam, rfl⟩ := List.mem_map.mp hd
  exact h.parameter hs hparam

theorem loopVariables (h : Parts a b motive) {s : Shape NodeId} (hs : a.shape? b.target = some s) :
    motive (Declared.joinAll (s.boundNames.map (a.loopVariable b))) := by
  refine h.joinAll fun d hd => ?_
  obtain ⟨binding, hbinding, rfl⟩ := List.mem_map.mp hd
  exact h.loopVariable hs hbinding

theorem newSlot (h : Parts a b motive) {left right : NodeId}
    (hs : a.shape? b.target = some (.assignmentExpression .newSlot left right)) :
    motive (a.newSlot b left right) := by
  have hleft : left ∈ (Shape.assignmentExpression .newSlot left right).children .full := by
    simp [Shape.children, Shape.kind, Kind.fields, Shape.field]
  unfold Arena.newSlot
  split
  · exact h.own hs rfl hleft (by simp [Shape.boundNames]) ⟨⟨_, rfl⟩, .inr ⟨_, rfl⟩⟩
  · next property hl =>
    refine h.below hs rfl hleft hl rfl rfl ?_ ⟨⟨_, rfl⟩, .inr ⟨_, rfl⟩⟩
    simp [Shape.children, Shape.kind, Kind.fields, Shape.field]
  · next object property computed hl =>
    split
    · exact h.empty
    · refine h.below hs rfl hleft hl rfl rfl ?_ ⟨⟨_, rfl⟩, .inl rfl⟩
      simp [Shape.children, Shape.kind, Kind.fields, Shape.field]
  · exact h.empty

theorem ofBranch (h : Parts a b motive) : motive (ofBranch a b) := by
  unfold Declared.ofBranch
  split
  case h_2 => exact h.empty
  next s hs =>
  cases s with
  | variableDeclarator id init =>
    refine h.own hs rfl ?_ (by simp [Shape.boundNames]) names_named
    simp [Shape.children, Shape.kind, Kind.fields, Shape.field]
  | functionDeclaration qualifier id params body =>
    refine h.join (h.parameters hs) (h.own hs rfl ?_ (fun hnodup => ?_) names_named)
    · simp [Shape.children, Shape.kind, Kind.fields, Shape.field]
    · simp only [Shape.children, Shape.kind, Kind.fields, Shape.field, List.flatMap_cons,
        List.flatMap_nil, List.append_nil] at hnodup
      have hname := (List.nodup_append.mp (List.nodup_append.mp hnodup).2.1).2.2
      intro hmem
      exact hname id (List.mem_singleton_self id) id (List.mem_append_left _ hmem) rfl
  | classDeclaration qualifier id superclass body =>
    refine h.own hs rfl ?_ (by simp [Shape.boundNames]) names_named
    simp [Shape.children, Shape.kind, Kind.fields, Shape.field]
  | enumDeclaration id members =>
    refine h.own hs rfl ?_ (by simp [Shape.boundNames]) names_named
    simp [Shape.children, Shape.kind, Kind.fields, Shape.field]
  | enumMember id init =>
    refine h.own hs rfl ?_ (by simp [Shape.boundNames]) ⟨⟨_, rfl⟩, .inl rfl⟩
    simp [Shape.children, Shape.kind, Kind.fields, Shape.field]
  | methodDefinition kind isStatic key value =>
    refine h.own hs rfl ?_ (by simp [Shape.boundNames]) ⟨⟨_, rfl⟩, .inl rfl⟩
    simp [Shape.children, Shape.kind, Kind.fields, Shape.field]
  | propertyDefinition isStatic computed key value =>
    simp only [ofShape]
    split
    · exact h.empty
    · refine h.own hs rfl ?_ (by simp [Shape.boundNames]) ⟨⟨_, rfl⟩, .inl rfl⟩
      simp [Shape.children, Shape.kind, Kind.fields, Shape.field]
  | functionExpression params body | lambdaExpression params body => exact h.parameters hs
  | foreachStatement index value object body => exact h.loopVariables hs
  | tryStatement block param handler => exact h.loopVariables hs
  | assignmentExpression operator left right =>
    cases operator with
    | newSlot => exact h.newSlot hs
    | _ => exact h.empty
  | _ => exact h.empty

end Parts

end Declared

end SquirrelAnalyzer
