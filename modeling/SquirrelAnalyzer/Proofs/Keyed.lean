import SquirrelAnalyzer.Proofs.BoundNames
import SquirrelAnalyzer.Proofs.Mirrored

/-!
What each node declares, in two parts: the names that it binds, which declare themselves or the
parameters they belong to, and its own name. A name declares one node, and a node has one name.
-/

namespace SquirrelAnalyzer

namespace Arena

variable {a : Arena}

def boundNames (a : Arena) (id : NodeId) : List NodeId :=
  ((a.shape? id).map Shape.boundNames).getD []

def boundKey? (a : Arena) (c : NodeId) : Option NodeId :=
  (a.parameterName? c).filter fun key => (a.identifierName? key).isSome

def boundPairs (a : Arena) (c : NodeId) : List (NodeId × NodeId) :=
  (a.boundKey? c).toList.map (·, c)

def boundVisible (a : Arena) (b : Branch) (c : NodeId) : List (NodeId × ScopedName) :=
  (a.boundKey? c).toList.flatMap fun key => a.scopedAt b.target key (b.child c)

def ownScope? (a : Arena) (b : Branch) : Option NodeId :=
  match a.shape? b.target with
  | some (.assignmentExpression .newSlot left _) =>
    match a.kind? left with
    | some .identifier | some .rootExpression => some a.root
    | _ => none
  | some s => if s.isNamedAround then some (a.scopeAround b) else none
  | none => none

def ownVisible (a : Arena) (b : Branch) : List (NodeId × ScopedName) :=
  (a.ownScope? b).toList.flatMap fun scope =>
    (a.declaredName? b.target).toList.flatMap fun key => a.scopedAt scope key b

inductive Keyed (a : Arena) (k d : NodeId) : Prop
  | own (h : a.declaredName? d = some k)
  | bound {m : NodeId} (hbound : d ∈ a.boundNames m) (hkey : a.boundKey? d = some k)

theorem boundNames_of_shape? {m : NodeId} {s : Shape NodeId} (hs : a.shape? m = some s) :
    a.boundNames m = s.boundNames := by rw [boundNames, hs, Option.map_some, Option.getD_some]

end Arena

namespace Declared

variable {a : Arena} {b : Branch}

def pairs (d : Declared) : List (NodeId × NodeId) :=
  d.bindings.map fun x => (x.key, x.declaration.declaring)

theorem parameter_eq (a : Arena) (b : Branch) (c : NodeId) :
    (a.parameter b c).pairs = a.boundPairs c ∧ (a.parameter b c).visible = a.boundVisible b c := by
  unfold Arena.parameter Arena.boundPairs Arena.boundVisible Arena.boundKey? Arena.scopedAt pairs
  cases a.parameterName? c with
  | none => exact ⟨rfl, rfl⟩
  | some key => cases hname : a.identifierName? key <;> simp [Option.filter_some, hname]

theorem loopVariable_eq {c : NodeId} {name : String} (hc : a.shape? c = some (.identifier name)) :
    (a.loopVariable b c).pairs = a.boundPairs c ∧
      (a.loopVariable b c).visible = a.boundVisible b c := by
  have hname : a.identifierName? c = some name := by rw [Arena.identifierName?, hc]; rfl
  unfold Arena.loopVariable Arena.boundPairs Arena.boundVisible Arena.boundKey? Arena.scopedAt pairs
  simp [Arena.parameterName?, Option.filter_some, hc, hname]

theorem joinAll_eq {ids : List NodeId} {f : NodeId → Declared}
    (h : ∀ c ∈ ids, (f c).pairs = a.boundPairs c ∧ (f c).visible = a.boundVisible b c) :
    (joinAll (ids.map f)).pairs = ids.flatMap a.boundPairs ∧
      (joinAll (ids.map f)).visible = ids.flatMap (a.boundVisible b) := by
  rw [pairs, bindings_joinAll, visible_joinAll, List.map_flatMap, List.flatMap_map,
    List.flatMap_map]
  exact ⟨List.flatMap_congr fun c hc => (h c hc).1, List.flatMap_congr fun c hc => (h c hc).2⟩

theorem ofBranch_eq (ha : a.Grammatical) (b : Branch) :
    (ofBranch a b).pairs = (a.boundNames b.target).flatMap a.boundPairs ++
        (a.declaredName? b.target).toList.map (·, b.target) ∧
      (ofBranch a b).visible = (a.boundNames b.target).flatMap (a.boundVisible b) ++
        a.ownVisible b := by
  unfold ofBranch Arena.boundNames Arena.ownVisible Arena.ownScope? Arena.declaredName?
  cases hs : a.shape? b.target with
  | none => exact ⟨rfl, rfl⟩
  | some s =>
    cases s with
    | variableDeclarator | enumDeclaration | enumMember | methodDefinition =>
      simp [ofShape, pairs, Shape.boundNames, Shape.isNamedAround, Arena.named, Arena.member]
    | classDeclaration qualifier =>
      cases qualifier <;>
        simp [ofShape, pairs, Shape.boundNames, Shape.isNamedAround, Arena.named]
    | functionDeclaration qualifier id params body =>
      have hparams := joinAll_eq (f := a.parameter b) fun c (_ : c ∈ params) => parameter_eq a b c
      have hjoin (d e : Declared) : (d.join e).pairs = d.pairs ++ e.pairs ∧
          (d.join e).visible = d.visible ++ e.visible := ⟨List.map_append, rfl⟩
      dsimp only [ofShape]
      rw [(hjoin _ _).1, (hjoin _ _).2, hparams.1, hparams.2]
      cases qualifier <;> simp [pairs, Shape.boundNames, Shape.isNamedAround, Arena.named]
    | functionExpression params | lambdaExpression params =>
      have hparams := joinAll_eq (f := a.parameter b) fun c (_ : c ∈ params) => parameter_eq a b c
      simpa [ofShape, Shape.boundNames, Shape.isNamedAround] using hparams
    | foreachStatement | tryStatement =>
      have hvariables := joinAll_eq (f := a.loopVariable b) fun c hc => by
        obtain ⟨name, hname⟩ := ha.shape?_boundName hs rfl hc
        exact loopVariable_eq hname
      simpa [ofShape, Shape.boundNames, Shape.isNamedAround] using hvariables
    | propertyDefinition isStatic computed key value =>
      by_cases hunnamed : a.isOpaqueKey computed key = true
      · simp [ofShape, pairs, Shape.boundNames, Shape.isNamedAround, hunnamed]
      · simp [ofShape, pairs, Shape.boundNames, Shape.isNamedAround, Arena.member, hunnamed]
    | assignmentExpression operator left right =>
      cases operator with
      | newSlot =>
        dsimp only [ofShape, Arena.newSlot, Arena.slotKey?]
        rw [a.kind?_eq_map]
        cases hl : a.shape? left with
        | none => simp [pairs, Shape.boundNames]
        | some l =>
          cases l with
          | memberExpression object property computed =>
            by_cases hunnamed : a.isOpaqueKey computed property = true
            · simp [pairs, Shape.boundNames, Shape.kind, hunnamed]
            · simp [pairs, Shape.boundNames, Shape.kind, Arena.member, hunnamed]
          | _ => simp [pairs, Shape.boundNames, Shape.kind, Arena.rootSlot]
      | _ => simp [ofShape, pairs, Shape.boundNames, Shape.isNamedAround]
    | _ => simp [ofShape, pairs, Shape.boundNames, Shape.isNamedAround]

end Declared

namespace Arena

variable {a : Arena} {b : Branch} {c d d' k k' m : NodeId}

theorem boundKey?_cases (h : a.boundKey? c = some k) :
    (k = c ∧ ∃ name, a.shape? c = some (.identifier name)) ∨
      ∃ right, a.shape? c = some (.assignmentPattern k right) := by
  obtain ⟨hname, -⟩ := Option.filter_eq_some_iff.mp h
  unfold parameterName? at hname
  split at hname
  · next name hs =>
    cases hname
    exact .inl ⟨rfl, name, hs⟩
  · next right hs =>
    cases hname
    exact .inr ⟨right, hs⟩
  · cases hname

theorem declaredName?_cases (h : a.declaredName? d = some k) :
    ∃ s, a.shape? d = some s ∧ s.isDeclaration = true ∧
      (k ∈ s.children .full ∨ ∃ left l, left ∈ s.children .full ∧ a.shape? left = some l ∧
        (l.kind = .rootExpression ∨ l.kind = .memberExpression) ∧ k ∈ l.children .full) := by
  unfold declaredName? at h
  cases hs : a.shape? d with
  | none =>
    rw [hs] at h
    cases h
  | some s =>
    rw [hs] at h
    refine ⟨s, rfl, ?_⟩
    cases s with
    | variableDeclarator | functionDeclaration | classDeclaration | enumDeclaration | enumMember
    | methodDefinition =>
      cases h
      exact ⟨rfl, .inl (by simp [Shape.children, Shape.kind, Kind.fields, Shape.field])⟩
    | propertyDefinition isStatic computed key value =>
      dsimp only at h
      split at h
      · cases h
      · cases h
        exact ⟨rfl, .inl (by simp [Shape.children, Shape.kind, Kind.fields, Shape.field])⟩
    | assignmentExpression operator left right =>
      cases operator with
      | newSlot =>
        refine ⟨rfl, ?_⟩
        have hleft : left ∈ (Shape.assignmentExpression .newSlot left right).children .full := by
          simp [Shape.children, Shape.kind, Kind.fields, Shape.field]
        dsimp only [slotKey?] at h
        split at h
        · cases h
          exact .inl hleft
        · next hl =>
          cases h
          refine .inr ⟨left, _, hleft, hl, .inl rfl, ?_⟩
          simp [Shape.children, Shape.kind, Kind.fields, Shape.field]
        · next hl =>
          split at h
          · cases h
          · cases h
            refine .inr ⟨left, _, hleft, hl, .inr rfl, ?_⟩
            simp [Shape.children, Shape.kind, Kind.fields, Shape.field]
        · cases h
      | _ => cases h
    | _ => cases h

theorem boundKey?_of_declaredName? (h : a.declaredName? d = some k) : a.boundKey? d = none := by
  cases hkey : a.boundKey? d with
  | none => rfl
  | some k' =>
    rcases boundKey?_cases hkey with ⟨-, name, hs⟩ | ⟨right, hs⟩
    · simp [declaredName?, hs] at h
    · simp [declaredName?, hs] at h

theorem Keyed.key_eq (h : a.Keyed k d) (h' : a.Keyed k' d) : k = k' := by
  cases h with
  | own h =>
    cases h' with
    | own h' => exact Option.some.inj (h.symm.trans h')
    | bound _ hkey' =>
      rw [boundKey?_of_declaredName? h] at hkey'
      cases hkey'
  | bound _ hkey =>
    cases h' with
    | own h' =>
      rw [boundKey?_of_declaredName? h'] at hkey
      cases hkey
    | bound _ hkey' => exact Option.some.inj (hkey.symm.trans hkey')

theorem exists_shape?_of_boundNames (h : c ∈ a.boundNames m) :
    ∃ s, a.shape? m = some s ∧ c ∈ s.boundNames := by
  cases hs : a.shape? m with
  | none => simp [boundNames, hs] at h
  | some s => exact ⟨s, rfl, boundNames_of_shape? hs ▸ h⟩

theorem mem_children_of_boundNames (h : c ∈ a.boundNames m) : c ∈ a.children .full m := by
  obtain ⟨s, hs, hc⟩ := exists_shape?_of_boundNames h
  exact mem_children_of_boundName hs hc

theorem Parsed.nodup_children (ha : a.Parsed) {s : Shape NodeId} (hs : a.shape? m = some s) :
    (s.children .full).Nodup := by
  obtain ⟨low, n, hn⟩ := ha.subtree_of_lt (lt_size_of_shape? hs)
  have hnodup := hn.inner.nodup
  rwa [← hn.children_eq, children_of_shape? hs] at hnodup

theorem Parsed.notMem_boundNames (ha : a.Parsed) (h : a.declaredName? d = some k) :
    k ∉ a.boundNames d := by
  intro hbound
  obtain ⟨s, hs, hmem⟩ := exists_shape?_of_boundNames hbound
  rw [declaredName?, hs] at h
  cases s with
  | functionDeclaration qualifier id params body =>
    cases h
    have hnodup := ha.nodup_children hs
    simp only [Shape.children, Shape.kind, Kind.fields, Shape.field, List.flatMap_cons,
      List.flatMap_nil, List.append_nil] at hnodup
    have hapart := (List.nodup_append.mp (List.nodup_append.mp hnodup).2.1).2.2
    exact hapart k (List.mem_singleton_self k) k (List.mem_append_left _ hmem) rfl
  | functionExpression | lambdaExpression | foreachStatement | tryStatement => cases h
  | _ => cases hmem

def IsSlotSide (a : Arena) (m : NodeId) : Prop :=
  ∃ l, a.shape? m = some l ∧ (l.kind = .rootExpression ∨ l.kind = .memberExpression)

theorem IsSlotSide.boundNames_eq_nil (h : a.IsSlotSide m) : a.boundNames m = [] := by
  obtain ⟨l, hl, hkind⟩ := h
  rw [boundNames_of_shape? hl]
  cases l with
  | rootExpression | memberExpression => rfl
  | _ => rcases hkind with hkind | hkind <;> cases hkind

theorem Keyed.cases (ha : a.Parsed) (h : a.Keyed k d) :
    (k = d ∧ ∃ m, k ∈ a.boundNames m) ∨
      (k ∈ a.children .full d ∧ k ∉ a.boundNames d ∧ ¬ a.IsSlotSide d) ∨
      ∃ left, left ∈ a.children .full d ∧ a.IsSlotSide left ∧ k ∈ a.children .full left := by
  cases h with
  | own h =>
    right
    obtain ⟨s, hs, hdeclaration, hcases⟩ := declaredName?_cases h
    rcases hcases with hchild | ⟨left, l, hleft, hl, hkind, hchild⟩
    · refine .inl ⟨children_of_shape? hs .full ▸ hchild, ha.notMem_boundNames h, ?_⟩
      rintro ⟨l, hl, hkind⟩
      obtain rfl := Option.some.inj (hs.symm.trans hl)
      cases s with
      | rootExpression | memberExpression => cases hdeclaration
      | _ => rcases hkind with hkind | hkind <;> cases hkind
    · exact .inr ⟨left, children_of_shape? hs .full ▸ hleft, ⟨l, hl, hkind⟩,
        children_of_shape? hl .full ▸ hchild⟩
  | @bound m hbound hkey =>
    rcases boundKey?_cases hkey with ⟨rfl, -⟩ | ⟨right, hs⟩
    · exact .inl ⟨rfl, m, hbound⟩
    · refine .inr (.inl ⟨?_, ?_, ?_⟩)
      · rw [children_of_shape? hs]
        simp [Shape.children, Shape.kind, Kind.fields, Shape.field]
      · rw [boundNames_of_shape? hs]
        exact List.not_mem_nil
      · rintro ⟨l, hl, hkind⟩
        obtain rfl := Option.some.inj (hs.symm.trans hl)
        rcases hkind with hkind | hkind <;> cases hkind

theorem Keyed.declaring_eq (ha : a.Parsed) (h : a.Keyed k d) (h' : a.Keyed k d') : d = d' := by
  -- a bound name stands below what binds it, and that holds no other names in this way
  have hbound {m d : NodeId} (hm : k ∈ a.boundNames m) (hchild : k ∈ a.children .full d)
      (hfree : k ∉ a.boundNames d) : False := by
    obtain rfl := ha.parent_unique (mem_children_of_boundNames hm) hchild
    exact hfree hm
  rcases h.cases ha with ⟨rfl, m, hm⟩ | ⟨hchild, hfree, hside⟩ | ⟨left, hleft, hside, hchild⟩ <;>
    rcases h'.cases ha with ⟨he, m', hm'⟩ | ⟨hchild', hfree', hside'⟩ |
      ⟨left', hleft', hside', hchild'⟩
  · exact he
  · exact (hbound hm hchild' hfree').elim
  · exact (hbound hm hchild' (by simp [hside'.boundNames_eq_nil])).elim
  · exact (hbound hm' hchild hfree).elim
  · exact ha.parent_unique hchild' hchild
  · obtain rfl := ha.parent_unique hchild hchild'
    exact absurd hside' hside
  · exact (hbound hm' hchild (by simp [hside.boundNames_eq_nil])).elim
  · obtain rfl := ha.parent_unique hchild hchild'
    exact absurd hside hside'
  · obtain rfl := ha.parent_unique hchild hchild'
    exact ha.parent_unique hleft' hleft

end Arena

end SquirrelAnalyzer
