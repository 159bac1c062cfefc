import SquirrelAnalyzer.Proofs.Told

namespace SquirrelAnalyzer

theorem sortBy_eq_of_pairwise {α : Type} {le : α → α → Bool} {l : List α}
    (h : l.Pairwise fun x y => le x y = true) : sortBy le l = l := by
  induction l with
  | nil => rfl
  | cons x xs ih =>
    obtain ⟨hx, hxs⟩ := List.pairwise_cons.mp h
    change insertBy le x (sortBy le xs) = x :: xs
    rw [ih hxs]
    cases xs with
    | nil => rfl
    | cons y ys => exact if_pos (hx y List.mem_cons_self)

namespace NodeTable

variable {α β γ : Type}

theorem pairwise_toList (t : NodeTable α) :
    t.toList.Pairwise fun x y => x.1.index < y.1.index := by
  have hindices : t.slots.toList.zipIdx.Pairwise fun x y => x.2 < y.2 := by
    rw [← List.pairwise_map (f := Prod.snd), List.zipIdx_map_snd]
    exact List.pairwise_lt_range'
  refine List.pairwise_filterMap.mpr (hindices.imp fun {x y} hlt e he e' he' => ?_)
  obtain ⟨value, -, rfl⟩ := Option.map_eq_some_iff.mp he
  obtain ⟨value', -, rfl⟩ := Option.map_eq_some_iff.mp he'
  exact hlt

theorem mem_toList_iff {t : NodeTable α} {e : NodeId × α} :
    e ∈ t.toList ↔ t.get? e.1 = some e.2 := by
  refine ⟨get?_of_mem_toList, fun h => ?_⟩
  have hslot : t.slots.toList[e.1.index]? = some (some e.2) := by
    rw [Array.getElem?_toList]
    exact Option.join_eq_some_iff.mp h
  exact List.mem_filterMap.mpr ⟨_, List.mk_mem_zipIdx_iff_getElem?.mpr hslot, rfl⟩

theorem get?_ofList_append (entries entries' : List (NodeId × α)) (id : NodeId) :
    (ofList (entries ++ entries')).get? id =
      ((ofList entries').get? id).or ((ofList entries).get? id) := by
  induction entries' using List.reverseRecOn with
  | nil => rw [List.append_nil, show ofList ([] : List (NodeId × α)) = ∅ from rfl, get?_empty]; rfl
  | append_singleton entries' e ih =>
    rw [← List.append_assoc, ofList_concat, ofList_concat, get?_insert, get?_insert, ih]
    by_cases he : id = e.1
    · simp [he]
    · simp [he]

theorem get?_ofList_map (l : List γ) (key : γ → NodeId) (value : γ → α) (f : α → β) (id : NodeId) :
    (ofList (l.map fun x => (key x, f (value x)))).get? id =
      ((ofList (l.map fun x => (key x, value x))).get? id).map f := by
  induction l using List.reverseRecOn with
  | nil => rfl
  | append_singleton l x ih =>
    rw [List.map_append, List.map_append, List.map_singleton, List.map_singleton, ofList_concat,
      ofList_concat, get?_insert, get?_insert, ih]
    by_cases he : id = key x
    · simp [he]
    · simp [he]

end NodeTable

namespace Arena

variable {a : Arena} {k : NodeId}

def bindings (a : Arena) : List Binding :=
  (a.preorder a.rootBranch).flatMap fun b => (Declared.ofBranch a b).bindings

def firstNamed? (a : Arena) (name : String) : Option Category :=
  (a.bindings.find? fun x => a.slotName? x.key = some name).map (·.declaration.category)

theorem firstCategory?_eq (a : Arena) (name : String) :
    SourceUnit.firstCategory? (a.bindings.filterMap fun x =>
      (a.slotName? x.key).map (·, x.declaration.category)) name = a.firstNamed? name := by
  unfold SourceUnit.firstCategory? firstNamed?
  induction a.bindings with
  | nil => rfl
  | cons x xs ih =>
    cases hname : a.slotName? x.key with
    | none => simpa [List.filterMap_cons, List.find?_cons, hname] using ih
    | some text =>
      by_cases he : text = name
      · simp [hname, he]
      · simpa [List.filterMap_cons, List.find?_cons, hname, he] using ih

end Arena

namespace SourceUnit

variable {u : SourceUnit} {config : Config} {a : Arena} {k : NodeId}

theorem flatMap_bindings (a : Arena) : ((a.preorder a.rootBranch).map fun b =>
    (b, Declared.ofBranch a b)).flatMap (·.2.bindings) = a.bindings := List.flatMap_map ..

theorem declarations_ofArena (config : Config) (a : Arena) :
    (ofArena config a).facts.declarations =
      NodeTable.ofList (a.bindings.map fun x => (x.key, x.declaration)) := by
  rw [← flatMap_bindings]
  rfl

def references (config : Config) (a : Arena) : List (NodeId × Category) :=
  (a.preorder a.rootBranch).filterMap fun b =>
    if (ofArena config a).facts.declarations.contains b.target then none
    else (a.identifierName? b.target).bind fun name => (a.firstNamed? name).map (b.target, ·)

theorem mem_references {c : Category} : (k, c) ∈ references config a ↔
    (∃ b ∈ a.preorder a.rootBranch, b.target = k) ∧
      (ofArena config a).facts.declarations.get? k = none ∧
      (a.identifierName? k).bind a.firstNamed? = some c := by
  rw [references, List.mem_filterMap]
  constructor
  · rintro ⟨b, hb, hx⟩
    split at hx
    · cases hx
    · next hnone =>
      obtain ⟨name, hname, hx⟩ := Option.bind_eq_some_iff.mp hx
      obtain ⟨c', hc', he⟩ := Option.map_eq_some_iff.mp hx
      cases he
      refine ⟨⟨b, hb, rfl⟩, ?_, by rw [hname, Option.bind_some, hc']⟩
      simpa [NodeTable.contains] using hnone
  · rintro ⟨⟨b, hb, rfl⟩, hnone, hc⟩
    obtain ⟨name, hname, hc⟩ := Option.bind_eq_some_iff.mp hc
    exact ⟨b, hb, by simp [NodeTable.contains, hnone, hname, hc]⟩

theorem categories_ofArena (config : Config) (a : Arena) :
    (ofArena config a).facts.categories = NodeTable.ofList
      (a.bindings.map (fun x => (x.key, x.declaration.category)) ++ references config a) := by
  have hnames := funext a.firstCategory?_eq
  have hcategories : (ofArena config a).facts.categories = categories a a.bindings
      (ofArena config a).facts.declarations (a.preorder a.rootBranch) := by
    rw [← flatMap_bindings]
    rfl
  rw [hcategories, categories, hnames]
  rfl

theorem category?_eq (config : Config) (a : Arena) (k : NodeId) :
    (ofArena config a).category? k = ((NodeTable.ofList (references config a)).get? k).or
      (((ofArena config a).facts.declarations.get? k).map (·.category)) := by
  rw [category?, categories_ofArena, declarations_ofArena, NodeTable.get?_ofList_append,
    NodeTable.get?_ofList_map a.bindings (·.key) (·.declaration) (·.category)]

theorem category?_declared {d : Declaration}
    (hd : (ofArena config a).facts.declarations.get? k = some d) :
    (ofArena config a).category? k = some d.category := by
  rw [category?_eq, hd, Option.map_some]
  cases h : (NodeTable.ofList (references config a)).get? k with
  | none => rfl
  | some c =>
    obtain ⟨-, hnone, -⟩ := mem_references.mp (NodeTable.mem_of_get?_ofList h)
    rw [hd] at hnone
    cases hnone

theorem category?_undeclared (ha : a.Parsed) (hk : k.index < a.size)
    (hd : (ofArena config a).facts.declarations.get? k = none) :
    (ofArena config a).category? k = (a.identifierName? k).bind a.firstNamed? := by
  rw [category?_eq, hd, Option.map_none, Option.or_none]
  cases h : (NodeTable.ofList (references config a)).get? k with
  | some c =>
    obtain ⟨-, -, hc⟩ := mem_references.mp (NodeTable.mem_of_get?_ofList h)
    exact hc.symm
  | none =>
    rw [eq_comm, Option.eq_none_iff_forall_ne_some]
    intro c hc
    obtain ⟨c', hc'⟩ := NodeTable.exists_get?_ofList (mem_references.mpr
      ⟨ha.exists_mem_preorder hk, hd, hc⟩)
    rw [h] at hc'
    cases hc'

end SourceUnit

end SquirrelAnalyzer
