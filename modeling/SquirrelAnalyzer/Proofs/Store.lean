import SquirrelAnalyzer.Proofs.Forest
import SquirrelAnalyzer.Proofs.Shape

namespace SquirrelAnalyzer

inductive Tree.Nested : Tree → Prop
  | node {span : Span} {shape : Shape Tree}
      (hspan : ∀ t ∈ shape.children .full, span.start ≤ t.span.start ∧ t.span.stop ≤ span.stop)
      (inner : ∀ t ∈ shape.children .full, t.Nested) : (Tree.node span shape).Nested

def Location.span (l : Location) : Span := ⟨l.startOffset, l.endOffset⟩

@[simp] theorem LineMap.span_location (lines : LineMap) (s : Span) : (lines.location s).span = s :=
  rfl

namespace Arena

def store (lines : LineMap) (t : Tree) : StateM (Array Node) NodeId :=
  t.fold fun span shape => do
    let ids ← shape.traverse id
    modifyGet fun nodes => pushNode nodes (lines.location span) ids

def ofTree (lines : LineMap) (comments : List Doc.Comment) (t : Tree) : Arena :=
  let (root, nodes) := (store lines t).run #[]
  ⟨⟨0⟩, nodes, root, comments, lines, nodes.size⟩

def treeUpTo (a : Arena) : Nat → NodeId → Tree
  | 0, _ => default
  | n + 1, id =>
    match a.get? id with
    | some node => .node node.location.span (node.shape.map (treeUpTo a n))
    | none => default

def tree (a : Arena) (id : NodeId) : Tree := a.treeUpTo (id.index + 1) id

theorem treeUpTo_succ {a : Arena} {id : NodeId} {node : Node} (h : a.get? id = some node) (n : Nat) :
    a.treeUpTo (n + 1) id = .node node.location.span (node.shape.map (a.treeUpTo n)) := by
  simp only [treeUpTo, h]

theorem Forest.treeUpTo_eq {a : Arena} {lo hi : Nat} {ids : List NodeId} (h : a.Forest lo ids hi)
    {id : NodeId} (hid : id ∈ ids) {n : Nat} (hn : id.index < n) : a.treeUpTo n id = a.tree id := by
  induction h generalizing id n with
  | nil lo => cases hid
  | @cons lo hi root node ids hnode hspan inner rest ihinner ihrest =>
    rcases List.mem_cons.mp hid with rfl | hid
    · obtain ⟨n, rfl⟩ := Nat.exists_eq_succ_of_ne_zero (Nat.ne_of_gt (Nat.zero_lt_of_lt hn))
      rw [tree, treeUpTo_succ hnode, treeUpTo_succ hnode]
      congr 1
      apply Shape.map_congr
      intro c hc
      have hlt := (inner.bounds hc).2
      rw [ihinner hc hlt, ihinner hc (Nat.lt_of_lt_of_le hlt (Nat.le_of_lt_succ hn))]
    · exact ihrest hid hn

theorem Subtree.tree_eq {a : Arena} {lo : Nat} {id : NodeId} {node : Node}
    (h : a.Subtree lo id node) : a.tree id = .node node.location.span (node.shape.map a.tree) := by
  rw [tree, treeUpTo_succ h.node]
  congr 1
  apply Shape.map_congr
  intro c hc
  exact h.inner.treeUpTo_eq hc (h.inner.bounds hc).2

theorem Subtree.children_tree {a : Arena} {lo : Nat} {id : NodeId} {node : Node}
    (h : a.Subtree lo id node) :
    (a.tree id).shape.children .full = (node.children .full).map a.tree := by
  rw [h.tree_eq]
  exact Shape.children_map _ _ _

def Begins (a : Arena) (nodes : Array Node) : Prop := ∀ i < nodes.size, a.nodes[i]? = nodes[i]?

structure Laid (lines : LineMap) (nodes : Array Node) (ts : List Tree) (ids : List NodeId)
    (nodes' : Array Node) : Prop where
  size : nodes.size ≤ nodes'.size
  kept : ∀ i < nodes.size, nodes'[i]? = nodes[i]?
  forest : ∀ a : Arena, a.Begins nodes' → a.Forest nodes.size ids nodes'.size
  trees : ∀ a : Arena, a.Begins nodes' → ids.map a.tree = ts
  numbered : ∀ i, nodes.size ≤ i → i < nodes'.size → ∃ n, nodes'[i]? = some n ∧ n.id = ⟨i⟩ ∧
    n.location = lines.location n.location.span

namespace Laid

variable {lines : LineMap} {nodes nodes' nodes'' : Array Node} {ts ts' : List Tree}
  {ids ids' : List NodeId}

theorem nil (lines : LineMap) (nodes : Array Node) : Laid lines nodes [] [] nodes where
  size := Nat.le_refl _
  kept _ _ := rfl
  forest _ _ := .nil _
  trees _ _ := rfl
  numbered _ hle hlt := absurd hle (Nat.not_le_of_lt hlt)

theorem length_eq (h : Laid lines nodes ts ids nodes') : ids.length = ts.length := by
  have htrees := h.trees ⟨⟨0⟩, nodes', ⟨0⟩, [], lines, 0⟩ fun _ _ => rfl
  rw [← htrees, List.length_map]

theorem begins (h : Laid lines nodes' ts ids nodes'') {a : Arena} (ha : a.Begins nodes'') :
    a.Begins nodes' := fun i hi => by
  rw [ha i (Nat.lt_of_lt_of_le hi h.size), h.kept i hi]

theorem append (h : Laid lines nodes ts ids nodes') (h' : Laid lines nodes' ts' ids' nodes'') :
    Laid lines nodes (ts ++ ts') (ids ++ ids') nodes'' where
  size := Nat.le_trans h.size h'.size
  kept i hi := (h'.kept i (Nat.lt_of_lt_of_le hi h.size)).trans (h.kept i hi)
  forest a ha := (h.forest a (h'.begins ha)).append (h'.forest a ha)
  trees a ha := by rw [List.map_append, h.trees a (h'.begins ha), h'.trees a ha]
  numbered i hle hlt := by
    by_cases hi : i < nodes'.size
    · obtain ⟨n, hn, hid, hlocation⟩ := h.numbered i hle hi
      exact ⟨n, (h'.kept i hi).trans hn, hid, hlocation⟩
    · exact h'.numbered i (Nat.le_of_not_lt hi) hlt

theorem node {span : Span} {shape : Shape Tree} {shape' : Shape NodeId}
    (h : Laid lines nodes (shape.children .full) (shape'.children .full) nodes')
    (hshape : ∀ a : Arena, a.Begins nodes' → shape'.map a.tree = shape)
    (hspan : ∀ t ∈ shape.children .full, span.start ≤ t.span.start ∧ t.span.stop ≤ span.stop) :
    Laid lines nodes [.node span shape] [(pushNode nodes' (lines.location span) shape').1]
      (pushNode nodes' (lines.location span) shape').2 := by
  have hsize := h.size
  have hsubtree (a : Arena) (ha : a.Begins (pushNode nodes' (lines.location span) shape').2) :
      a.Begins nodes' ∧ a.Subtree nodes.size ⟨nodes'.size⟩
        ⟨⟨nodes'.size⟩, lines.location span, shape'⟩ := by
    simp only [Begins, pushNode, Array.size_push] at ha
    have hold : a.Begins nodes' := fun i hi => by
      rw [ha i (by omega), Array.getElem?_push_lt hi, Array.getElem?_eq_getElem]
    refine ⟨hold, ⟨by simp [Arena.get?, ha nodes'.size (Nat.lt_succ_self _)], ?_, h.forest a hold⟩⟩
    intro c hc l hl
    have htree : a.tree c ∈ shape.children .full := by
      rw [← h.trees a hold]
      exact List.mem_map_of_mem hc
    obtain ⟨n, low, hn, -⟩ := (h.forest a hold).subtree hc
    obtain rfl : n.location = l := by simpa [hn.location?_eq] using hl
    have hc := hspan _ htree
    rw [hn.tree_eq] at hc
    exact Location.contains_iff.mpr hc
  refine ⟨?_, fun i hi => ?_, fun a ha => ?_, fun a ha => ?_, fun i hle hlt => ?_⟩
  · simp only [pushNode, Array.size_push]
    omega
  · simp only [pushNode]
    rw [Array.getElem?_push_lt (by omega), ← h.kept i hi, Array.getElem?_eq_getElem]
  · obtain ⟨-, hs⟩ := hsubtree a ha
    simp only [pushNode, Array.size_push]
    exact .cons hs.node hs.span hs.inner (.nil _)
  · obtain ⟨hold, hs⟩ := hsubtree a ha
    rw [List.map_singleton, pushNode, hs.tree_eq, hshape a hold]
    rfl
  · simp only [pushNode, Array.size_push] at hlt ⊢
    by_cases hi : i < nodes'.size
    · obtain ⟨n, hn, hrest⟩ := h.numbered i hle hi
      rw [Array.getElem?_push_lt hi, ← Array.getElem?_eq_getElem]
      exact ⟨n, hn, hrest⟩
    · obtain rfl : i = nodes'.size := by omega
      exact ⟨_, Array.getElem?_push_size, rfl, rfl⟩

end Laid

def Lays {β : Type} (lines : LineMap) (m : StateM (Array Node) β) (ts : List Tree)
    (R : (NodeId → Tree) → β → List NodeId → Prop) : Prop :=
  ∀ nodes, ∃ ids, Laid lines nodes ts ids (m.run nodes).2 ∧
    ∀ g, ids.map g = ts → R g (m.run nodes).1 ids

namespace Lays

variable {lines : LineMap} {α β : Type} {ts ts' : List Tree} {f : Tree → StateM (Array Node) NodeId}

abbrev One (lines : LineMap) (f : Tree → StateM (Array Node) NodeId) (t : Tree) : Prop :=
  Lays lines (f t) [t] fun _ id ids => ids = [id]

theorem pure {b : β} {R : (NodeId → Tree) → β → List NodeId → Prop} (h : ∀ g, R g b []) :
    Lays lines (Pure.pure b) [] R := fun nodes => ⟨[], .nil lines nodes, fun g _ => h g⟩

theorem bind {m : StateM (Array Node) α} {k : α → StateM (Array Node) β}
    {Q : (NodeId → Tree) → α → List NodeId → Prop} {R : (NodeId → Tree) → β → List NodeId → Prop}
    (hm : Lays lines m ts Q)
    (hk : ∀ x ids, Lays lines (k x) ts' fun g y ids' =>
      Q g x ids → ids.map g = ts → R g y (ids ++ ids')) :
    Lays lines (m >>= k) (ts ++ ts') R := by
  intro nodes
  obtain ⟨ids, hl, hq⟩ := hm nodes
  obtain ⟨ids', hl', hr⟩ := hk _ ids (m.run nodes).2
  refine ⟨ids ++ ids', hl.append hl', fun g hg => ?_⟩
  rw [List.map_append] at hg
  obtain ⟨hids, hids'⟩ := List.append_inj hg (by rw [List.length_map, hl.length_eq])
  exact hr g hids' (hq g hids) hids

theorem bind_one {t : Tree} {k : NodeId → StateM (Array Node) β}
    {R : (NodeId → Tree) → β → List NodeId → Prop} (h : ∀ x ∈ [t] ++ ts, One lines f x)
    (hk : (∀ x ∈ ts, One lines f x) → ∀ id, Lays lines (k id) ts fun g y ids =>
      g id = t → R g y (id :: ids)) :
    Lays lines (f t >>= k) ([t] ++ ts) R := by
  apply bind (h t (List.mem_append_left _ (List.mem_singleton_self t)))
  intro id ids nodes
  obtain ⟨ids', hl, hr⟩ := hk (fun x hx => h x (List.mem_append_right _ hx)) id nodes
  refine ⟨ids', hl, fun g hg => ?_⟩
  rintro rfl ht
  exact hr g hg (List.singleton_inj.mp ht)

theorem list {l : List Tree} (h : ∀ x ∈ l, One lines f x) :
    Lays lines (l.mapM f) l fun _ ids l' => l' = ids := by
  induction l with
  | nil => exact pure fun _ => rfl
  | cons t l ih =>
    rw [List.mapM_cons]
    show Lays lines _ ([t] ++ l) _
    apply bind_one h
    intro hl id
    have hrest : Lays lines (l.mapM f >>= fun ids => Pure.pure (id :: ids)) (l ++ [])
        fun g ids l' => g id = t → id :: l' = ids := by
      apply bind (ih hl)
      intro ids l'
      exact pure fun g hids _ _ => by rw [hids, List.append_nil]
    simpa using hrest

theorem bind_list {l : List Tree} {k : List NodeId → StateM (Array Node) β}
    {R : (NodeId → Tree) → β → List NodeId → Prop} (h : ∀ x ∈ l ++ ts, One lines f x)
    (hk : (∀ x ∈ ts, One lines f x) → ∀ ids,
      Lays lines (k ids) ts fun g y l' => ids.map g = l → R g y (ids ++ l')) :
    Lays lines (l.mapM f >>= k) (l ++ ts) R := by
  apply bind (list fun x hx => h x (List.mem_append_left _ hx))
  intro ids ids' nodes
  obtain ⟨l', hl, hr⟩ := hk (fun x hx => h x (List.mem_append_right _ hx)) ids nodes
  refine ⟨l', hl, fun g hg => ?_⟩
  rintro rfl hids
  exact hr g hg hids

theorem bind_option {o : Option Tree} {k : Option NodeId → StateM (Array Node) β}
    {R : (NodeId → Tree) → β → List NodeId → Prop} (h : ∀ x ∈ o.toList ++ ts, One lines f x)
    (hk : (∀ x ∈ ts, One lines f x) → ∀ ids : Option NodeId,
      Lays lines (k ids) ts fun g y l => ids.map g = o → R g y (ids.toList ++ l)) :
    Lays lines (o.mapM f >>= k) (o.toList ++ ts) R := by
  cases o with
  | none =>
    intro nodes
    obtain ⟨l, hl, hr⟩ := hk h none nodes
    exact ⟨l, hl, fun g hg => hr g hg rfl⟩
  | some t =>
    have hsome : (some t).mapM f >>= k = f t >>= fun id => k (some id) := by
      rw [Option.mapM_some]
      simp
    rw [hsome]
    apply bind_one h
    intro hl id nodes
    obtain ⟨l, hl, hr⟩ := hk hl (some id) nodes
    exact ⟨l, hl, fun g hg hid => hr g hg (congrArg some hid)⟩

theorem traverse {s : Shape Tree} (h : ∀ t ∈ s.children .full, One lines f t) :
    Lays lines (s.traverse f) (s.children .full) fun g s' ids =>
      s'.children .full = ids ∧ s'.map g = s := by
  cases s
  all_goals
    unfold Shape.traverse
    repeat first
      | refine bind_one h fun h id => ?_
      | refine bind_option h fun h ids => ?_
      | refine bind_list h fun h ids => ?_
    apply pure
    intro g
    repeat rintro rfl
    exact ⟨rfl, rfl⟩

end Lays

theorem store_node (lines : LineMap) (span : Span) (shape : Shape Tree) :
    store lines (.node span shape) = shape.traverse (store lines) >>= fun ids =>
      modifyGet fun nodes => pushNode nodes (lines.location span) ids := by
  unfold store
  rw [Tree.fold_node, Shape.traverse_map]
  rfl

def Grows {α : Type} (s : StateM (Array Node) α) : Prop :=
  ∀ nodes, nodes.size ≤ (s.run nodes).2.size ∧
    ∀ i < nodes.size, (s.run nodes).2[i]! = nodes[i]!

namespace Grows

variable {α β : Type} {s : StateM (Array Node) α} {k : α → StateM (Array Node) β}
  {f : Tree → StateM (Array Node) NodeId}

theorem pure (a : α) : Grows (Pure.pure a) := fun _ => ⟨Nat.le_refl _, fun _ _ => rfl⟩

theorem bind (h : Grows s) (hk : ∀ a, Grows (k a)) : Grows (s >>= k) := by
  intro nodes
  obtain ⟨hsize, hkept⟩ := h nodes
  obtain ⟨hsize', hkept'⟩ := hk (s.run nodes).1 (s.run nodes).2
  exact ⟨Nat.le_trans hsize hsize', fun i hi =>
    (hkept' i (Nat.lt_of_lt_of_le hi hsize)).trans (hkept i hi)⟩

theorem list {l : List Tree} (h : ∀ t ∈ l, Grows (f t)) : Grows (l.mapM f) := by
  induction l with
  | nil => exact pure _
  | cons t l ih =>
    rw [List.mapM_cons]
    refine (h t List.mem_cons_self).bind fun _ => ?_
    exact (ih fun t ht => h t (List.mem_cons_of_mem _ ht)).bind fun _ => pure _

theorem option {o : Option Tree} (h : ∀ t ∈ o.toList, Grows (f t)) : Grows (o.mapM f) := by
  cases o with
  | none => exact pure _
  | some t => exact (h t List.mem_cons_self).bind fun _ => pure _

theorem traverse {s : Shape Tree} (h : ∀ t ∈ s.children .full, Grows (f t)) :
    Grows (s.traverse f) := by
  cases s
  all_goals
    simp only [Shape.children, Shape.kind, Kind.fields, Shape.field, List.flatMap_cons,
      List.flatMap_nil, List.append_nil, List.forall_mem_append, List.forall_mem_singleton] at h
    unfold Shape.traverse
    repeat' first
      | exact pure _
      | refine bind ?_ fun _ => ?_
      | apply list
      | apply option
    all_goals grind

end Grows

theorem store_grows (lines : LineMap) (t : Tree) : Grows (store lines t) := by
  induction t using Tree.of_children with
  | h span shape ih =>
    rw [store_node]
    refine (Grows.traverse ih).bind fun shape' nodes => ⟨?_, fun i hi => ?_⟩
    · show nodes.size ≤ (nodes.push _).size
      rw [Array.size_push]
      omega
    · show (nodes.push _)[i]! = nodes[i]!
      rw [getElem!_pos _ i (by rw [Array.size_push]; omega), Array.getElem_push_lt hi,
        getElem!_pos _ i hi]

def StartsAt (nodes : Array Node) (t : Tree) (id : NodeId) : Prop :=
  id.index < nodes.size ∧ nodes[id.index]!.location.startOffset = t.start

theorem startsAt_store {lines : LineMap} {t : Tree} {nodes nodes' : Array Node} {id : NodeId}
    (h : (store lines t).run nodes = (id, nodes')) : StartsAt nodes' t id := by
  obtain ⟨span, shape⟩ := t
  rw [store_node, StateT.run_bind] at h
  cases h
  exact ⟨by simp, by simp; rfl⟩

theorem StartsAt.grows {α : Type} {s : StateM (Array Node) α} {a : α} {t : Tree}
    {nodes nodes' : Array Node} {id : NodeId} (h : StartsAt nodes t id) (hs : Grows s)
    (hr : s.run nodes = (a, nodes')) : StartsAt nodes' t id := by
  obtain ⟨hsize, hkept⟩ := hs nodes
  rw [hr] at hsize hkept
  exact ⟨Nat.lt_of_lt_of_le h.1 hsize, by rw [hkept _ h.1, h.2]⟩

theorem store_lays (lines : LineMap) {t : Tree} (h : t.Nested) : Lays.One lines (store lines) t := by
  induction h with
  | @node span shape hspan inner ih =>
    intro nodes
    obtain ⟨ids, hl, hr⟩ := Lays.traverse ih nodes
    rw [store_node]
    have hshape := fun a ha => (hr a.tree (hl.trees a ha)).2
    obtain rfl := (hr _ (hl.trees ⟨⟨0⟩, _, ⟨0⟩, [], lines, 0⟩ fun _ _ => rfl)).1
    exact ⟨_, hl.node hshape hspan, fun _ _ => rfl⟩

theorem rooted_ofTree (lines : LineMap) (comments : List Doc.Comment) {t : Tree} (h : t.Nested) :
    (ofTree lines comments t).Rooted := by
  obtain ⟨ids, hl, hids⟩ := store_lays lines h #[]
  have hbegins : (ofTree lines comments t).Begins ((store lines t).run #[]).2 := fun _ _ => rfl
  obtain rfl := hids _ (hl.trees _ hbegins)
  exact ⟨hl.forest _ hbegins, Nat.le_refl _⟩

theorem tree_ofTree (lines : LineMap) (comments : List Doc.Comment) {t : Tree} (h : t.Nested) :
    (ofTree lines comments t).tree (ofTree lines comments t).root = t := by
  obtain ⟨ids, hl, hids⟩ := store_lays lines h #[]
  have hbegins : (ofTree lines comments t).Begins ((store lines t).run #[]).2 := fun _ _ => rfl
  have htrees := hl.trees _ hbegins
  obtain rfl := hids _ htrees
  exact List.singleton_inj.mp htrees

theorem numbered_ofTree (lines : LineMap) (comments : List Doc.Comment) {t : Tree} (h : t.Nested)
    {i : Nat} (hi : i < (ofTree lines comments t).size) :
    ∃ n, (ofTree lines comments t).nodes[i]? = some n ∧ n.id = ⟨i⟩ ∧
      n.location = lines.location n.location.span := by
  obtain ⟨ids, hl, -⟩ := store_lays lines h #[]
  exact hl.numbered i (Nat.zero_le i) hi

end Arena

end SquirrelAnalyzer
