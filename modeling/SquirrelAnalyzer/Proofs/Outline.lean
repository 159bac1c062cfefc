import Mathlib.Data.List.Nodup
import Mathlib.Data.List.Perm.Basic
import SquirrelAnalyzer.Proofs.Facts

namespace SquirrelAnalyzer

mutual

def SymbolTree.edgesUnder (parent : Option Symbol) : SymbolTree → List (Option Symbol × Symbol)
  | .node s children => (parent, s) :: Outline.edgesUnder (some s) children

def Outline.edgesUnder (parent : Option Symbol) : Outline → List (Option Symbol × Symbol)
  | [] => []
  | t :: rest => t.edgesUnder parent ++ Outline.edgesUnder parent rest

end

mutual

def SymbolTree.trees : SymbolTree → List SymbolTree
  | .node s children => .node s children :: Outline.trees children

def Outline.trees : Outline → List SymbolTree
  | [] => []
  | t :: rest => t.trees ++ Outline.trees rest

end

namespace Outline

def edges (o : Outline) : List (Option Symbol × Symbol) := edgesUnder none o

def nodes (o : Outline) : List NodeId := (preorder o).map (·.node)

variable {o o' rest : Outline} {t : SymbolTree} {s w : Symbol} {node owner : NodeId}
  {p : Option Symbol}

theorem edgesUnder_node (p : Option Symbol) (s : Symbol) (children rest : Outline) :
    edgesUnder p (.node s children :: rest) =
      (p, s) :: (edgesUnder (some s) children ++ edgesUnder p rest) := rfl

theorem trees_node (s : Symbol) (children rest : Outline) :
    trees (.node s children :: rest) = .node s children :: (trees children ++ trees rest) := rfl

theorem mem_trees_cons (t : SymbolTree) (o : Outline) : t ∈ trees (t :: o) := by
  cases t
  exact List.mem_cons_self

theorem preorder_append (o o' : Outline) : preorder (o ++ o') = preorder o ++ preorder o' := by
  induction o with
  | nil => simp only [preorder, List.nil_append]
  | cons t o ih =>
    cases t
    simp only [List.cons_append, preorder, ih, List.append_assoc]

theorem edgesUnder_append (p : Option Symbol) (o o' : Outline) :
    edgesUnder p (o ++ o') = edgesUnder p o ++ edgesUnder p o' := by
  induction o with
  | nil => rfl
  | cons t o ih => rw [List.cons_append, edgesUnder, edgesUnder, ih, List.append_assoc]

theorem snd_edgesUnder (p : Option Symbol) (o : Outline) :
    (edgesUnder p o).map Prod.snd = preorder o := by
  fun_induction preorder o generalizing p with
  | case1 => rfl
  | case2 s children rest ihc ihr =>
    rw [edgesUnder_node, List.map_cons, List.map_append, ihc, ihr]

theorem symbol_trees (o : Outline) : (trees o).map (·.symbol) = preorder o := by
  fun_induction preorder o with
  | case1 => rfl
  | case2 s children rest ihc ihr =>
    rw [trees_node, List.map_cons, List.map_append, ihc, ihr]
    rfl

section

variable {moved : List (Option Symbol × Symbol)} {children children' : Outline}

-- The pieces only change places, so both sides are compared by how often an edge occurs.
theorem perm_children (rest : Outline)
    (h : (edgesUnder (some s) children').Perm (moved ++ edgesUnder (some s) children)) :
    (edgesUnder p (.node s children' :: rest)).Perm
      (moved ++ edgesUnder p (.node s children :: rest)) := by
  apply List.perm_iff_count.mpr
  intro x
  have hx := h.count_eq x
  simp only [edgesUnder_node, List.count_append, List.count_cons] at hx ⊢
  omega

theorem perm_rest (t : SymbolTree) (h : (edgesUnder p o').Perm (moved ++ edgesUnder p o)) :
    (edgesUnder p (t :: o')).Perm (moved ++ edgesUnder p (t :: o)) := by
  apply List.perm_iff_count.mpr
  intro x
  have hx := h.count_eq x
  simp only [edgesUnder, List.count_append] at hx ⊢
  omega

end

theorem exists_of_addUnder? (h : addUnder? owner t o = some o') :
    ∃ w, w.describes owner = true ∧
      ∀ p, (edgesUnder p o').Perm (edgesUnder (some w) [t] ++ edgesUnder p o) := by
  fun_induction addUnder? owner t o generalizing o' with
  | case1 => cases h
  | case2 s children rest hs =>
    cases h
    refine ⟨s, hs, fun p => List.perm_iff_count.mpr fun x => ?_⟩
    simp only [edgesUnder_node, edgesUnder_append, List.count_append, List.count_cons]
    omega
  | case3 s children rest hs children' hrec ih =>
    cases h
    obtain ⟨w, hw, hp⟩ := ih hrec
    exact ⟨w, hw, fun p => perm_children rest (hp (some s))⟩
  | case4 s children rest hs hrec ihc ih =>
    obtain ⟨rest', hrest, rfl⟩ := Option.map_eq_some_iff.mp h
    obtain ⟨w, hw, hp⟩ := ih hrest
    exact ⟨w, hw, fun p => perm_rest _ (hp p)⟩

theorem preorder_addUnder? (h : addUnder? owner t o = some o') :
    (preorder o').Perm (preorder [t] ++ preorder o) := by
  obtain ⟨w, -, hp⟩ := exists_of_addUnder? h
  have hp := (hp none).map Prod.snd
  rw [List.map_append, snd_edgesUnder, snd_edgesUnder, snd_edgesUnder] at hp
  exact hp

theorem isSome_addUnder? (owner : NodeId) (t : SymbolTree) (o : Outline) :
    (addUnder? owner t o).isSome = o.describes owner := by
  unfold describes
  fun_induction addUnder? owner t o with
  | case1 => simp only [preorder, List.any_nil, Option.isSome_none]
  | case2 s children rest hs =>
    simp only [preorder, List.any_cons, hs, Bool.true_or, Option.isSome_some]
  | case3 s children rest hs children' hrec ih =>
    rw [hrec] at ih
    simp only [preorder, List.any_cons, List.any_append, ← ih, Option.isSome_some, Bool.true_or,
      Bool.or_true]
  | case4 s children rest hs hrec ihc ih =>
    rw [hrec] at ihc
    simp only [preorder, List.any_cons, List.any_append, ← ihc, ← ih, Option.isSome_none,
      Option.isSome_map, hs, Bool.false_or]

theorem of_takeRoot? (h : takeRoot? node o = some (t, rest)) :
    t.symbol.node = node ∧ t ∈ trees o ∧
      ∀ p, (edgesUnder p o).Perm (edgesUnder p [t] ++ edgesUnder p rest) := by
  fun_induction takeRoot? node o generalizing rest with
  | case1 => cases h
  | case2 t' rest' hn =>
    cases h
    refine ⟨hn, mem_trees_cons t _, fun p => ?_⟩
    rw [← edgesUnder_append]
    rfl
  | case3 t' rest' hn ih =>
    obtain ⟨⟨t₁, rest₁⟩, hr, he⟩ := Option.map_eq_some_iff.mp h
    cases he
    obtain ⟨hnode, hmem, hp⟩ := ih hr
    exact ⟨hnode, List.mem_append_right _ hmem, fun p => perm_rest t' (hp p)⟩

theorem of_takeBelow? (h : takeBelow? node o = some (t, rest)) :
    t.symbol.node = node ∧ t ∈ trees o ∧
      ∃ q, ∀ p, (edgesUnder p o).Perm (edgesUnder q [t] ++ edgesUnder p rest) := by
  fun_induction takeBelow? node o generalizing rest with
  | case1 => cases h
  | case2 s children rest' t' children' hc ih =>
    cases h
    have hbelow : t.symbol.node = node ∧ t ∈ trees children ∧
        ∃ q, (edgesUnder (some s) children).Perm
          (edgesUnder q [t] ++ edgesUnder (some s) children') := by
      rcases Option.or_eq_some_iff.mp hc with hroot | ⟨-, hbelow⟩
      · obtain ⟨hnode, hmem, hp⟩ := of_takeRoot? hroot
        exact ⟨hnode, hmem, some s, hp (some s)⟩
      · obtain ⟨hnode, hmem, q, hp⟩ := ih hbelow
        exact ⟨hnode, hmem, q, hp (some s)⟩
    obtain ⟨hnode, hmem, q, hp⟩ := hbelow
    refine ⟨hnode, ?_, q, fun p => perm_children rest' hp⟩
    exact List.mem_append_left _ (List.mem_cons_of_mem _ hmem)
  | case3 s children rest' hc ihc ih =>
    obtain ⟨⟨t₁, rest₁⟩, hr, he⟩ := Option.map_eq_some_iff.mp h
    cases he
    obtain ⟨hnode, hmem, q, hp⟩ := ih hr
    exact ⟨hnode, List.mem_append_right _ hmem, q, fun p => perm_rest _ (hp p)⟩

theorem of_take? (h : take? node o = some (t, rest)) :
    t.symbol.node = node ∧ t ∈ trees o ∧
      ∃ q, (edges o).Perm (edgesUnder q [t] ++ edges rest) := by
  rcases Option.or_eq_some_iff.mp h with hroot | ⟨-, hbelow⟩
  · obtain ⟨hnode, hmem, hp⟩ := of_takeRoot? hroot
    exact ⟨hnode, hmem, none, hp none⟩
  · obtain ⟨hnode, hmem, q, hp⟩ := of_takeBelow? hbelow
    exact ⟨hnode, hmem, q, hp none⟩

theorem isSome_take? (node : NodeId) (o : Outline) :
    (take? node o).isSome = (preorder o).any (·.node = node) := by
  unfold take?
  fun_induction preorder o with
  | case1 => simp only [takeRoot?, takeBelow?, Option.or_none, Option.isSome_none, List.any_nil]
  | case2 s children rest ihc ihr =>
    rw [List.any_cons, List.any_append, ← ihc, ← ihr, takeRoot?, takeBelow?]
    by_cases hs : s.node = node
    · simp only [SymbolTree.symbol, hs, if_true, Option.isSome_or, Option.isSome_some,
        decide_true, Bool.true_or]
    · cases hc : (takeRoot? node children).or (takeBelow? node children) <;>
        simp [SymbolTree.symbol, hs]

theorem edgesUnder_singleton (p : Option Symbol) (t : SymbolTree) :
    edgesUnder p [t] = (p, t.symbol) :: edgesUnder (some t.symbol) t.children := by
  cases t
  rw [edgesUnder_node, edgesUnder, List.append_nil]
  rfl

theorem reparent_eq_or (declaration owner : NodeId) (o : Outline) :
    o.reparent declaration owner = o ∨ ∃ s p q rest, s.node = declaration ∧
      (edges o).Perm ((p, s) :: rest) ∧
      (edges (o.reparent declaration owner)).Perm ((q, s) :: rest) := by
  unfold reparent
  split
  · split
    · exact .inl rfl
    · next t rest ht =>
      obtain ⟨hnode, -, p, hp⟩ := of_take? ht
      rw [edgesUnder_singleton] at hp
      cases hadd : addUnder? owner t rest with
      | some o' =>
        obtain ⟨w, -, hw⟩ := exists_of_addUnder? hadd
        have hw := hw none
        rw [edgesUnder_singleton] at hw
        exact .inr ⟨t.symbol, p, some w, _, hnode, hp, hw⟩
      | none =>
        have hlast : (edges (rest ++ [t])).Perm
            ((none, t.symbol) :: edgesUnder (some t.symbol) t.children ++ edges rest) := by
          rw [edges, edgesUnder_append, edgesUnder_singleton]
          exact List.perm_append_comm
        exact .inr ⟨t.symbol, p, none, _, hnode, hp, hlast⟩
  · exact .inl rfl

theorem preorder_reparent (declaration owner : NodeId) (o : Outline) :
    (preorder (o.reparent declaration owner)).Perm (preorder o) := by
  rcases o.reparent_eq_or declaration owner with h | ⟨s, p, q, rest, -, hp, hq⟩
  · rw [h]
  · rw [← snd_edgesUnder none o, ← snd_edgesUnder none (o.reparent declaration owner)]
    exact (hq.map Prod.snd).trans (hp.map Prod.snd).symm

theorem mem_edges_reparent {declaration : NodeId} (hs : s.node ≠ declaration) (owner : NodeId)
    (o : Outline) : (p, s) ∈ edges (o.reparent declaration owner) ↔ (p, s) ∈ edges o := by
  rcases o.reparent_eq_or declaration owner with h | ⟨s', p', q, rest, hnode, hp, hq⟩
  · rw [h]
  · have hne : s ≠ s' := by
      rintro rfl
      exact hs hnode
    rw [hp.mem_iff, hq.mem_iff]
    simp only [List.mem_cons, Prod.mk.injEq, hne, and_false, false_or]

theorem eq_of_mem_trees (hn : o.nodes.Nodup) {t' : SymbolTree} (ht : t ∈ trees o)
    (ht' : t' ∈ trees o) (h : t'.symbol.node = t.symbol.node) : t' = t := by
  rw [nodes, ← symbol_trees, List.map_map] at hn
  exact List.inj_on_of_nodup_map hn ht' ht h

theorem exists_take? (hn : o.nodes.Nodup) (ht : t ∈ trees o) :
    ∃ rest, take? t.symbol.node o = some (t, rest) := by
  have hmem : t.symbol ∈ preorder o := by
    rw [← symbol_trees]
    exact List.mem_map_of_mem ht
  have htake : (take? t.symbol.node o).isSome := by
    rw [isSome_take?, List.any_eq_true]
    exact ⟨t.symbol, hmem, decide_eq_true rfl⟩
  obtain ⟨⟨t', rest⟩, hr⟩ := Option.isSome_iff_exists.mp htake
  obtain ⟨hnode, ht', -⟩ := of_take? hr
  obtain rfl := eq_of_mem_trees hn ht ht' hnode
  exact ⟨rest, hr⟩

theorem exists_edge_reparent (hn : o.nodes.Nodup) (ht : t ∈ trees o) (hw : w ∈ preorder o)
    (howner : w.describes owner = true) (hout : w ∉ preorder [t]) :
    ∃ v, v.describes owner = true ∧
      (some v, t.symbol) ∈ edges (o.reparent t.symbol.node owner) := by
  obtain ⟨rest, hr⟩ := exists_take? hn ht
  obtain ⟨-, -, q, hp⟩ := of_take? hr
  -- the owner is not inside what is taken out, so it is found again in the rest
  have hrest : w ∈ preorder rest := by
    have hsplit := hp.map Prod.snd
    rw [List.map_append, edges, edges, snd_edgesUnder, snd_edgesUnder, snd_edgesUnder] at hsplit
    exact (List.mem_append.mp (hsplit.mem_iff.mp hw)).resolve_left hout
  have hadd : (addUnder? owner t rest).isSome := by
    rw [isSome_addUnder?]
    exact List.any_eq_true.mpr ⟨w, hrest, howner⟩
  obtain ⟨o', ho'⟩ := Option.isSome_iff_exists.mp hadd
  obtain ⟨v, hv, hedges⟩ := exists_of_addUnder? ho'
  have hdescribes : o.describes owner = true := List.any_eq_true.mpr ⟨w, hw, howner⟩
  refine ⟨v, hv, ?_⟩
  rw [reparent, if_pos hdescribes, hr]
  simp only [ho', Option.getD_some]
  rw [edges, (hedges none).mem_iff, edgesUnder_singleton]
  exact List.mem_append_left _ List.mem_cons_self

def follow (id : UnitId) (entries : List NamespaceEntry) (o : Outline) : Outline :=
  entries.foldl (fun o e =>
    if e.owner.unit = id then o.reparent e.declaration.target e.owner.node else o) o

variable {id : UnitId} {e : NamespaceEntry} {entries pre post : List NamespaceEntry}

theorem follow_cons (id : UnitId) (e : NamespaceEntry) (entries : List NamespaceEntry)
    (o : Outline) : o.follow id (e :: entries) =
      follow id entries
        (if e.owner.unit = id then o.reparent e.declaration.target e.owner.node else o) := rfl

theorem follow_append (id : UnitId) (entries entries' : List NamespaceEntry) (o : Outline) :
    o.follow id (entries ++ entries') = (o.follow id entries).follow id entries' :=
  List.foldl_append

theorem preorder_follow (id : UnitId) (entries : List NamespaceEntry) (o : Outline) :
    (preorder (o.follow id entries)).Perm (preorder o) := by
  induction entries generalizing o with
  | nil => exact List.Perm.refl _
  | cons e entries ih =>
    rw [follow_cons]
    split
    · exact (ih _).trans (preorder_reparent _ _ o)
    · exact ih o

theorem nodes_follow (id : UnitId) (entries : List NamespaceEntry) (o : Outline) :
    (o.follow id entries).nodes.Perm o.nodes := (preorder_follow id entries o).map _

theorem mem_edges_follow
    (h : ∀ e ∈ entries, e.owner.unit = id → s.node ≠ e.declaration.target) :
    (p, s) ∈ edges (o.follow id entries) ↔ (p, s) ∈ edges o := by
  induction entries generalizing o with
  | nil => exact Iff.rfl
  | cons e entries ih =>
    rw [follow_cons, ih fun e he => h e (List.mem_cons_of_mem _ he)]
    split
    · next hid => exact mem_edges_reparent (h e List.mem_cons_self hid) e.owner.node o
    · exact Iff.rfl

theorem exists_edge_follow (hn : o.nodes.Nodup) (hid : e.owner.unit = id)
    (hpost : ∀ e' ∈ post, e'.declaration.target ≠ e.declaration.target)
    (ht : t ∈ trees (o.follow id pre)) (hnode : t.symbol.node = e.declaration.target)
    (hw : w ∈ preorder (o.follow id pre)) (howner : w.describes e.owner.node = true)
    (hout : w ∉ preorder [t]) :
    ∃ v, v.describes e.owner.node = true ∧
      (some v, t.symbol) ∈ edges (o.follow id (pre ++ e :: post)) := by
  have hn : (o.follow id pre).nodes.Nodup := (nodes_follow id pre o).nodup_iff.mpr hn
  obtain ⟨v, hv, hedge⟩ := exists_edge_reparent hn ht hw howner hout
  refine ⟨v, hv, ?_⟩
  rw [follow_append, follow_cons, if_pos hid, ← hnode]
  refine (mem_edges_follow fun e' he' _ => ?_).mpr hedge
  rw [hnode]
  exact (hpost e' he').symm

end Outline

namespace Declared

variable {a : Arena} {b : Branch} {s : Symbol}

theorem symbol_joinAll (ds : List Declared) : (joinAll ds).symbol = none := by
  induction ds with
  | nil => rfl
  | cons d ds ih => exact ih

theorem symbol_newSlot (left right : NodeId) : (a.newSlot b left right).symbol = none ∨
    ∃ nameNode kind value, (a.newSlot b left right).symbol = a.symbolOf? b nameNode kind value := by
  unfold Arena.newSlot
  split
  · exact .inr ⟨_, _, _, rfl⟩
  · exact .inr ⟨_, _, _, rfl⟩
  · split
    · exact .inl rfl
    · exact .inr ⟨_, _, _, rfl⟩
  · exact .inl rfl

theorem symbol_ofBranch (a : Arena) (b : Branch) : (ofBranch a b).symbol = none ∨
    ∃ nameNode kind value, (ofBranch a b).symbol = a.symbolOf? b nameNode kind value := by
  unfold ofBranch
  split
  · next shape _ =>
    unfold ofShape
    split
    all_goals first
      | exact .inr ⟨_, _, _, rfl⟩
      | exact .inl rfl
      | exact .inl (symbol_joinAll _)
      | exact symbol_newSlot _ _
      | split
        · exact .inl rfl
        · exact .inr ⟨_, _, _, rfl⟩
  · exact .inl rfl

theorem node_of_ofBranch (h : (ofBranch a b).symbol = some s) : s.node = b.target := by
  rcases symbol_ofBranch a b with hnone | ⟨nameNode, kind, value, hs⟩
  · rw [hnone] at h
    cases h
  · rw [hs] at h
    unfold Arena.symbolOf? at h
    simp only [Option.bind_eq_bind, Option.bind_eq_some_iff] at h
    obtain ⟨name, -, selection, -, location, -, h⟩ := h
    split at h
    · cases h
      rfl
    · cases h

end Declared

namespace Arena

variable {a : Arena}

theorem preorder_outlineUpTo (a : Arena) (n : Nat) (b : Branch) :
    Outline.preorder (a.outlineUpTo n b) =
      (a.preorderUpTo n b).filterMap fun b => (Declared.ofBranch a b).symbol := by
  have hflat (ids : List NodeId) (f : NodeId → Outline) :
      Outline.preorder (ids.flatMap f) = ids.flatMap fun c => Outline.preorder (f c) := by
    induction ids with
    | nil => simp only [List.flatMap_nil, Outline.preorder]
    | cons c ids ih => rw [List.flatMap_cons, List.flatMap_cons, Outline.preorder_append, ih]
  induction n generalizing b with
  | zero => simp only [outlineUpTo, preorderUpTo, Outline.preorder, List.filterMap_nil]
  | succ n ih =>
    have hinner := hflat (a.children .full b.target) fun c => a.outlineUpTo n (b.child c)
    simp only [ih, ← List.filterMap_flatMap] at hinner
    rw [outlineUpTo, preorderUpTo, List.filterMap_cons, ← hinner]
    cases (Declared.ofBranch a b).symbol with
    | some s => simp only [Outline.preorder, List.append_nil]
    | none => rfl

theorem sublist_outline (a : Arena) :
    (Outline.nodes a.outline).Sublist ((a.preorder a.rootBranch).map (·.target)) := by
  rw [Outline.nodes, outline, preorder_outlineUpTo, preorder]
  induction a.preorderUpTo a.size a.rootBranch with
  | nil => exact List.Sublist.refl _
  | cons b branches ih =>
    cases hs : (Declared.ofBranch a b).symbol with
    | none =>
      rw [List.filterMap_cons, hs]
      exact ih.cons _
    | some s =>
      rw [List.filterMap_cons, hs, List.map_cons, List.map_cons, Declared.node_of_ofBranch hs]
      exact ih.cons_cons _

end Arena

namespace SourceUnit

def Outlined (u : SourceUnit) : Prop :=
  (Outline.nodes u.outline).Nodup ∧ ∀ node ∈ Outline.nodes u.outline, node.index < u.arena.size

theorem outlined_ofArena (config : Config) {a : Arena} (ha : a.Rooted)
    (hsize : a.parsedSize = a.size) : (ofArena config a).Outlined := by
  refine ⟨ha.nodup_preorder.sublist a.sublist_outline, fun node hnode => ?_⟩
  obtain ⟨b, hb, rfl⟩ := List.mem_map.mp (a.sublist_outline.subset hnode)
  exact (ha.holds_root.below (ha.ascending hsize) (Arena.preorderUpTo_below hb)).target

theorem outline_addMeta (u : SourceUnit) (cls : NodeId) (name : String) (tag : Doc.Attribute)
    (location : Location) : (u.addMeta cls name tag location).2.outline =
      (u.outline.addUnder? cls (.node ⟨name, .property, location, location,
        (u.addMeta cls name tag location).1, none⟩ [])).getD u.outline := rfl

theorem Outlined.addMeta {u : SourceUnit} (h : u.Outlined) (cls : NodeId) (name : String)
    (tag : Doc.Attribute) (location : Location) :
    (u.addMeta cls name tag location).2.Outlined := by
  obtain ⟨hn, hlt⟩ := h
  rw [Outlined, outline_addMeta, size_addMeta, property_addMeta]
  cases hadd : u.outline.addUnder? cls
      (.node ⟨name, .property, location, location, ⟨u.arena.size + 1⟩, none⟩ []) with
  | none =>
    refine ⟨hn, fun node hnode => ?_⟩
    have := hlt node hnode
    omega
  | some o' =>
    have hp := (Outline.preorder_addUnder? hadd).map (·.node)
    simp only [Outline.preorder, List.map_append, List.map_cons] at hp
    constructor
    · apply hp.nodup_iff.mpr
      refine List.nodup_cons.mpr ⟨fun hmem => ?_, hn⟩
      have : u.arena.size + 1 < u.arena.size := hlt _ hmem
      omega
    · intro node hnode
      rcases List.mem_cons.mp (hp.mem_iff.mp hnode) with rfl | hnode
      · exact Nat.lt_succ_self _
      · have := hlt node hnode
        omega

theorem outlined_build (config : Config) (id : UnitId) {a : Arena} (ha : a.Parsed) :
    (build config id a).Outlined :=
  attachComments_induction (fun _ _ h _ => h) (fun _ _ _ _ _ h => h.addMeta _ _ _ _)
    (outlined_ofArena config (ha.withUnit id) ha.whole) config

end SourceUnit

end SquirrelAnalyzer
