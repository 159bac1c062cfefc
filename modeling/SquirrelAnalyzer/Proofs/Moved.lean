import SquirrelAnalyzer.Proofs.Outline

/-!
What becomes of an outline when the symbol of a declaration moves under the symbol of its owner.
With each symbol goes the list of the symbols right below it; the symbol that moves leaves one of
these lists and comes last in another one.
-/

namespace SquirrelAnalyzer

namespace Outline

def under (p : Option Symbol) (es : List (Option Symbol × Symbol)) : List Symbol :=
  (es.filter (·.1 = p)).map (·.2)

def childrenOf (p : Option Symbol) (o : Outline) : List Symbol := under p (edges o)

def firstOutside? (owner : NodeId) (t : SymbolTree) (o : Outline) : Option Symbol :=
  (preorder o).find? fun s => s.describes owner && !(preorder [t]).contains s

variable {o o' rest : Outline} {t : SymbolTree} {s w : Symbol} {node owner : NodeId}
  {p q : Option Symbol} {e : Option Symbol × Symbol}

theorem preorder_node (s : Symbol) (children rest : Outline) :
    preorder (.node s children :: rest) = s :: (preorder children ++ preorder rest) := by
  rw [preorder]

theorem preorder_singleton (t : SymbolTree) :
    preorder [t] = t.symbol :: preorder t.children := by
  rw [← snd_edgesUnder none, edgesUnder_singleton, List.map_cons, snd_edgesUnder]

theorem symbol_mem_preorder (t : SymbolTree) : t.symbol ∈ preorder [t] := by
  rw [preorder_singleton]
  exact List.mem_cons_self

theorem fst_of_mem_edgesUnder (h : e ∈ edgesUnder p o) :
    e.1 = p ∨ ∃ s ∈ preorder o, e.1 = some s := by
  fun_induction preorder o generalizing p with
  | case1 => cases h
  | case2 s children rest ihc ihr =>
    rw [edgesUnder_node] at h
    rcases List.mem_cons.mp h with rfl | h
    · exact .inl rfl
    · rcases List.mem_append.mp h with h | h
      · rcases ihc h with he | ⟨x, hx, he⟩
        · exact .inr ⟨s, List.mem_cons_self, he⟩
        · exact .inr ⟨x, List.mem_cons_of_mem _ (List.mem_append_left _ hx), he⟩
      · rcases ihr h with he | ⟨x, hx, he⟩
        · exact .inl he
        · exact .inr ⟨x, List.mem_cons_of_mem _ (List.mem_append_right _ hx), he⟩

theorem snd_of_mem_edgesUnder (h : e ∈ edgesUnder p o) : e.2 ∈ preorder o := by
  rw [← snd_edgesUnder p]
  exact List.mem_map_of_mem h

theorem exists_gap_takeRoot? (h : takeRoot? node o = some (t, rest)) (p : Option Symbol) :
    ∃ front back, edgesUnder p o = front ++ edgesUnder p [t] ++ back ∧
      edgesUnder p rest = front ++ back := by
  fun_induction takeRoot? node o generalizing rest with
  | case1 => cases h
  | case2 t' rest' _ =>
    cases h
    refine ⟨[], edgesUnder p rest', ?_, rfl⟩
    rw [List.nil_append, ← edgesUnder_append]
    rfl
  | case3 t' rest' _ ih =>
    obtain ⟨⟨t₁, rest₁⟩, hr, he⟩ := Option.map_eq_some_iff.mp h
    cases he
    obtain ⟨front, back, ho, hrest⟩ := ih hr
    refine ⟨t'.edgesUnder p ++ front, back, ?_, ?_⟩
    · rw [edgesUnder, ho, List.append_assoc, List.append_assoc, List.append_assoc]
    · rw [edgesUnder, hrest, List.append_assoc]

theorem exists_gap_takeBelow? (h : takeBelow? node o = some (t, rest)) (p : Option Symbol) :
    ∃ q front back, edgesUnder p o = front ++ edgesUnder q [t] ++ back ∧
      edgesUnder p rest = front ++ back := by
  fun_induction takeBelow? node o generalizing rest p with
  | case1 => cases h
  | case2 s children rest' t' children' hc ih =>
    cases h
    have hbelow : ∃ q front back, edgesUnder (some s) children = front ++ edgesUnder q [t] ++ back ∧
        edgesUnder (some s) children' = front ++ back := by
      rcases Option.or_eq_some_iff.mp hc with hroot | ⟨-, hbelow⟩
      · exact ⟨some s, exists_gap_takeRoot? hroot (some s)⟩
      · exact ih hbelow (some s)
    obtain ⟨q, front, back, hchildren, hchildren'⟩ := hbelow
    refine ⟨q, (p, s) :: front, back ++ edgesUnder p rest', ?_, ?_⟩
    · simp only [edgesUnder_node, hchildren, List.cons_append, List.append_assoc]
    · simp only [edgesUnder_node, hchildren', List.cons_append, List.append_assoc]
  | case3 s children rest' hc ihc ih =>
    obtain ⟨⟨t₁, rest₁⟩, hr, he⟩ := Option.map_eq_some_iff.mp h
    cases he
    obtain ⟨q, front, back, ho, hrest⟩ := ih hr p
    refine ⟨q, (p, s) :: edgesUnder (some s) children ++ front, back, ?_, ?_⟩
    · simp only [edgesUnder_node, ho, List.cons_append, List.append_assoc]
    · simp only [edgesUnder_node, hrest, List.cons_append, List.append_assoc]

theorem exists_gap_take? (h : take? node o = some (t, rest)) :
    ∃ q front back, edges o = front ++ edgesUnder q [t] ++ back ∧ edges rest = front ++ back := by
  rcases Option.or_eq_some_iff.mp h with hroot | ⟨-, hbelow⟩
  · exact ⟨none, exists_gap_takeRoot? hroot none⟩
  · exact exists_gap_takeBelow? hbelow none

theorem addUnder?_eq_none (h : addUnder? owner t o = none) :
    (preorder o).find? (·.describes owner) = none := by
  have hnot := isSome_addUnder? owner t o
  rw [h] at hnot
  exact List.find?_eq_none.mpr fun x hx hd =>
    Bool.false_ne_true (hnot.trans (List.any_eq_true.mpr ⟨x, hx, hd⟩))

theorem exists_gap_addUnder? (h : addUnder? owner t o = some o') (hn : (preorder o).Nodup)
    (hp : ∀ s ∈ preorder o, p ≠ some s) :
    ∃ w front back, (preorder o).find? (·.describes owner) = some w ∧
      (∃ children, .node w (children ++ [t]) ∈ trees o') ∧
      edgesUnder p o = front ++ back ∧ edgesUnder p o' = front ++ edgesUnder (some w) [t] ++ back ∧
      ∀ e ∈ back, e.1 ≠ some w := by
  fun_induction addUnder? owner t o generalizing o' p with
  | case1 => cases h
  | case2 s children rest hs =>
    cases h
    rw [preorder_node] at hn hp ⊢
    obtain ⟨hs', -⟩ := List.nodup_cons.mp hn
    refine ⟨s, (p, s) :: edgesUnder (some s) children, edgesUnder p rest, ?_,
      ⟨children, List.mem_cons_self⟩, ?_, ?_, fun e he heq => ?_⟩
    · simp only [List.find?_cons, hs]
    · rw [edgesUnder_node, List.cons_append]
    · rw [edgesUnder_node, edgesUnder_append, List.cons_append, List.cons_append]
    · rcases fst_of_mem_edgesUnder he with hfst | ⟨x, hx, hfst⟩
      · exact hp s List.mem_cons_self (hfst.symm.trans heq)
      · obtain rfl := Option.some.inj (hfst.symm.trans heq)
        exact hs' (List.mem_append_right _ hx)
  | case3 s children rest hs children' hrec ih =>
    cases h
    rw [preorder_node] at hn hp ⊢
    obtain ⟨hs', hn⟩ := List.nodup_cons.mp hn
    obtain ⟨hchildren, -, hdisjoint⟩ := List.nodup_append.mp hn
    have hbelow : ∀ x ∈ preorder children, some s ≠ some x := by
      rintro x hx ⟨⟩
      exact hs' (List.mem_append_left _ hx)
    obtain ⟨w, front, back, hfind, ⟨inner, hmem⟩, ho, ho', hback⟩ := ih hrec hchildren hbelow
    have hw : w ∈ preorder children := List.mem_of_find?_eq_some hfind
    refine ⟨w, (p, s) :: front, back ++ edgesUnder p rest, ?_,
      ⟨inner, List.mem_cons_of_mem _ (List.mem_append_left _ hmem)⟩, ?_, ?_, fun e he heq => ?_⟩
    · simp only [List.find?_cons, hs, List.find?_append, hfind, Option.some_or]
    · simp only [edgesUnder_node, ho, List.cons_append, List.append_assoc]
    · simp only [edgesUnder_node, ho', List.cons_append, List.append_assoc]
    · rcases List.mem_append.mp he with he | he
      · exact hback e he heq
      · rcases fst_of_mem_edgesUnder he with hfst | ⟨x, hx, hfst⟩
        · have hmem := List.mem_cons_of_mem s (List.mem_append_left (preorder rest) hw)
          exact hp w hmem (hfst.symm.trans heq)
        · obtain rfl := Option.some.inj (hfst.symm.trans heq)
          exact hdisjoint x hw x hx rfl
  | case4 s children rest hs hrec ihc ih =>
    obtain ⟨rest', hr, rfl⟩ := Option.map_eq_some_iff.mp h
    have hnone := addUnder?_eq_none hrec
    rw [preorder_node] at hn hp ⊢
    obtain ⟨-, hrest, -⟩ := List.nodup_append.mp (List.nodup_cons.mp hn).2
    obtain ⟨w, front, back, hfind, ⟨inner, hmem⟩, ho, ho', hback⟩ := ih hr hrest fun x hx =>
      hp x (List.mem_cons_of_mem _ (List.mem_append_right _ hx))
    refine ⟨w, (p, s) :: edgesUnder (some s) children ++ front, back, ?_,
      ⟨inner, List.mem_cons_of_mem _ (List.mem_append_right _ hmem)⟩, ?_, ?_, hback⟩
    · simp only [List.find?_cons, hs, List.find?_append, hnone, Option.none_or, hfind]
    · simp only [edgesUnder_node, ho, List.cons_append, List.append_assoc]
    · simp only [edgesUnder_node, ho', List.cons_append, List.append_assoc]

section Under

variable {es es' : List (Option Symbol × Symbol)}

theorem under_append (p : Option Symbol) (es es' : List (Option Symbol × Symbol)) :
    under p (es ++ es') = under p es ++ under p es' := by
  simp only [under, List.filter_append, List.map_append]

theorem under_cons (p q : Option Symbol) (s : Symbol) (es : List (Option Symbol × Symbol)) :
    under p ((q, s) :: es) = (if p = q then [s] else []) ++ under p es := by
  by_cases h : p = q
  · simp [under, h]
  · simp [under, h, Ne.symm h]

theorem under_eq_nil (h : ∀ e ∈ es, e.1 ≠ p) : under p es = [] := by
  simpa [under] using h

theorem mem_of_mem_under (h : s ∈ under p es) : s ∈ es.map (·.2) := by
  obtain ⟨e, he, rfl⟩ := List.mem_map.mp h
  exact List.mem_map_of_mem (List.mem_filter.mp he).1

theorem filter_under {f : Symbol → Bool} (h : ∀ e ∈ es, f e.2 = true) :
    (under p es).filter f = under p es := by
  refine List.filter_eq_self.mpr fun s hs => ?_
  obtain ⟨e, he, rfl⟩ := List.mem_map.mp (mem_of_mem_under hs)
  exact h e he

end Under

theorem exists_gap_getD_addUnder? (hn : (preorder o).Nodup)
    (ho' : (o.addUnder? owner t).getD (o ++ [t]) = o') :
    ∃ front back, edges o = front ++ back ∧
      edges o' = front ++ edgesUnder ((preorder o).find? (·.describes owner)) [t] ++ back ∧
      (∀ e ∈ back, e.1 ≠ (preorder o).find? (·.describes owner)) ∧
      match (preorder o).find? (·.describes owner) with
      | some w => ∃ children, .node w (children ++ [t]) ∈ trees o'
      | none => ∃ roots, o' = roots ++ [t] := by
  cases hadd : addUnder? owner t o with
  | some added =>
    rw [hadd, Option.getD_some] at ho'
    subst ho'
    obtain ⟨w, front, back, hfind, hmem, ho, ho', hback⟩ :=
      exists_gap_addUnder? hadd hn (p := none) nofun
    rw [hfind]
    exact ⟨front, back, ho, ho', hback, hmem⟩
  | none =>
    rw [hadd, Option.getD_none] at ho'
    subst ho'
    rw [addUnder?_eq_none hadd]
    refine ⟨edges o, [], (List.append_nil _).symm, ?_, nofun, o, rfl⟩
    rw [List.append_nil]
    exact edgesUnder_append none o [t]

structure Gap (o rest : Outline) (t : SymbolTree) (front back : List (Option Symbol × Symbol))
    (q : Option Symbol) : Prop where
  whole : edges o = front ++ edgesUnder q [t] ++ back
  rest : edges rest = front ++ back

namespace Gap

variable {front back : List (Option Symbol × Symbol)}

theorem preorder_eq (h : Gap o rest t front back q) :
    preorder o = front.map (·.2) ++ preorder [t] ++ back.map (·.2) := by
  rw [← snd_edgesUnder none o, ← snd_edgesUnder q [t], ← List.map_append, ← List.map_append]
  exact congrArg _ h.whole

theorem preorder_rest (h : Gap o rest t front back q) :
    preorder rest = front.map (·.2) ++ back.map (·.2) := by
  rw [← snd_edgesUnder none rest, ← List.map_append]
  exact congrArg _ h.rest

theorem perm (h : Gap o rest t front back q) :
    (preorder o).Perm (preorder [t] ++ preorder rest) := by
  rw [h.preorder_eq, h.preorder_rest, List.append_assoc]
  exact List.perm_append_comm_assoc ..

theorem ne (h : Gap o rest t front back q) (hn : o.nodes.Nodup) :
    ∀ x ∈ preorder [t], ∀ y ∈ preorder rest, x.node ≠ y.node := by
  have hnodup : ((preorder [t] ++ preorder rest).map (·.node)).Nodup :=
    (h.perm.map _).nodup_iff.mp hn
  rw [List.map_append] at hnodup
  intro x hx y hy
  exact (List.nodup_append.mp hnodup).2.2 _ (List.mem_map_of_mem hx) _ (List.mem_map_of_mem hy)

theorem firstOutside?_eq (h : Gap o rest t front back q) (hn : o.nodes.Nodup) (owner : NodeId) :
    o.firstOutside? owner t = (preorder rest).find? (·.describes owner) := by
  have hin : (preorder [t]).filter
      (fun s => s.describes owner && !(preorder [t]).contains s) = [] := by
    refine List.filter_eq_nil_iff.mpr fun x hx => ?_
    simp [hx]
  have hout (l : List Symbol) (hl : ∀ x ∈ l, x ∈ preorder rest) :
      l.filter (fun s => s.describes owner && !(preorder [t]).contains s) =
        l.filter (·.describes owner) := by
    refine List.filter_congr fun x hx => ?_
    have hnot : x ∉ preorder [t] := fun hmem => h.ne hn x hmem x (hl x hx) rfl
    simp [hnot]
  rw [h.preorder_rest] at hout ⊢
  rw [firstOutside?, ← List.head?_filter, ← List.head?_filter, h.preorder_eq, List.filter_append,
    List.filter_append, List.filter_append, hin, List.append_nil,
    hout _ fun _ hx => List.mem_append_left _ hx, hout _ fun _ hx => List.mem_append_right _ hx]

theorem mem_preorder_rest (h : Gap o rest t front back q) (he : e ∈ front ++ back) :
    e.2 ∈ preorder rest :=
  snd_of_mem_edgesUnder (p := none) (show e ∈ edges rest from h.rest.symm ▸ he)

theorem filter_childrenOf (h : Gap o rest t front back q) (hn : o.nodes.Nodup) (p : Option Symbol) :
    (childrenOf p o).filter (·.node ≠ t.symbol.node) =
      under p front ++ under p (edgesUnder (some t.symbol) t.children) ++ under p back := by
  have hrest : ∀ e ∈ front ++ back, decide (e.2.node ≠ t.symbol.node) = true := fun e he =>
    decide_eq_true fun heq =>
      h.ne hn t.symbol (symbol_mem_preorder t) e.2 (h.mem_preorder_rest he) heq.symm
  have hinner : ∀ e ∈ edgesUnder (some t.symbol) t.children,
      decide (e.2.node ≠ t.symbol.node) = true := fun e he => decide_eq_true fun heq => by
    have hnodup : ((preorder [t] ++ preorder rest).map (·.node)).Nodup :=
      (h.perm.map _).nodup_iff.mp hn
    rw [preorder_singleton, List.cons_append, List.map_cons] at hnodup
    refine (List.nodup_cons.mp hnodup).1 (heq ▸ List.mem_map_of_mem ?_)
    exact List.mem_append_left _ (snd_of_mem_edgesUnder he)
  have hown : (if p = q then [t.symbol] else []).filter (·.node ≠ t.symbol.node) = [] := by
    split
    · rw [List.filter_cons_of_neg (by simp), List.filter_nil]
    · rfl
  rw [childrenOf, h.whole, edgesUnder_singleton, under_append, under_append, under_cons,
    List.filter_append, List.filter_append, List.filter_append, hown, List.nil_append,
    filter_under fun e he => hrest e (List.mem_append_left _ he), filter_under hinner,
    filter_under fun e he => hrest e (List.mem_append_right _ he)]

theorem childrenOf_eq (h : Gap o rest t front back q) (hn : o.nodes.Nodup) {o' : Outline}
    {front' back' : List (Option Symbol × Symbol)} {place : Option Symbol}
    (h' : Gap o' rest t front' back' place) (hplace : ∀ w, place = some w → w ∈ preorder rest)
    (hback : ∀ e ∈ back', e.1 ≠ place) (p : Option Symbol) :
    childrenOf p o' = (childrenOf p o).filter (·.node ≠ t.symbol.node) ++
      if p = place then [t.symbol] else [] := by
  have hne := h.ne hn
  have hsplit : under p front' ++ under p back' = under p front ++ under p back := by
    rw [← under_append, ← under_append, ← h.rest, h'.rest]
  rw [h.filter_childrenOf hn, childrenOf, h'.whole, edgesUnder_singleton, under_append,
    under_append, under_cons]
  by_cases hp : ∃ x ∈ preorder [t], p = some x
  · -- below a symbol that moves nothing changes, and nothing else is below it
    obtain ⟨x, hx, rfl⟩ := hp
    have hnone : ∀ e ∈ front ++ back, e.1 ≠ some x := fun e he heq => by
      have he : e ∈ edges rest := h.rest.symm ▸ he
      rcases fst_of_mem_edgesUnder he with hfst | ⟨y, hy, hfst⟩
      · cases hfst.symm.trans heq
      · obtain rfl := Option.some.inj (hfst.symm.trans heq)
        exact hne y hx y hy rfl
    have hfb : under (some x) (front ++ back) = [] := under_eq_nil hnone
    rw [under_append] at hfb
    rw [hfb] at hsplit
    have hpl : ¬some x = place := fun heq => hne x hx x (hplace x heq.symm) rfl
    obtain ⟨hf, hb⟩ := List.append_eq_nil_iff.mp hfb
    obtain ⟨hf', hb'⟩ := List.append_eq_nil_iff.mp hsplit
    rw [hf, hb, hf', hb', if_neg hpl]
    simp only [List.append_nil, List.nil_append]
  · have hin : under p (edgesUnder (some t.symbol) t.children) = [] := by
      refine under_eq_nil fun e he heq => hp ?_
      rcases fst_of_mem_edgesUnder he with hfst | ⟨y, hy, hfst⟩
      · exact ⟨t.symbol, symbol_mem_preorder t, heq.symm.trans hfst⟩
      · refine ⟨y, ?_, heq.symm.trans hfst⟩
        rw [preorder_singleton]
        exact List.mem_cons_of_mem _ hy
    rw [hin, List.append_nil, List.append_nil, ← hsplit]
    split
    · next heq =>
      subst heq
      rw [under_eq_nil hback, List.append_nil, List.append_nil]
    · rw [List.append_nil, List.append_nil]

end Gap

theorem gap_reparent (hn : o.nodes.Nodup) (ht : t ∈ trees o) (h : o.describes owner = true)
    (ho' : o.reparent t.symbol.node owner = o') :
    (∀ p, childrenOf p o' = (childrenOf p o).filter (·.node ≠ t.symbol.node) ++
      if p = o.firstOutside? owner t then [t.symbol] else []) ∧
    match o.firstOutside? owner t with
    | some w => ∃ children, .node w (children ++ [t]) ∈ trees o'
    | none => ∃ roots, o' = roots ++ [t] := by
  obtain ⟨rest, htake⟩ := exists_take? hn ht
  obtain ⟨q, front, back, hwhole, hrest⟩ := exists_gap_take? htake
  have hgap : Gap o rest t front back q := ⟨hwhole, hrest⟩
  have hnr : (preorder rest).Nodup :=
    (List.nodup_append.mp (hgap.perm.nodup_iff.mp (List.Nodup.of_map _ hn))).2.1
  rw [reparent, if_pos h, htake] at ho'
  obtain ⟨front', back', hrest', hwhole', hback, hlast⟩ := exists_gap_getD_addUnder? hnr ho'
  rw [hgap.firstOutside?_eq hn owner]
  refine ⟨hgap.childrenOf_eq hn ⟨hwhole', hrest'⟩ (fun w hw => ?_) hback, hlast⟩
  exact List.mem_of_find?_eq_some hw

/-- What becomes of an outline when the symbol of a declaration moves under its owner. -/
structure Moves (declaration owner : NodeId) (o o' : Outline) : Prop where
  perm : (preorder o').Perm (preorder o)
  still : (∀ s ∈ preorder o, s.describes owner = false) ∨
    (∀ s ∈ preorder o, s.node ≠ declaration) → o' = o
  outside : ∀ t ∈ trees o, t.symbol.node = declaration → ∀ w, o.firstOutside? owner t = some w →
    (∃ children, .node w (children ++ [t]) ∈ trees o') ∧
      ∀ p, childrenOf p o' = (childrenOf p o).filter (·.node ≠ declaration) ++
        if p = some w then [t.symbol] else []
  inside : ∀ t ∈ trees o, t.symbol.node = declaration → o.describes owner = true →
    o.firstOutside? owner t = none →
    (∃ roots, o' = roots ++ [t]) ∧
      ∀ p, childrenOf p o' = (childrenOf p o).filter (·.node ≠ declaration) ++
        if p = none then [t.symbol] else []

theorem moves_reparent (hn : o.nodes.Nodup) (declaration owner : NodeId) :
    Moves declaration owner o (o.reparent declaration owner) where
  perm := preorder_reparent declaration owner o
  still
    | .inl h => if_neg fun hd => by
        obtain ⟨s, hs, hd⟩ := List.any_eq_true.mp hd
        exact Bool.false_ne_true ((h s hs).symm.trans hd)
    | .inr h => by
        have hnone : take? declaration o = none := by
          rw [← Option.not_isSome_iff_eq_none, isSome_take?]
          intro hd
          obtain ⟨s, hs, hd⟩ := List.any_eq_true.mp hd
          exact h s hs (of_decide_eq_true hd)
        rw [reparent, hnone, ite_self]
  outside t ht hnode w hw := by
    subst hnode
    have howner : o.describes owner = true := by
      have hd := List.find?_some hw
      exact List.any_eq_true.mpr ⟨w, List.mem_of_find?_eq_some hw, (Bool.and_eq_true_iff.mp hd).1⟩
    have hgap := gap_reparent hn ht howner rfl
    rw [hw] at hgap
    exact hgap.symm
  inside t ht hnode howner hnone := by
    subst hnode
    have hgap := gap_reparent hn ht howner rfl
    rw [hnone] at hgap
    exact hgap.symm

def classAndVariable : Outline :=
  [.node { (default : Symbol) with name := "a", kind := .classType, node := ⟨1⟩ }
    [.node { (default : Symbol) with name := "b", kind := .property, node := ⟨2⟩ } []],
   .node { (default : Symbol) with name := "c", node := ⟨3⟩, value := some ⟨103⟩ } []]

theorem moves_reparent_classAndVariable : classAndVariable.nodes.Nodup ∧
    Moves ⟨1⟩ ⟨2⟩ classAndVariable (classAndVariable.reparent ⟨1⟩ ⟨2⟩) ∧
    Moves ⟨2⟩ ⟨103⟩ classAndVariable (classAndVariable.reparent ⟨2⟩ ⟨103⟩) :=
  have hn : classAndVariable.nodes.Nodup := by
    simp [nodes, preorder, classAndVariable]
  ⟨hn, moves_reparent hn ⟨1⟩ ⟨2⟩, moves_reparent hn ⟨2⟩ ⟨103⟩⟩

end Outline

end SquirrelAnalyzer
