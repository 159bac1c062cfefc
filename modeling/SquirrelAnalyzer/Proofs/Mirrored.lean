import SquirrelAnalyzer.Proofs.Moved
import SquirrelAnalyzer.Proofs.StoredValue

/-!
The outline of a source, before its documentation is read and its qualified declarations move. It
lists the declaring constructs of the source as they are nested, and opening a symbol on a stack
before the children of a node are visited and closing it behind them makes the same outline.
-/

namespace SquirrelAnalyzer

namespace Arena

def declaredName? (a : Arena) (id : NodeId) : Option NodeId :=
  match a.shape? id with
  | some (.variableDeclarator name _) | some (.functionDeclaration _ name _ _)
  | some (.classDeclaration _ name _ _) | some (.enumDeclaration name _)
  | some (.enumMember name _) | some (.methodDefinition _ _ name _) => some name
  | some (.propertyDefinition _ computed key _) =>
    if a.isOpaqueKey computed key then none else some key
  | some (.assignmentExpression .newSlot left _) => a.slotKey? left
  | _ => none

def declares (a : Arena) (id : NodeId) : Bool := (a.declaredName? id).isSome

structure IsSymbol (a : Arena) (s : Symbol) : Prop where
  name : ∃ key, a.declaredName? s.node = some key ∧ a.slotName? key = some s.name ∧
    a.location? key = some s.selection
  location : a.location? s.node = some s.location
  selection : s.location.contains s.selection = true

variable {a : Arena} {b b' : Branch} {key m : NodeId}

theorem IsKey.exists_slotName? (h : a.IsKey key) : ∃ name, a.slotName? key = some name := by
  rcases h with ⟨name, hs⟩ | ⟨text, htext⟩
  · exact ⟨name, by simp [slotName?, identifierName?, hs, Shape.identifierName?]⟩
  · have hs := shape?_of_literalText? htext
    exact ⟨text, by simp [slotName?, identifierName?, hs, Shape.identifierName?, htext]⟩

theorem Spells.exists_below (h : a.Spells b.target key) : ∃ b', a.Below b b' ∧ b'.target = key := by
  rcases h with rfl | hkey | ⟨c, hc, hkey⟩
  · exact ⟨b, .refl b, rfl⟩
  · exact ⟨b.child key, .child hkey (.refl _), rfl⟩
  · exact ⟨(b.child c).child key, .child hc (.child hkey (.refl _)), rfl⟩

theorem Parsed.contains_of_below (h : a.Parsed) (hb : a.Below b b')
    (hlt : b.target.index < a.size) : ∃ outer inner, a.location? b.target = some outer ∧
      a.location? b'.target = some inner ∧ outer.contains inner = true := by
  obtain ⟨low, n, hn⟩ := h.subtree_of_lt hlt
  obtain ⟨-, -, n', hn', hcontains⟩ := hb.within hn
  exact ⟨n.location, n'.location, hn.location?_eq, by simp [location?, hn'], hcontains⟩

theorem Below.exists_between (h : a.Below b b') (hm : m ∈ b'.ancestors) :
    m ∈ b.ancestors ∨ ∃ c, c.target = m ∧ a.Below c b' := by
  induction h with
  | refl b => exact .inl hm
  | @child b b' c hc h ih =>
    rcases ih hm with hm | hbetween
    · rcases List.mem_cons.mp hm with rfl | hm
      · exact .inr ⟨b, rfl, .child hc h⟩
      · exact .inl hm
    · exact .inr hbetween

theorem exists_of_declaredName? (h : a.declaredName? b.target = some key) :
    (∃ x ∈ (Declared.ofBranch a b).bindings, x.key = key ∧ x.declaration.declaring = b.target) ∧
      ∃ kind value, (Declared.ofBranch a b).symbol = a.symbolOf? b key kind value := by
  unfold declaredName? at h
  unfold Declared.ofBranch
  cases hs : a.shape? b.target with
  | none =>
    rw [hs] at h
    cases h
  | some s =>
    rw [hs] at h
    cases s with
    | functionDeclaration =>
      cases h
      exact ⟨⟨_, List.mem_append_right _ (List.mem_singleton_self _), rfl, rfl⟩, _, _, rfl⟩
    | variableDeclarator | classDeclaration | enumDeclaration | enumMember | methodDefinition =>
      cases h
      exact ⟨⟨_, List.mem_singleton_self _, rfl, rfl⟩, _, _, rfl⟩
    | propertyDefinition isStatic computed =>
      dsimp only [Declared.ofShape] at h ⊢
      split at h
      · cases h
      · next hnamed =>
        cases h
        rw [if_neg hnamed]
        exact ⟨⟨_, List.mem_singleton_self _, rfl, rfl⟩, _, _, rfl⟩
    | assignmentExpression operator left right =>
      cases operator with
      | newSlot =>
        simp only [Declared.ofShape, newSlot]
        dsimp only [slotKey?] at h
        cases hl : a.shape? left with
        | none =>
          rw [hl] at h
          cases h
        | some l =>
          rw [hl] at h
          cases l with
          | identifier | rootExpression =>
            cases h
            exact ⟨⟨_, List.mem_singleton_self _, rfl, rfl⟩, _, _, rfl⟩
          | memberExpression object property computed =>
            dsimp only at h ⊢
            split at h
            · cases h
            · next hnamed =>
              cases h
              rw [if_neg hnamed]
              exact ⟨⟨_, List.mem_singleton_self _, rfl, rfl⟩, _, _, rfl⟩
          | _ => cases h
      | _ => cases h
    | _ => cases h

theorem symbol_eq_none (h : a.declaredName? b.target = none) :
    (Declared.ofBranch a b).symbol = none := by
  unfold declaredName? at h
  unfold Declared.ofBranch
  cases hs : a.shape? b.target with
  | none => rfl
  | some s =>
    rw [hs] at h
    cases s with
    | variableDeclarator | functionDeclaration | classDeclaration | enumDeclaration | enumMember
    | methodDefinition => cases h
    | propertyDefinition isStatic computed =>
      dsimp only [Declared.ofShape] at h ⊢
      split at h
      · next hopaque => rw [if_pos hopaque]
      · cases h
    | functionExpression | lambdaExpression | foreachStatement | tryStatement =>
      exact Declared.symbol_joinAll _
    | assignmentExpression operator left right =>
      cases operator with
      | newSlot =>
        simp only [Declared.ofShape, newSlot]
        dsimp only [slotKey?] at h
        cases hl : a.shape? left with
        | none => rfl
        | some l =>
          rw [hl] at h
          cases l with
          | identifier | rootExpression => cases h
          | memberExpression object property computed =>
            dsimp only at h ⊢
            split at h
            · next hopaque => rw [if_pos hopaque]
            · cases h
          | _ => rfl
      | _ => rfl
    | _ => rfl

theorem Grammatical.exists_symbol (h : a.Grammatical) (hkey : a.declaredName? b.target = some key) :
    ∃ s, (Declared.ofBranch a b).symbol = some s ∧ s.node = b.target ∧ a.IsSymbol s := by
  obtain ⟨⟨x, hx, rfl, hself⟩, kind, value, hsymbol⟩ := exists_of_declaredName? hkey
  obtain ⟨name, hname⟩ := (Declared.isKey_ofBranch h hx).exists_slotName?
  have hspells : a.Spells b.target x.key := hself ▸ (Declared.spells_parts a b).ofBranch x hx
  obtain ⟨b', hbelow, hb'⟩ := hspells.exists_below
  have hlt : b.target.index < a.size := by
    cases hs : a.shape? b.target with
    | none => simp [declaredName?, hs] at hkey
    | some s => exact lt_size_of_shape? hs
  obtain ⟨location, selection, hlocation, hselection, hcontains⟩ :=
    h.contains_of_below hbelow hlt
  rw [hb'] at hselection
  refine ⟨⟨name, kind, location, selection, b.target, value⟩, ?_, rfl,
    ⟨x.key, hkey, hname, hselection⟩, hlocation, hcontains⟩
  rw [hsymbol]
  simp [symbolOf?, hname, hlocation, hselection, hcontains]

theorem Grammatical.symbol_cases (h : a.Grammatical) (b : Branch) :
    (a.declares b.target = false ∧ (Declared.ofBranch a b).symbol = none) ∨
      a.declares b.target = true ∧
        ∃ s, (Declared.ofBranch a b).symbol = some s ∧ s.node = b.target ∧ a.IsSymbol s := by
  cases hkey : a.declaredName? b.target with
  | none => exact .inl ⟨by simp [declares, hkey], symbol_eq_none hkey⟩
  | some key => exact .inr ⟨by simp [declares, hkey], h.exists_symbol hkey⟩

end Arena

namespace Outline

theorem edgesUnder_flatMap {α : Type} (p : Option Symbol) (ids : List α) (f : α → Outline) :
    edgesUnder p (ids.flatMap f) = ids.flatMap fun c => edgesUnder p (f c) := by
  induction ids with
  | nil => rfl
  | cons c ids ih => rw [List.flatMap_cons, List.flatMap_cons, edgesUnder_append, ih]

end Outline

namespace Arena

variable {a : Arena} {b : Branch}

theorem Grammatical.edgesUnder_outlineUpTo (h : a.Grammatical) (n : Nat) {p : Option Symbol}
    (hp : p.map (·.node) = b.ancestors.find? a.declares) :
    (Outline.edgesUnder p (a.outlineUpTo n b)).map (fun e => (e.1.map (·.node), e.2.node)) =
      ((a.preorderUpTo n b).filter (a.declares ·.target)).map fun b =>
        (b.ancestors.find? a.declares, b.target) := by
  induction n generalizing b p with
  | zero => rfl
  | succ n ih =>
    rw [outlineUpTo, preorderUpTo, List.filter_cons, List.filter_flatMap]
    have hinner {q : Option Symbol} (hq : q.map (·.node) =
        (b.target :: b.ancestors).find? a.declares) :
        (Outline.edgesUnder q ((a.children .full b.target).flatMap fun c =>
          a.outlineUpTo n (b.child c))).map (fun e => (e.1.map (·.node), e.2.node)) =
        ((a.children .full b.target).flatMap fun c =>
          (a.preorderUpTo n (b.child c)).filter (a.declares ·.target)).map fun b =>
            (b.ancestors.find? a.declares, b.target) := by
      rw [Outline.edgesUnder_flatMap, List.map_flatMap, List.map_flatMap]
      exact List.flatMap_congr fun c _ => ih (b := b.child c) hq
    rcases h.symbol_cases b with ⟨hd, hs⟩ | ⟨hd, s, hs, hnode, -⟩
    · rw [hs, hd]
      refine hinner ?_
      rw [List.find?_cons_of_neg (by simp [hd]), hp]
    · rw [hs, hd, if_pos rfl, List.map_cons]
      dsimp only
      rw [Outline.edgesUnder_node, Outline.edgesUnder, List.append_nil, List.map_cons,
        hinner (q := some s) (by rw [List.find?_cons_of_pos hd, ← hnode]; rfl), hp, hnode]

end Arena

structure SymbolStack where
  opened : List SymbolTree := []
  roots : Outline := []

namespace SymbolStack

def put (stack : SymbolStack) (o : Outline) : SymbolStack :=
  match stack.opened with
  | [] => { stack with roots := stack.roots ++ o }
  | .node s children :: outer => { stack with opened := .node s (children ++ o) :: outer }

def push (stack : SymbolStack) (s : Symbol) : SymbolStack :=
  { stack with opened := .node s [] :: stack.opened }

def pop (stack : SymbolStack) : SymbolStack :=
  match stack.opened with
  | [] => stack
  | t :: outer => { stack with opened := outer }.put [t]

theorem put_nil (stack : SymbolStack) : stack.put [] = stack := by
  unfold put
  split
  · rw [List.append_nil]
  · next hw =>
    rw [List.append_nil, ← hw]

theorem put_put (stack : SymbolStack) (o o' : Outline) :
    (stack.put o).put o' = stack.put (o ++ o') := by
  obtain ⟨opened, roots⟩ := stack
  cases opened with
  | nil => simp only [put, List.append_assoc]
  | cons t outer =>
    cases t
    simp only [put, List.append_assoc]

theorem pop_put_push (stack : SymbolStack) (s : Symbol) (o : Outline) :
    ((stack.push s).put o).pop = stack.put [.node s o] := rfl

theorem foldl_put {α : Type} (stack : SymbolStack) (ids : List α) (f : α → Outline) :
    ids.foldl (fun stack c => stack.put (f c)) stack = stack.put (ids.flatMap f) := by
  induction ids generalizing stack with
  | nil => exact stack.put_nil.symm
  | cons c ids ih => rw [List.foldl_cons, ih, put_put, List.flatMap_cons]

end SymbolStack

namespace Arena

def visitUpTo (a : Arena) : Nat → SymbolStack → Branch → SymbolStack
  | 0, stack, _ => stack
  | n + 1, stack, b =>
    let inner (stack : SymbolStack) : SymbolStack :=
      (a.children .full b.target).foldl (fun stack c => visitUpTo a n stack (b.child c)) stack
    match (Declared.ofBranch a b).symbol with
    | some s => (inner (stack.push s)).pop
    | none => inner stack

theorem visitUpTo_eq (a : Arena) (n : Nat) (stack : SymbolStack) (b : Branch) :
    a.visitUpTo n stack b = stack.put (a.outlineUpTo n b) := by
  induction n generalizing stack b with
  | zero => exact stack.put_nil.symm
  | succ n ih =>
    rw [visitUpTo, outlineUpTo]
    simp only [ih, SymbolStack.foldl_put]
    cases (Declared.ofBranch a b).symbol with
    | some s => exact SymbolStack.pop_put_push ..
    | none => rfl

/-- The outline shows the declaring constructs of a source as they are nested. -/
structure Mirrors (a : Arena) (o : Outline) : Prop where
  listed : o.nodes = ((a.preorder a.rootBranch).filter (a.declares ·.target)).map (·.target)
  once : o.nodes.Nodup
  complete : ∀ id, id ∈ o.nodes ↔ a.declares id = true
  symbols : ∀ s ∈ o.preorder, a.IsSymbol s
  parents : o.edges.map (fun e => (e.1.map (·.node), e.2.node)) =
    ((a.preorder a.rootBranch).filter (a.declares ·.target)).map fun b =>
      (b.ancestors.find? a.declares, b.target)
  nested : ∀ p s, (some p, s) ∈ o.edges → p.location.contains s.location = true
  visited : a.visitUpTo a.size {} a.rootBranch = { roots := o }

variable {a : Arena}

theorem Grammatical.mirrors (h : a.Grammatical) : a.Mirrors a.outline := by
  have hparents : a.outline.edges.map (fun e => (e.1.map (·.node), e.2.node)) =
      ((a.preorder a.rootBranch).filter (a.declares ·.target)).map fun b =>
        (b.ancestors.find? a.declares, b.target) :=
    h.edgesUnder_outlineUpTo a.size (b := a.rootBranch) (p := none) rfl
  have hlisted : a.outline.nodes =
      ((a.preorder a.rootBranch).filter (a.declares ·.target)).map (·.target) := by
    have hsnd := congrArg (List.map Prod.snd) hparents
    rw [List.map_map, List.map_map] at hsnd
    rw [Outline.nodes, ← Outline.snd_edgesUnder none, List.map_map]
    exact hsnd
  have hsymbols : ∀ s ∈ a.outline.preorder, a.IsSymbol s := by
    intro s hs
    rw [outline, preorder_outlineUpTo] at hs
    obtain ⟨b, -, hb⟩ := List.mem_filterMap.mp hs
    rcases h.symbol_cases b with ⟨-, hnone⟩ | ⟨-, s', hs', -, hsymbol⟩
    · cases hnone.symm.trans hb
    · obtain rfl := Option.some.inj (hs'.symm.trans hb)
      exact hsymbol
  refine ⟨hlisted, h.nodup_preorder.sublist a.sublist_outline, fun id => ?_, hsymbols, hparents,
    fun p s hps => ?_, a.visitUpTo_eq a.size {} a.rootBranch⟩
  · rw [hlisted]
    constructor
    · intro hid
      obtain ⟨b, hb, rfl⟩ := List.mem_map.mp hid
      exact (List.mem_filter.mp hb).2
    · intro hd
      have hlt : id.index < a.size := by
        cases hs : a.shape? id with
        | none => simp [declares, declaredName?, hs] at hd
        | some s => exact lt_size_of_shape? hs
      obtain ⟨b, hb, rfl⟩ := h.exists_mem_preorder hlt
      exact List.mem_map_of_mem (List.mem_filter.mpr ⟨hb, hd⟩)
  · -- the parent stands on the path to the symbol
    have hedge : (some p.node, s.node) ∈
        a.outline.edges.map fun e => (e.1.map (·.node), e.2.node) := List.mem_map_of_mem hps
    rw [hparents] at hedge
    obtain ⟨b, hb, he⟩ := List.mem_map.mp hedge
    obtain ⟨hparent, hnode⟩ := Prod.mk.inj he
    have hbelow := preorderUpTo_below (List.mem_filter.mp hb).1
    rcases hbelow.exists_between (List.mem_of_find?_eq_some hparent) with hm | ⟨c, hc, hbetween⟩
    · cases hm
    have hp : a.IsSymbol p := by
      rcases Outline.fst_of_mem_edgesUnder hps with hnone | ⟨q, hq, he⟩
      · cases hnone
      · exact Option.some.inj he ▸ hsymbols q hq
    have hs : a.IsSymbol s := hsymbols s (Outline.snd_of_mem_edgesUnder hps)
    obtain ⟨n, hn, -⟩ := Option.map_eq_some_iff.mp hp.location
    obtain ⟨outer, inner, houter, hinner, hcontains⟩ :=
      h.contains_of_below hbetween (hc ▸ lt_size_of_get? hn)
    rw [hc, hp.location] at houter
    rw [hnode, hs.location] at hinner
    rwa [Option.some.inj houter, Option.some.inj hinner]

/-- Before its documentation is read, a unit has the outline of its source. -/
theorem mirrors_parse {source : String} (h : parse source = .ok a) (config : Config) (id : UnitId) :
    ({ a with unit := id } : Arena).Mirrors
      (SourceUnit.ofArena config { a with unit := id }).outline := by
  obtain ⟨tokens, body, hreads⟩ := reads_parse h
  exact (hreads.grammatical.withUnit id).mirrors

theorem mirrors_parse_computed : ∃ a,
    parse "class A \x7b [i] = \x7b c = 2 \x7d; \x7d ::B <- 3;" = .ok a ∧
      (((a.preorder a.rootBranch).filter (a.declares ·.target)).map fun b =>
        (b.ancestors.find? a.declares, b.target)) = [(none, ⟨8⟩), (some ⟨8⟩, ⟨4⟩), (none, ⟨12⟩)] ∧
      ({ a with unit := ⟨1⟩ } : Arena).Mirrors
        (SourceUnit.ofArena {} { a with unit := ⟨1⟩ }).outline := by
  have hparsed : (parse "class A \x7b [i] = \x7b c = 2 \x7d; \x7d ::B <- 3;").toOption.any
      (fun a => (((a.preorder a.rootBranch).filter (a.declares ·.target)).map fun b =>
        (b.ancestors.find? a.declares, b.target)) =
          [(none, ⟨8⟩), (some ⟨8⟩, ⟨4⟩), (none, ⟨12⟩)]) = true := by decide +kernel
  obtain ⟨a, ha, hdeclares⟩ := exists_ok hparsed
  exact ⟨a, ha, of_decide_eq_true hdeclares, mirrors_parse ha {} ⟨1⟩⟩

end Arena

end SquirrelAnalyzer
