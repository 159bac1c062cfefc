import SquirrelAnalyzer.Proofs.Categories
import SquirrelAnalyzer.Proofs.Followed
import SquirrelAnalyzer.Proofs.Leaves
import SquirrelAnalyzer.Proofs.Tables

/-!
The categories that names of a source are shown in. They come in the order of the source and stand
apart, as the identifiers and literals of a tree do, so sorting them by position leaves them where
the table of the unit has them.
-/

namespace SquirrelAnalyzer

open Text

namespace Arena

variable {a a' : Arena} {k d : NodeId} {l : Location} {tokens : List Token} {source : String}

def IsStringKey (a : Arena) (k : NodeId) : Prop :=
  (∃ text, a.literalText? k = some text) ∧ ∃ m,
    (∃ object, a.shape? m = some (.memberExpression object k true)) ∨
      ∃ isStatic value, a.shape? m = some (.propertyDefinition isStatic true k value)

def IsNamed (a : Arena) (k : NodeId) : Prop :=
  (∃ name, a.shape? k = some (.identifier name)) ∨ a.IsStringKey k

theorem isNamed_of_identifierName? {name : String} (h : a.identifierName? k = some name) :
    a.IsNamed k := .inl ⟨name, shape?_of_identifierName? h⟩

theorem Extends.isNamed (h : a.Extends a') (hk : a.IsNamed k) : a'.IsNamed k := by
  rcases hk with ⟨name, hs⟩ | ⟨⟨text, htext⟩, m, hm⟩
  · exact .inl ⟨name, h.shape?_of hs⟩
  · have htext' : a'.literalText? k = some text := by
      have hs := h.shape?_of (shape?_of_literalText? htext)
      rw [Arena.literalText?, hs]
      rfl
    refine .inr ⟨⟨text, htext'⟩, m, ?_⟩
    rcases hm with ⟨object, hm⟩ | ⟨isStatic, value, hm⟩
    · exact .inl ⟨object, h.shape?_of hm⟩
    · exact .inr ⟨isStatic, value, h.shape?_of hm⟩

theorem IsNamed.exists_leaf (h : a.IsNamed k) : ∃ leaf, a.leaf? k = some leaf := by
  have hleaf {s : Shape NodeId} (hs : a.shape? k = some s) {content : Content}
      (hcontent : s.content? = some content) : ∃ leaf, a.leaf? k = some leaf := by
    obtain ⟨n, hn, rfl⟩ := Option.map_eq_some_iff.mp hs
    exact ⟨⟨n.location.span, content⟩, by rw [leaf?, hn, Option.bind_some, hcontent]; rfl⟩
  rcases h with ⟨name, hs⟩ | ⟨⟨text, htext⟩, -⟩
  · exact hleaf hs rfl
  · exact hleaf (shape?_of_literalText? htext) rfl

theorem Grammatical.isNamed_of_key (ha : a.Grammatical) {computed : Bool} {m : NodeId}
    {s : Shape NodeId} (hs : a.shape? m = some s) (hunnamed : ¬ a.isOpaqueKey computed k = true)
    (hplain : computed = false → s.plainName? = some k)
    (hbrackets : computed = true → (∃ object, s = .memberExpression object k true) ∨
      ∃ isStatic value, s = .propertyDefinition isStatic true k value) : a.IsNamed k := by
  cases computed with
  | false => exact .inl (ha.shape?_plainName hs (hplain rfl))
  | true =>
    rcases isKey_of_not_opaque hunnamed nofun with hname | htext
    · exact .inl hname
    · refine .inr ⟨htext, m, ?_⟩
      rcases hbrackets rfl with ⟨object, rfl⟩ | ⟨isStatic, value, rfl⟩
      · exact .inl ⟨object, hs⟩
      · exact .inr ⟨isStatic, value, hs⟩

theorem Grammatical.isNamed_of_slotKey? (ha : a.Grammatical) {left : NodeId}
    (h : a.slotKey? left = some k) : a.IsNamed k := by
  unfold slotKey? at h
  split at h
  · next name hl =>
    cases h
    exact .inl ⟨name, hl⟩
  · next property hl =>
    cases h
    exact .inl (ha.shape?_plainName hl rfl)
  · next object property computed hl =>
    split at h
    · cases h
    · next hunnamed =>
      cases h
      refine ha.isNamed_of_key hl hunnamed ?_ ?_
      · rintro rfl
        rfl
      · rintro rfl
        exact .inl ⟨object, rfl⟩
  · cases h

theorem Grammatical.isNamed_of_declaredName? (ha : a.Grammatical)
    (h : a.declaredName? d = some k) : a.IsNamed k := by
  unfold declaredName? at h
  cases hs : a.shape? d with
  | none =>
    rw [hs] at h
    cases h
  | some s =>
    rw [hs] at h
    cases s with
    | variableDeclarator | functionDeclaration | classDeclaration | enumDeclaration | enumMember
    | methodDefinition =>
      cases h
      exact .inl (ha.shape?_plainName hs rfl)
    | propertyDefinition isStatic computed key value =>
      dsimp only at h
      split at h
      · cases h
      · next hunnamed =>
        cases h
        refine ha.isNamed_of_key hs hunnamed ?_ ?_
        · rintro rfl
          rfl
        · rintro rfl
          exact .inr ⟨isStatic, value, rfl⟩
    | assignmentExpression operator left right =>
      cases operator with
      | newSlot => exact ha.isNamed_of_slotKey? h
      | _ => cases h
    | _ => cases h

theorem Keyed.isNamed (ha : a.Grammatical) (h : a.Keyed k d) : a.IsNamed k := by
  cases h with
  | bound hbound h =>
    obtain ⟨name, hname⟩ := Option.isSome_iff_exists.mp (Option.filter_eq_some_iff.mp h).2
    exact isNamed_of_identifierName? hname
  | own h => exact ha.isNamed_of_declaredName? h

end Arena

namespace SourceUnit

variable {u : SourceUnit} {a : Arena} {k : NodeId} {l : Location} {tokens : List Token}
  {source : String}

inductive Shows (u : SourceUnit) (a : Arena) (k : NodeId) (x : Location × Category) : Prop
  | declared {d : Declaration} (written : u.arena.isSynthetic k = false)
      (location : u.arena.location? k = some x.1)
      (entry : u.facts.declarations.get? k = some d) (category : x.2 = d.category)
  | undeclared {name : String} (written : u.arena.isSynthetic k = false)
      (location : u.arena.location? k = some x.1)
      (entry : u.facts.declarations.get? k = none) (named : u.arena.identifierName? k = some name)
      (category : a.firstNamed? name = some x.2)

structure Distinct (u : SourceUnit) (a : Arena) : Prop where
  increasing : u.semanticTokens.Pairwise fun x y => x.1.startOffset < y.1.startOffset
  proper : ∀ x ∈ u.semanticTokens, x.1.startOffset < x.1.endOffset
  declared : ∀ k d, u.arena.isSynthetic k = false → u.facts.declarations.get? k = some d →
    ∃ l, u.arena.location? k = some l ∧
      u.semanticTokens.filter (·.1 = l) = [(l, d.category)]
  undeclared : ∀ k name, u.arena.isSynthetic k = false → u.facts.declarations.get? k = none →
    u.arena.identifierName? k = some name → ∃ l, u.arena.location? k = some l ∧
      u.semanticTokens.filter (·.1 = l) = (a.firstNamed? name).toList.map (l, ·)

def shown (u : SourceUnit) : List (NodeId × Location × Category) :=
  u.facts.categories.toList.filterMap fun e =>
    if u.arena.isSynthetic e.1 then none else (u.arena.location? e.1).map fun l => (e.1, l, e.2)

theorem mem_shown {x : Location × Category} : (k, x) ∈ u.shown ↔
    u.arena.isSynthetic k = false ∧ u.arena.location? k = some x.1 ∧ u.category? k = some x.2 := by
  unfold shown
  rw [List.mem_filterMap]
  constructor
  · rintro ⟨⟨k', c⟩, hmem, hx⟩
    dsimp only at hx
    split at hx
    · cases hx
    · next hwritten =>
      obtain ⟨l, hl, he⟩ := Option.map_eq_some_iff.mp hx
      cases he
      exact ⟨by simpa using hwritten, hl, NodeTable.mem_toList_iff.mp hmem⟩
  · rintro ⟨hwritten, hl, hc⟩
    refine ⟨(k, x.2), NodeTable.mem_toList_iff.mpr hc, ?_⟩
    simp [hwritten, hl]

theorem pairwise_shown (u : SourceUnit) :
    u.shown.Pairwise fun e e' => e.1.index < e'.1.index := by
  refine List.pairwise_filterMap.mpr ?_
  refine (NodeTable.pairwise_toList u.facts.categories).imp ?_
  rintro ⟨k, c⟩ ⟨k', c'⟩ hlt x hx x' hx'
  dsimp only at hlt hx hx'
  split at hx
  · cases hx
  · split at hx'
    · cases hx'
    · obtain ⟨l, -, rfl⟩ := Option.map_eq_some_iff.mp hx
      obtain ⟨l', -, rfl⟩ := Option.map_eq_some_iff.mp hx'
      exact hlt

theorem semanticTokens_eq (u : SourceUnit) : u.semanticTokens =
    sortBy (fun x y => x.1.startOffset ≤ y.1.startOffset) (u.shown.map (·.2)) := by
  unfold semanticTokens shown
  rw [List.map_filterMap]
  refine congrArg _ (List.filterMap_congr fun e _ => ?_)
  dsimp only
  split
  · rfl
  · rw [Option.map_map]
    rfl

theorem mem_semanticTokens {x : Location × Category} : x ∈ u.semanticTokens ↔
    ∃ k, u.arena.isSynthetic k = false ∧ u.arena.location? k = some x.1 ∧
      u.category? k = some x.2 := by
  rw [semanticTokens_eq, (perm_sortBy ..).mem_iff, List.mem_map]
  constructor
  · rintro ⟨⟨k, x⟩, hmem, rfl⟩
    exact ⟨k, mem_shown.mp hmem⟩
  · rintro ⟨k, hk⟩
    exact ⟨(k, x), mem_shown.mpr hk, rfl⟩

theorem isNamed_of_category? {config : Config} {c : Category} (ha : a.Grammatical)
    (hk : k.index < a.size) (hc : (ofArena config a).category? k = some c) : a.IsNamed k := by
  cases hd : (ofArena config a).facts.declarations.get? k with
  | some d =>
    have hdeclaration : (ofArena config a).declaration? k = some d.declaring := by
      rw [declaration?, hd, Option.map_some]
    exact (keyed_of_declaration? ha hdeclaration).isNamed ha
  | none =>
    rw [category?_undeclared ha.toParsed hk hd] at hc
    obtain ⟨name, hname, -⟩ := Option.bind_eq_some_iff.mp hc
    exact Arena.isNamed_of_identifierName? hname

structure Rendered (u : SourceUnit) (config : Config) (source : String) (tokens : List Token)
    (a : Arena) : Prop extends u.ReadFrom config a where
  ranged : a.Ranged source tokens
  accounted : a.Accounted source tokens
  categories : ∀ k, k.index < a.size → u.category? k = (ofArena config a).category? k
  declarations : ∀ k, k.index < a.size →
    u.facts.declarations.get? k = (ofArena config a).facts.declarations.get? k

namespace Rendered

variable {config : Config} {k' : NodeId} {l' : Location} {leaf leaf' : Leaf} {c : Category}

theorem lt_of_written (h : u.Rendered config source tokens a)
    (hwritten : u.arena.isSynthetic k = false) : k.index < a.size := by
  rw [h.isSynthetic_eq] at hwritten
  exact Nat.lt_of_not_le (of_decide_eq_false hwritten)

theorem identifierName?_eq (h : u.Rendered config source tokens a) (hlt : k.index < a.size) :
    u.arena.identifierName? k = a.identifierName? k := by
  rw [Arena.identifierName?, Arena.identifierName?, h.unit.arena.shape?_eq hlt]
  rfl

theorem isNamed (h : u.Rendered config source tokens a) (hwritten : u.arena.isSynthetic k = false)
    (hc : u.category? k = some c) : a.IsNamed k := by
  have hk := h.lt_of_written hwritten
  rw [h.categories k hk] at hc
  exact isNamed_of_category? h.grammatical hk hc

theorem span_eq (h : u.Rendered config source tokens a) (hleaf : a.leaf? k = some leaf)
    (hl : u.arena.location? k = some l) : leaf.span = l.span := by
  obtain ⟨n, hn, hleaf⟩ := Option.bind_eq_some_iff.mp hleaf
  obtain ⟨content, -, rfl⟩ := Option.map_eq_some_iff.mp hleaf
  have hn' := (h.unit.arena.kept k (Arena.lt_size_of_get? hn)).trans hn
  rw [Arena.location?, hn'] at hl
  exact congrArg Location.span (Option.some.inj hl)

theorem apart (h : u.Rendered config source tokens a) (hlt : k.index < k'.index)
    (hleaf : a.leaf? k = some leaf) (hleaf' : a.leaf? k' = some leaf')
    (hl : u.arena.location? k = some l) (hl' : u.arena.location? k' = some l') :
    l.startOffset ≤ l.endOffset ∧ l.endOffset ≤ l'.startOffset := by
  have hproper := h.accounted.proper k leaf hleaf
  have hapart := h.accounted.apart k k' leaf leaf' hlt hleaf hleaf'
  rw [h.span_eq hleaf' hl'] at hapart
  rw [h.span_eq hleaf hl] at hproper hapart
  exact ⟨hproper, hapart⟩

theorem exists_leaf (h : u.Rendered config source tokens a) {x : Location × Category}
    (hx : (k, x) ∈ u.shown) : ∃ leaf, a.leaf? k = some leaf ∧ u.arena.location? k = some x.1 := by
  obtain ⟨hwritten, hl, hc⟩ := mem_shown.mp hx
  obtain ⟨leaf, hleaf⟩ := (h.isNamed hwritten hc).exists_leaf
  exact ⟨leaf, hleaf, hl⟩

theorem pairwise_shown (h : u.Rendered config source tokens a) : u.shown.Pairwise fun e e' =>
    e.2.1.startOffset ≤ e.2.1.endOffset ∧ e.2.1.endOffset ≤ e'.2.1.startOffset := by
  refine u.pairwise_shown.imp_of_mem fun {e e'} he he' hlt => ?_
  obtain ⟨leaf, hleaf, hl⟩ := h.exists_leaf he
  obtain ⟨leaf', hleaf', hl'⟩ := h.exists_leaf he'
  exact h.apart hlt hleaf hleaf' hl hl'

theorem semanticTokens_eq (h : u.Rendered config source tokens a) :
    u.semanticTokens = u.shown.map (·.2) := by
  rw [u.semanticTokens_eq]
  refine sortBy_eq_of_pairwise (List.pairwise_map.mpr (h.pairwise_shown.imp fun hle => ?_))
  exact decide_eq_true (Nat.le_trans hle.1 hle.2)

theorem inside (h : u.Rendered config source tokens a) (hwritten : u.arena.isSynthetic k = false)
    (hk : a.IsNamed k) (hl : u.arena.location? k = some l) :
    l.startOffset ≤ l.endOffset ∧ l.endOffset ≤ byteLength source.toList := by
  obtain ⟨leaf, hleaf⟩ := hk.exists_leaf
  have hproper := h.accounted.proper k leaf hleaf
  rw [h.span_eq hleaf hl] at hproper
  refine ⟨hproper, ?_⟩
  have hlt := h.lt_of_written hwritten
  obtain ⟨b, -, -, hb, rfl, -⟩ := h.parsed.exists_below (h.parsed.whole ▸ hlt)
  obtain ⟨root, hroot, -, hstop⟩ := h.ranged.root
  obtain ⟨outer, inner, houter, hinner, hcontains⟩ :=
    h.parsed.contains_of_below hb (Arena.lt_size_of_get? hroot)
  have hinner' : u.arena.location? b.target = some inner := by
    rw [Arena.location?, h.unit.arena.kept _ hlt]
    exact hinner
  have houter' : a.location? a.root = some root.location := by rw [Arena.location?, hroot]; rfl
  have hend := toOffset_le (byteLength source.toList)
  rw [← hstop] at hend
  rw [Option.some.inj (hl.symm.trans hinner')]
  rw [← Option.some.inj (houter.symm.trans houter')] at hend
  exact Nat.le_trans (Location.contains_iff.mp hcontains).2 hend

theorem exists_location (h : u.Rendered config source tokens a)
    (hwritten : u.arena.isSynthetic k = false) : ∃ l, u.arena.location? k = some l := by
  have hlt := Nat.lt_of_lt_of_le (h.lt_of_written hwritten) h.unit.arena.size
  exact ⟨_, congrArg (Option.map Node.location) (Array.getElem?_eq_getElem hlt)⟩

section OneToOne

variable (h : u.Rendered config source tokens a) (hone : a.OneToOne tokens)

include h hone

theorem proper (hleaf : a.leaf? k = some leaf) (hl : u.arena.location? k = some l) :
    l.startOffset < l.endOffset := by
  have hproper := hone.proper k leaf hleaf
  rwa [h.span_eq hleaf hl] at hproper

theorem eq_of_location (hleaf : a.leaf? k = some leaf) (hleaf' : a.leaf? k' = some leaf')
    (hl : u.arena.location? k = some l) (hl' : u.arena.location? k' = some l) : k = k' := by
  have hproper := h.proper hone hleaf hl
  rcases Nat.lt_trichotomy k.index k'.index with hlt | he | hlt
  · have hle := h.apart hlt hleaf hleaf' hl hl'
    omega
  · exact congrArg NodeId.mk he
  · have hle := h.apart hlt hleaf' hleaf hl' hl
    omega

theorem increasing : u.semanticTokens.Pairwise fun x y => x.1.startOffset < y.1.startOffset := by
  rw [h.semanticTokens_eq, List.pairwise_map]
  refine h.pairwise_shown.imp_of_mem fun {e e'} he _ hle => ?_
  obtain ⟨leaf, hleaf, hl⟩ := h.exists_leaf he
  exact Nat.lt_of_lt_of_le (h.proper hone hleaf hl) hle.2

theorem filter_semanticTokens (hwritten : u.arena.isSynthetic k = false) (hk : a.IsNamed k)
    (hl : u.arena.location? k = some l) :
    u.semanticTokens.filter (·.1 = l) = (u.category? k).toList.map (l, ·) := by
  obtain ⟨leaf, hleaf⟩ := hk.exists_leaf
  cases hc : u.category? k with
  | none =>
    refine List.filter_eq_nil_iff.mpr fun x hx he => ?_
    obtain ⟨k', hwritten', hl', hc'⟩ := mem_semanticTokens.mp hx
    rw [of_decide_eq_true he] at hl'
    obtain ⟨leaf', hleaf'⟩ := (h.isNamed hwritten' hc').exists_leaf
    rw [h.eq_of_location hone hleaf hleaf' hl hl', hc'] at hc
    cases hc
  | some c =>
    have hnodup : (u.semanticTokens.map (·.1)).Nodup := by
      refine List.pairwise_map.mpr ((h.increasing hone).imp fun {x y} hlt he => ?_)
      rw [he] at hlt
      exact Nat.lt_irrefl _ hlt
    have hmem : (l, c) ∈ u.semanticTokens := mem_semanticTokens.mpr ⟨k, hwritten, hl, hc⟩
    exact filter_eq_of_nodup hnodup hmem

theorem distinct : u.Distinct a where
  increasing := h.increasing hone
  proper x hx := by
    obtain ⟨k, hwritten, hl, hc⟩ := mem_semanticTokens.mp hx
    obtain ⟨leaf, hleaf⟩ := (h.isNamed hwritten hc).exists_leaf
    exact h.proper hone hleaf hl
  declared k d hwritten hd := by
    have hlt := h.lt_of_written hwritten
    have hc : u.category? k = some d.category := by
      rw [h.categories k hlt]
      exact category?_declared ((h.declarations k hlt).symm.trans hd)
    obtain ⟨l, hl⟩ := h.exists_location hwritten
    refine ⟨l, hl, ?_⟩
    rw [h.filter_semanticTokens hone hwritten (h.isNamed hwritten hc) hl, hc]
    rfl
  undeclared k name hwritten hd hname := by
    have hlt := h.lt_of_written hwritten
    have hbase : a.identifierName? k = some name := (h.identifierName?_eq hlt).symm.trans hname
    have hc : u.category? k = a.firstNamed? name := by
      rw [h.categories k hlt,
        category?_undeclared h.parsed hlt ((h.declarations k hlt).symm.trans hd), hbase]
      rfl
    obtain ⟨l, hl⟩ := h.exists_location hwritten
    refine ⟨l, hl, ?_⟩
    rw [h.filter_semanticTokens hone hwritten (Arena.isNamed_of_identifierName? hbase) hl, hc]

end OneToOne

end Rendered

end SourceUnit

namespace Analysis

variable {a : Analysis} {id : UnitId} {u : SourceUnit}

end Analysis

end SquirrelAnalyzer
