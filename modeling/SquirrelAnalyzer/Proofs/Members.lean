import SquirrelAnalyzer.Proofs.Extent.Statement
import SquirrelAnalyzer.Proofs.Layout
import SquirrelAnalyzer.Proofs.Leaves
import SquirrelAnalyzer.Proofs.Positions

namespace SquirrelAnalyzer

namespace Token.Chain

variable {tokens : List Token} {t k : Token}

theorem next_behind (h : Chain 0 tokens) (hnext : [t, k] <:+: tokens) :
    t.span.stop ≤ k.span.start ∧ k.span.start ≤ k.span.stop := by
  obtain ⟨front, rest, rfl⟩ := hnext
  rw [List.append_assoc] at h
  obtain ⟨lo, -, -, hk, -⟩ := h.behind
  exact ⟨hk.behind, hk.proper⟩

end Token.Chain

theorem Token.Filled.separator {tokens : List Token} {k : Token} (h : Filled tokens)
    (hk : k ∈ tokens) (hseparator : k.kind.isSeparator = true) : k.span.start < k.span.stop := by
  refine h k hk fun hkind => ?_
  rw [hkind] at hseparator
  cases hseparator

namespace Shape

variable {α β : Type} {s : Shape α} {f : α → β}

theorem qualified?_map (f : α → β) (s : Shape α) :
    (s.map f).qualified? = s.qualified?.map fun x => (f x.1, f x.2) := by
  cases s with
  | functionDeclaration qualifier => cases qualifier <;> rfl
  | classDeclaration qualifier => cases qualifier <;> rfl
  | _ => rfl

theorem unqualified_map (f : α → β) (s : Shape α) :
    (s.map f).unqualified = s.unqualified.map f := by
  simp only [unqualified, qualified?_map, children_map, Option.isSome_map]
  split
  · exact List.map_tail.symm
  · rfl

theorem children_of_qualified? {owner id : α} (h : s.qualified? = some (owner, id)) :
    ∃ parts, s.children .full = owner :: id :: parts := by
  unfold qualified? at h
  split at h
  · cases h
    exact ⟨_, rfl⟩
  · cases h
    exact ⟨_, rfl⟩
  · cases h

theorem owner_or_unqualified {c : α} (h : c ∈ s.children .full) :
    (∃ id, s.qualified? = some (c, id)) ∨ c ∈ s.unqualified := by
  cases hq : s.qualified? with
  | none =>
    rw [unqualified, hq]
    exact .inr h
  | some x =>
    obtain ⟨parts, hparts⟩ := children_of_qualified? hq
    rw [unqualified, hq, hparts]
    rw [hparts] at h
    rcases List.mem_cons.mp h with rfl | h
    · exact .inl ⟨x.2, rfl⟩
    · exact .inr h

theorem exists_of_map_eq_memberExpression {x y : β} {computed : Bool}
    (h : s.map f = .memberExpression x y computed) :
    ∃ object property, s = .memberExpression object property computed ∧ f object = x ∧
      f property = y := by
  cases s with
  | memberExpression object property computed =>
    cases h
    exact ⟨object, property, rfl, rfl, rfl⟩
  | _ => cases h

theorem of_map_eq_identifier {name : String} (h : s.map f = .identifier name) :
    s = .identifier name := by
  cases s with
  | identifier => exact congrArg _ (Shape.identifier.inj h)
  | _ => cases h

end Shape

def Tree.Owning (tokens : List Token) (t : Tree) : Prop :=
  ∃ u k, [u, k] <:+: tokens ∧ k.kind.isSeparator = true ∧ t.Owns tokens u k

theorem Tree.Tight.owning {tokens : List Token} {span : Span} {shape : Shape Tree} {owner id : Tree}
    (h : (Tree.node span shape).Tight tokens) (hqualified : shape.qualified? = some (owner, id)) :
    owner.Owning tokens := by
  obtain ⟨-, howner, -⟩ := h
  obtain ⟨t, k, k', hnext, hk, howns, -⟩ := howner owner id hqualified
  have hpart : [t, k] <:+: [t, k, k'] := (List.prefix_append [t, k] [k']).isInfix
  exact ⟨t, k, hpart.trans hnext, hk, howns⟩

namespace Arena

inductive Owner (a : Arena) : NodeId → Prop
  | qualifier {d owner id : NodeId} {s : Shape NodeId} (hs : a.shape? d = some s)
      (hqualified : s.qualified? = some (owner, id)) : Owner a owner
  | object {id object property : NodeId} {computed : Bool} (howner : Owner a id)
      (hs : a.shape? id = some (.memberExpression object property computed)) : Owner a object

/-- Member expressions cover their object and their property. The owner in a qualified name covers
the separator behind it as well, and where the name follows without a blank, the owner is found in
place of the name. The separator has a width as long as the size of the source is an offset. -/
structure MembersPlaced (a : Arena) (source : String) (tokens : List Token) : Prop where
  member : ∀ id n object property computed, a.get? id = some n →
    n.shape = .memberExpression object property computed →
    ∃ o p, a.get? object = some o ∧ a.get? property = some p ∧
      n.location.startOffset = o.location.startOffset ∧
      (computed = false → ¬a.Owner id → n.location.endOffset = p.location.endOffset)
  owner : ∀ id n object property computed, a.get? id = some n →
    n.shape = .memberExpression object property computed → a.Owner id →
    computed = false ∧ ∃ p t k, a.get? property = some p ∧ [t, k] <:+: tokens ∧
      k.kind.isSeparator = true ∧ p.location.endOffset = t.span.stop ∧
      n.location.endOffset = k.span.stop ∧
      (Text.byteLength source.toList ≤ maxOffset → p.location.endOffset < n.location.endOffset)
  name : Text.byteLength source.toList ≤ maxOffset →
    ∀ d s owner id, a.shape? d = some s → s.qualified? = some (owner, id) →
    ∃ o i, a.get? owner = some o ∧ a.get? id = some i ∧
      (o.kind = .identifier → o.location.endOffset < i.location.startOffset) ∧
      a.branchAt i.location.startOffset =
        a.branchTo (if o.location.endOffset = i.location.startOffset then owner else id)

variable {a : Arena} {source : String} {tokens : List Token} {body : List Tree} {b : Branch}
  {id c : NodeId} {n : Node} {lo : Nat}

theorem children_of_member {object property : NodeId} {computed : Bool}
    (hs : n.shape = .memberExpression object property computed) :
    n.children .full = [object, property] := by
  rw [Node.children, hs]
  rfl

theorem reads_tight (h : parse source = .ok a) :
    ∃ tokens body comments, Token.tokenize source.toList = .ok (tokens, comments) ∧
      a.Reads source tokens body ∧ (a.tree a.root).Tight tokens := by
  obtain ⟨tokens, body, hreads⟩ := reads_parse h
  obtain ⟨comments, ht, -⟩ := hreads.arena
  refine ⟨tokens, body, comments, ht, hreads, ?_⟩
  obtain ⟨hchain, hbound⟩ := Token.chain_tokenize ht
  cases hs : Parser.sourceFile tokens (sourceSpan source).stop with
  | error f => cases (parse_eq_error ht hs).symm.trans h
  | ok t =>
    cases (parse_of_tokens ht hs).symm.trans h
    obtain ⟨hplaced, -⟩ := Parser.sourceFile_placed hchain hbound hs
    rw [tree_ofTree _ _ hplaced.nested]
    exact Parser.sourceFile_tight hchain hs

namespace Subtree

variable {t k : Token} {owner name object property : NodeId} {computed : Bool}

theorem shape? (hn : a.Subtree lo id n) : a.shape? id = some n.shape := by
  simp [Arena.shape?, hn.node]

theorem owns_cases (hn : a.Subtree lo id n) (h : (a.tree id).Owns tokens t k) :
    (∃ name, n.shape = .identifier name ∧ n.location.span = t.range) ∨
      ∃ object property name, n.shape = .memberExpression object property false ∧
        (a.tree object).Owning tokens ∧ a.tree property = .node t.range (.identifier name) ∧
        n.location.span = ⟨(a.tree object).start, max k.span.stop (a.tree object).start⟩ := by
  rw [hn.tree_eq] at h
  generalize hspan : n.location.span = span at h
  generalize hshape : n.shape.map a.tree = shape at h
  cases h with
  | name => exact .inl ⟨_, Shape.of_map_eq_identifier hshape, rfl⟩
  | @member _ u v _ _ _ hobject hnext hseparator =>
    obtain ⟨object, property, hs, rfl, hproperty⟩ :=
      Shape.exists_of_map_eq_memberExpression hshape
    have hpart : [u, v] <:+: [u, v, t] := (List.prefix_append [u, v] [t]).isInfix
    exact .inr ⟨object, property, _, hs, ⟨u, v, hpart.trans hnext, hseparator, hobject⟩,
      hproperty, rfl⟩

theorem owning_object (hn : a.Subtree lo id n) (h : (a.tree id).Owning tokens)
    (hs : n.shape = .memberExpression object property computed) :
    (a.tree object).Owning tokens := by
  obtain ⟨t, k, -, -, howns⟩ := h
  rcases hn.owns_cases howns with ⟨_, hname, -⟩ | ⟨_, _, _, hmember, hobject, -⟩
  · cases hname.symm.trans hs
  · cases hmember.symm.trans hs
    exact hobject

theorem not_owning (hn : a.Subtree lo id n) (hqualified : n.shape.qualified? = some (owner, name)) :
    ¬(a.tree id).Owning tokens := by
  rintro ⟨t, k, -, -, howns⟩
  rcases hn.owns_cases howns with ⟨_, hs, -⟩ | ⟨_, _, _, hs, -⟩
  · rw [hs] at hqualified
    cases hqualified
  · rw [hs] at hqualified
    cases hqualified

theorem qualified?_tree (hqualified : n.shape.qualified? = some (owner, name)) :
    (n.shape.map a.tree).qualified? = some (a.tree owner, a.tree name) := by
  rw [Shape.qualified?_map, hqualified]
  rfl

end Subtree

def Kept (a : Arena) (tokens : List Token) (id : NodeId) : Prop :=
  (a.tree id).Tight tokens ∨ a.Owner id ∧ (a.tree id).Owning tokens

theorem Kept.child (h : a.Kept tokens id) (hn : a.Subtree lo id n) (hc : c ∈ n.children .full) :
    a.Kept tokens c := by
  rcases h with htight | ⟨howner, t, k, -, -, howns⟩
  · rw [hn.tree_eq] at htight
    rcases Shape.owner_or_unqualified hc with ⟨name, hqualified⟩ | hc
    · exact .inr ⟨.qualifier hn.shape? hqualified,
        htight.owning (Subtree.qualified?_tree hqualified)⟩
    · obtain ⟨-, -, inner⟩ := htight
      rw [Shape.unqualified_map] at inner
      exact .inl (inner _ (List.mem_map_of_mem hc))
  · rcases hn.owns_cases howns with ⟨name, hs, -⟩ |
      ⟨object, property, name, hs, hobject, hproperty, -⟩
    · rw [Node.children, hs] at hc
      cases hc
    · rw [Node.children, hs] at hc
      rcases List.mem_cons.mp hc with rfl | hc
      · exact .inr ⟨.object howner (hs ▸ hn.shape?), hobject⟩
      · obtain rfl := List.mem_singleton.mp hc
        rw [Kept, hproperty]
        exact .inl (.leaf rfl rfl)

theorem Parsed.kept (h : a.Parsed) (hroot : (a.tree a.root).Tight tokens)
    (hid : id.index < a.size) : a.Kept tokens id := by
  obtain ⟨b, -, -, hb, rfl, -⟩ := h.exists_below (h.whole ▸ hid)
  -- what holds of the root is handed on to the children, all the way down to the node
  have hdown {b b' : Branch} (hb : a.Below b b') (hkept : a.Kept tokens b.target) :
      a.Kept tokens b'.target := by
    induction hb with
    | refl b => exact hkept
    | @child b b' c hc hb ih =>
      obtain ⟨low, n, hn, hc⟩ := h.subtree_of_child hc
      exact ih (hkept.child hn hc)
  exact hdown hb (.inl hroot)

theorem Kept.tight (h : a.Kept tokens id) (hn : a.Subtree lo id n) {owner name : NodeId}
    (hqualified : n.shape.qualified? = some (owner, name)) : (a.tree id).Tight tokens := by
  rcases h with htight | ⟨-, howning⟩
  · exact htight
  · exact absurd howning (hn.not_owning hqualified)

theorem Owner.owning (howner : a.Owner id) (h : a.Parsed) (hroot : (a.tree a.root).Tight tokens) :
    (a.tree id).Owning tokens := by
  induction howner with
  | @qualifier d owner name s hs hqualified =>
    obtain ⟨n, hd, rfl⟩ := Option.map_eq_some_iff.mp hs
    obtain ⟨low, hn⟩ := h.subtree_of_get? hd
    have htight := (h.kept hroot (lt_size_of_get? hd)).tight hn hqualified
    rw [hn.tree_eq] at htight
    exact htight.owning (Subtree.qualified?_tree hqualified)
  | object howner hs ih =>
    obtain ⟨n, hd, hshape⟩ := Option.map_eq_some_iff.mp hs
    obtain ⟨low, hn⟩ := h.subtree_of_get? hd
    exact hn.owning_object ih hshape

namespace Reads

variable {object property owner name : NodeId} {computed : Bool} {t k : Token} {offset : Nat}

theorem child_span (h : a.Reads source tokens body) (hn : a.Subtree lo id n)
    (hc : c ∈ n.children .full) :
    ∃ m, a.get? c = some m ∧ (a.tree c).span = m.location.span ∧
      n.location.startOffset ≤ m.location.startOffset ∧
      Token.Passes tokens m.location.startOffset m.location.endOffset ∧
      m.location.endOffset ≤ n.location.endOffset := by
  obtain ⟨m, low, hm, -, -⟩ := hn.inner.subtree hc
  obtain ⟨hinside, hcovers, -⟩ := h.children_placed hn
  obtain ⟨-, -, hproper⟩ := hcovers c hc
  have hbounds := hinside c hc
  rw [hm.tree_span] at hproper hbounds
  exact ⟨m, hm.node, hm.tree_span, hbounds.1, hproper, hbounds.2⟩

theorem member_placed (h : a.Reads source tokens body) (hroot : (a.tree a.root).Tight tokens)
    (hn : a.get? id = some n) (hs : n.shape = .memberExpression object property computed) :
    ∃ o p, a.get? object = some o ∧ a.get? property = some p ∧
      n.location.startOffset = o.location.startOffset ∧
      (computed = false → ¬a.Owner id → n.location.endOffset = p.location.endOffset) := by
  obtain ⟨low, hsub⟩ := h.parsed.subtree_of_get? hn
  have hchildren := children_of_member hs
  obtain ⟨o, ho, hospan, -⟩ := h.child_span hsub (c := object) (by simp [hchildren])
  obtain ⟨p, hp, hpspan, hlow, ⟨hproper, -⟩, hhigh⟩ :=
    h.child_span hsub (c := property) (by simp [hchildren])
  have hostart : (a.tree object).start = o.location.startOffset := congrArg Span.start hospan
  have hpstart : (a.tree property).start = p.location.startOffset := congrArg Span.start hpspan
  rcases h.parsed.kept hroot (lt_size_of_get? hn) with htight | ⟨howner, t, k, -, -, howns⟩
  · rw [hsub.tree_eq] at htight
    obtain ⟨hmember, -, -⟩ := htight
    obtain ⟨hstart, hstop⟩ := hmember _ _ _ (congrArg (Shape.map a.tree) hs)
    refine ⟨o, p, ho, hp, hstart.trans hostart, fun hcomputed _ => ?_⟩
    obtain ⟨stop, hnstop, hpstop⟩ := hstop hcomputed
    rw [hpspan, hpstart] at hpstop
    have hnstop : n.location.endOffset = max stop n.location.startOffset := hnstop
    have hpstop : p.location.endOffset = max stop p.location.startOffset := hpstop
    omega
  · rcases hsub.owns_cases howns with ⟨_, hname, -⟩ | ⟨_, _, _, hmember, -, -, hspan⟩
    · cases hname.symm.trans hs
    · cases hmember.symm.trans hs
      exact ⟨o, p, ho, hp, (congrArg Span.start hspan).trans hostart,
        fun _ hnot => absurd howner hnot⟩

theorem owner_cases (h : a.Reads source tokens body) (hn : a.Subtree lo id n)
    (hnext : [t, k] <:+: tokens) (howns : (a.tree id).Owns tokens t k) :
    (∃ name, n.shape = .identifier name ∧ n.location.endOffset = t.span.stop) ∨
      ∃ object property p, n.shape = .memberExpression object property false ∧
        a.get? property = some p ∧ p.location.endOffset = t.span.stop ∧
        n.location.endOffset = k.span.stop := by
  have hrange := h.chain.range_eq (hnext.subset (by simp : t ∈ [t, k]))
  rcases hn.owns_cases howns with ⟨name, hs, hspan⟩ |
    ⟨object, property, _, hs, -, hproperty, hspan⟩
  · rw [hrange] at hspan
    exact .inl ⟨name, hs, congrArg Span.stop hspan⟩
  · obtain ⟨p, hp, hpspan, hlow, ⟨hproper, -⟩, -⟩ :=
      h.child_span hn (c := property) (by simp [children_of_member hs])
    obtain ⟨hbehind, hwidth⟩ := h.chain.next_behind hnext
    rw [hproperty, hrange] at hpspan
    have hpstop : t.span.stop = p.location.endOffset := congrArg Span.stop hpspan
    have hnstart : n.location.startOffset = (a.tree object).start := congrArg Span.start hspan
    have hnstop : n.location.endOffset = max k.span.stop (a.tree object).start :=
      congrArg Span.stop hspan
    exact .inr ⟨object, property, p, hs, hp, hpstop.symm, by omega⟩

theorem owner_placed (h : a.Reads source tokens body) (hroot : (a.tree a.root).Tight tokens)
    (hn : a.get? id = some n) (hs : n.shape = .memberExpression object property computed)
    (howner : a.Owner id) :
    computed = false ∧ ∃ p t k, a.get? property = some p ∧ [t, k] <:+: tokens ∧
      k.kind.isSeparator = true ∧ p.location.endOffset = t.span.stop ∧
      n.location.endOffset = k.span.stop ∧
      (Text.byteLength source.toList ≤ maxOffset →
        p.location.endOffset < n.location.endOffset) := by
  obtain ⟨low, hsub⟩ := h.parsed.subtree_of_get? hn
  obtain ⟨t, k, hnext, hk, howns⟩ := howner.owning h.parsed hroot
  rcases h.owner_cases hsub hnext howns with ⟨_, hname, -⟩ | ⟨_, _, p, hmember, hp, hpstop, hnstop⟩
  · cases hname.symm.trans hs
  · cases hmember.symm.trans hs
    refine ⟨rfl, p, t, k, hp, hnext, hk, hpstop, hnstop, fun hsize => ?_⟩
    -- the separator is behind the property and has a width
    obtain ⟨hle, -⟩ := h.chain.next_behind hnext
    have hwidth := (h.filled hsize).separator (hnext.subset (by simp)) hk
    omega

theorem le_property (h : a.Reads source tokens body) (hn : a.Subtree lo id n)
    (hs : n.shape = .memberExpression object property computed) {m p : Node}
    (hc : c ∈ n.children .full) (hm : a.get? c = some m) (hp : a.get? property = some p) :
    m.location.endOffset ≤ p.location.endOffset := by
  have hchildren := children_of_member hs
  have hapart := h.ranged.apart id n hn.node
  rw [hchildren] at hc hapart
  rcases List.mem_cons.mp hc with rfl | hc
  · have hle := (List.pairwise_cons.mp hapart).1 property List.mem_cons_self m p hm hp
    obtain ⟨p', hp', -, -, ⟨hproper, -⟩, -⟩ :=
      h.child_span hn (c := property) (by simp [hchildren])
    obtain rfl := Option.some.inj (hp.symm.trans hp')
    omega
  · obtain rfl := List.mem_singleton.mp hc
    obtain rfl := Option.some.inj (hm.symm.trans hp)
    exact Nat.le_refl _

theorem owner_not_hit (h : a.Reads source tokens body) (hn : a.Subtree lo id n)
    (hnext : [t, k] <:+: tokens) (howns : (a.tree id).Owns tokens t k)
    (hoffset : t.span.stop < offset) (hc : c ∈ a.children .full id) : a.hits offset c = false := by
  rw [hn.children_eq] at hc
  rcases h.owner_cases hn hnext howns with ⟨_, hs, -⟩ | ⟨_, property, p, hs, hp, hpstop, -⟩
  · rw [Node.children, hs] at hc
    cases hc
  · obtain ⟨m, hm, -⟩ := h.child_span hn hc
    have hle := h.le_property hn hs hc hm hp
    refine Bool.eq_false_iff.mpr fun hhit => ?_
    rw [hits_iff hm] at hhit
    omega

theorem declared (h : a.Reads source tokens body) (hfilled : Token.Filled tokens)
    (hroot : (a.tree a.root).Tight tokens) (hn : a.Subtree lo id n) (hqualified : n.shape.qualified? = some (owner, name)) :
    ∃ (t k k' : Token) (text : String), [t, k] <:+: tokens ∧ (a.tree owner).Owns tokens t k ∧
      a.tree name = .node k'.range (.identifier text) ∧ t.span.stop < k.span.stop ∧
      k.span.stop ≤ k'.span.start := by
  have htight := (h.parsed.kept hroot (lt_size_of_get? hn.node)).tight hn hqualified
  rw [hn.tree_eq] at htight
  obtain ⟨-, hdeclared, -⟩ := htight
  obtain ⟨t, k, k', hnext, hseparator, howns, text, hid⟩ :=
    hdeclared _ _ (Subtree.qualified?_tree hqualified)
  have hfront : [t, k] <:+: tokens := (List.prefix_append [t, k] [k']).isInfix.trans hnext
  have hback : [k, k'] <:+: tokens := (List.suffix_append [t] [k, k']).isInfix.trans hnext
  obtain ⟨hle, -⟩ := h.chain.next_behind hfront
  have hwidth := hfilled.separator (hfront.subset (by simp)) hseparator
  exact ⟨t, k, k', text, hfront, howns, hid, by omega, (h.chain.next_behind hback).1⟩

theorem name_found (h : a.Reads source tokens body) (hfilled : Token.Filled tokens)
    (hroot : (a.tree a.root).Tight tokens) {s : Shape NodeId} (hs : a.shape? id = some s) (hqualified : s.qualified? = some (owner, name)) :
    ∃ o i, a.get? owner = some o ∧ a.get? name = some i ∧
      (o.kind = .identifier → o.location.endOffset < i.location.startOffset) ∧
      a.branchAt i.location.startOffset =
        a.branchTo (if o.location.endOffset = i.location.startOffset then owner else name) := by
  obtain ⟨n, hn, rfl⟩ := Option.map_eq_some_iff.mp hs
  obtain ⟨low, hsub⟩ := h.parsed.subtree_of_get? hn
  obtain ⟨parts, hparts⟩ := Shape.children_of_qualified? hqualified
  have hchildren : n.children .full = owner :: name :: parts := hparts
  obtain ⟨t, k, k', text, hnext, howns, hname, htk, hkk'⟩ :=
    h.declared hfilled hroot hsub hqualified
  obtain ⟨o, ho, -, holow, hoproper, hohigh⟩ :=
    h.child_span hsub (c := owner) (by simp [hchildren])
  obtain ⟨i, hi, hispan, hilow, hiproper, hihigh⟩ :=
    h.child_span hsub (c := name) (by simp [hchildren])
  have howidth := hoproper.lt hfilled
  have hiwidth := hiproper.lt hfilled
  rw [hname] at hispan
  have histart : k'.span.start = i.location.startOffset := congrArg Span.start hispan
  obtain ⟨low', hosub⟩ := h.parsed.subtree_of_get? ho
  have hstop : o.location.endOffset = t.span.stop ∨
      o.kind ≠ .identifier ∧ o.location.endOffset = k.span.stop := by
    rcases h.owner_cases hosub hnext howns with ⟨_, -, hstop⟩ | ⟨_, _, _, hs, -, -, hstop⟩
    · exact .inl hstop
    · refine .inr ⟨fun hkind => ?_, hstop⟩
      rw [Node.kind, hs] at hkind
      cases hkind
  have howner : a.hits i.location.startOffset owner = true ↔
      o.location.endOffset = i.location.startOffset := by
    rw [hits_iff ho]
    omega
  refine ⟨o, i, ho, hi, fun hkind => ?_, ?_⟩
  · rcases hstop with hstop | ⟨hne, -⟩
    · omega
    · exact absurd hkind hne
  -- the owner is the first child, so it is found wherever it reaches
  split
  · next hmeet =>
    refine h.ranged.branchAt_eq_child h.parsed hn (by omega) (by omega) ?_ fun c hc => ?_
    · rw [hsub.children_eq, hchildren, List.find?_cons_of_pos (howner.mpr hmeet)]
    · exact h.owner_not_hit hosub hnext howns (by omega) hc
  · next hmeet =>
    have hhit : a.hits i.location.startOffset name = true := (hits_iff hi).mpr (by omega)
    refine h.ranged.branchAt_eq_child h.parsed hn (by omega) (by omega) ?_ fun c hc => ?_
    · rw [hsub.children_eq, hchildren, List.find?_cons_of_neg (mt howner.mp hmeet),
        List.find?_cons_of_pos hhit]
    · obtain ⟨low'', hisub⟩ := h.parsed.subtree_of_get? hi
      have hleaf := hisub.children_tree
      rw [hname] at hleaf
      rw [hisub.children_eq, List.map_eq_nil_iff.mp hleaf.symm] at hc
      cases hc

end Reads

/-- Member expressions of a source stand where they should, but for owners in qualified names. -/
theorem membersPlaced_parse (h : parse source = .ok a) :
    ∃ tokens comments, Token.tokenize source.toList = .ok (tokens, comments) ∧
      a.MembersPlaced source tokens := by
  obtain ⟨tokens, body, comments, ht, hreads, hroot⟩ := reads_tight h
  refine ⟨tokens, comments, ht, ?_, ?_, ?_⟩
  · exact fun id n object property computed hn hs => hreads.member_placed hroot hn hs
  · exact fun id n object property computed hn hs => hreads.owner_placed hroot hn hs
  · exact fun hsize d s owner name hs => hreads.name_found (hreads.filled hsize) hroot hs

theorem membersPlaced_parse_chain : ∃ a tokens comments,
    parse "class A.B. C \x7b\x7d (a).b[0].c;" = .ok a ∧ a.size = 15 ∧
      Token.tokenize "class A.B. C \x7b\x7d (a).b[0].c;".toList =
        .ok (tokens, comments) ∧
      a.MembersPlaced "class A.B. C \x7b\x7d (a).b[0].c;" tokens := by
  have hparsed : (parse "class A.B. C \x7b\x7d (a).b[0].c;").toOption.any
      (fun a => a.size = 15) = true := by decide +kernel
  obtain ⟨a, ha, hsize⟩ := exists_ok hparsed
  obtain ⟨tokens, comments, ht, hplaced⟩ := membersPlaced_parse ha
  exact ⟨a, tokens, comments, ha, of_decide_eq_true hsize, ht, hplaced⟩

theorem member_ends_behind_separator : ∃ a, parse "function A::B::f() \x7b\x7d" = .ok a ∧
    a.shape? ⟨5⟩ = some (.functionDeclaration (some ⟨2⟩) ⟨3⟩ [] ⟨4⟩) ∧
    a.shape? ⟨2⟩ = some (.memberExpression ⟨0⟩ ⟨1⟩ false) ∧
    (a.location? ⟨1⟩).map Location.span = some ⟨12, 13⟩ ∧
    (a.location? ⟨2⟩).map Location.span = some ⟨9, 15⟩ ∧
    (a.location? ⟨3⟩).map Location.span = some ⟨15, 16⟩ ∧
    (a.branchAt 15).map Branch.path = some [⟨6⟩, ⟨5⟩, ⟨2⟩] := by
  have hparsed : (parse "function A::B::f() \x7b\x7d").toOption.any (fun a =>
      a.shape? ⟨5⟩ = some (.functionDeclaration (some ⟨2⟩) ⟨3⟩ [] ⟨4⟩) ∧
      a.shape? ⟨2⟩ = some (.memberExpression ⟨0⟩ ⟨1⟩ false) ∧
      (a.location? ⟨1⟩).map Location.span = some ⟨12, 13⟩ ∧
      (a.location? ⟨2⟩).map Location.span = some ⟨9, 15⟩ ∧
      (a.location? ⟨3⟩).map Location.span = some ⟨15, 16⟩ ∧
      (a.branchAt 15).map Branch.path = some [⟨6⟩, ⟨5⟩, ⟨2⟩]) = true := by decide +kernel
  obtain ⟨a, ha, hfacts⟩ := exists_ok hparsed
  exact ⟨a, ha, of_decide_eq_true hfacts⟩

end Arena

end SquirrelAnalyzer
