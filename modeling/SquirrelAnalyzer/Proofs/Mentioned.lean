import Mathlib.Data.List.Find
import SquirrelAnalyzer.Proofs.Facts
import SquirrelAnalyzer.Proofs.PostOrder

namespace SquirrelAnalyzer

open Text

theorem perm_insertBy {α : Type} (le : α → α → Bool) (x : α) (l : List α) :
    (insertBy le x l).Perm (x :: l) := by
  induction l with
  | nil => exact .refl _
  | cons y ys ih =>
    rw [insertBy]
    split
    · exact .refl _
    · exact (ih.cons y).trans (.swap x y ys)

theorem perm_sortBy {α : Type} (le : α → α → Bool) (l : List α) : (sortBy le l).Perm l := by
  induction l with
  | nil => exact .refl _
  | cons x xs ih => exact (perm_insertBy le x (sortBy le xs)).trans (ih.cons x)

namespace Token

def InOrder (offset : Nat) (comments : List RawComment) : Prop :=
  (∀ c ∈ comments, offset ≤ c.span.start ∧ c.span.start ≤ c.span.stop) ∧
    comments.Pairwise fun c d => c.span.stop ≤ d.span.start

theorem InOrder.append {offset stop : Nat} {comments comments' : List RawComment}
    (h : InOrder offset comments) (h' : InOrder stop comments') (hle : offset ≤ stop)
    (hstop : ∀ c ∈ comments, c.span.stop ≤ stop) : InOrder offset (comments ++ comments') := by
  refine ⟨fun c hc => ?_, List.pairwise_append.mpr ⟨h.2, h'.2, fun c hc d hd => ?_⟩⟩
  · rcases List.mem_append.mp hc with hc | hc
    · exact h.1 c hc
    · exact ⟨Nat.le_trans hle (h'.1 c hc).1, (h'.1 c hc).2⟩
  · exact Nat.le_trans (hstop c hc) (h'.1 d hd).1

theorem inOrder_documentation (offset : Nat) (ts : List Trivia) :
    InOrder offset (documentation offset ts) ∧ ∀ c ∈ documentation offset ts,
      c.span.stop ≤ offset + byteLength (ts.flatMap Trivia.text) := by
  induction ts generalizing offset with
  | nil => exact ⟨⟨nofun, List.Pairwise.nil⟩, nofun⟩
  | cons t ts ih =>
    obtain ⟨⟨hbehind, hpairwise⟩, hstop⟩ := ih (offset + byteLength t.text)
    rw [List.flatMap_cons, byteLength_append, ← Nat.add_assoc, documentation]
    split
    · refine ⟨⟨List.forall_mem_cons.mpr ⟨⟨Nat.le_refl _, Nat.le_add_right ..⟩, fun c hc => ?_⟩,
        List.pairwise_cons.mpr ⟨fun c hc => (hbehind c hc).1, hpairwise⟩⟩,
        List.forall_mem_cons.mpr ⟨Nat.le_add_right .., hstop⟩⟩
      exact ⟨Nat.le_trans (Nat.le_add_right ..) (hbehind c hc).1, (hbehind c hc).2⟩
    · refine ⟨⟨fun c hc => ?_, hpairwise⟩, hstop⟩
      exact ⟨Nat.le_trans (Nat.le_add_right ..) (hbehind c hc).1, (hbehind c hc).2⟩

theorem inOrder_gather {offset : Nat} {cs : List Char} {tokens : List Token}
    {comments : List RawComment} (h : gather (itemsFrom offset cs) = .ok (tokens, comments)) :
    InOrder offset comments := by
  induction hn : cs.length using Nat.strongRecOn generalizing offset cs tokens comments with
  | ind n ih =>
    have hfirst := inOrder_documentation offset (Pull.ofText cs).trivia
    rw [itemsFrom] at h
    split at h
    · obtain ⟨t, ts, cs', -, hts, -, rfl⟩ := gather_cons h
      cases hts
      rw [List.append_nil]
      exact hfirst.1
    · next hlast =>
      obtain ⟨t, ts, cs', -, hts, -, rfl⟩ := gather_cons h
      have hlt := Pull.length_rest_lt fun he => hlast (Pull.isLast_iff.mpr he)
      refine hfirst.1.append (ih _ (hn ▸ hlt) hts rfl) ?_ fun c hc => ?_
      · exact Nat.le_trans (Nat.le_add_right ..) (Nat.le_add_right ..)
      · exact Nat.le_trans (hfirst.2 c hc) (Nat.le_add_right ..)

end Token

structure Mention where
  cls : NodeId
  name : String
  tag : Doc.Attribute
  accessor : Option (AccessorKind × NodeId)
  location : Location

namespace Arena

def methodClass? (a : Arena) (id : NodeId) : Option NodeId :=
  if a.kind? id = some .methodDefinition then a.enclosingClass? id else none

def accessorMention? (a : Arena) (target : NodeId) (tag : Doc.Attribute) (kind : AccessorKind)
    (location : Location) : Option Mention :=
  tag.name.bind fun name => (a.methodClass? target).map fun cls =>
    ⟨cls, name, tag, some (kind, target), location⟩

def mention? (a : Arena) (config : Config) (target : NodeId) (location : Location)
    (tag : Doc.Attribute) : Option Mention :=
  match tag.kind with
  | "property" => tag.name.bind fun name => (a.propertyOwner? config target).map fun cls =>
      ⟨cls, name, tag, none, location⟩
  | "getter" => a.accessorMention? target tag .getter location
  | "setter" => a.accessorMention? target tag .setter location
  | _ => none

def mentionsOf (a : Arena) (config : Config) (c : Doc.Comment) : List Mention :=
  match SourceUnit.documentedBy? a.documentable c with
  | some target => c.attributes.filterMap (a.mention? config target c.location)
  | none => []

def mentions (a : Arena) (config : Config) : List Mention :=
  a.comments.flatMap (a.mentionsOf config)

def IsClass (a : Arena) (id : NodeId) : Prop := ∃ kind, a.kind? id = some kind ∧ kind.isClass = true

variable {a a' : Arena} {id v cls : NodeId}

theorem isClass_of_getD (h : ((a.kind? id).map Kind.isClass).getD false = true) : a.IsClass id := by
  cases hk : a.kind? id with
  | none =>
    rw [hk] at h
    cases h
  | some kind =>
    rw [hk] at h
    exact ⟨kind, hk, h⟩

theorem isClass_of_classOf? (h : a.classOf? id = some cls) : a.IsClass cls :=
  isClass_of_getD (Option.filter_eq_some_iff.mp h).2

theorem isClass_of_enclosingClass? (h : a.enclosingClass? id = some cls) : a.IsClass cls := by
  obtain ⟨b, -, h⟩ := Option.bind_eq_some_iff.mp h
  obtain ⟨c, hc, h⟩ := Option.bind_eq_some_iff.mp h
  cases h
  unfold Branch.endingAtAny at hc
  have hclass := List.find?_some hc
  exact isClass_of_getD hclass

theorem isClass_of_propertyOwner? {config : Config} (h : a.propertyOwner? config id = some cls) :
    a.IsClass cls := by
  rcases Option.or_eq_some_iff.mp h with h | ⟨-, h⟩
  · exact isClass_of_classOf? h
  · obtain ⟨s, -, h⟩ := Option.bind_eq_some_iff.mp h
    split at h
    · obtain ⟨name, -, h⟩ := Option.bind_eq_some_iff.mp h
      split at h
      · exact isClass_of_enclosingClass? h
      · cases h
    · cases h

theorem IsClass.lt_size (h : a.IsClass cls) : cls.index < a.size := by
  obtain ⟨kind, hk, -⟩ := h
  exact lt_size_of_kind? hk

section Mention

variable {config : Config} {target : NodeId} {location : Location} {tag : Doc.Attribute}

theorem mention?_of_accessor {kind : AccessorKind} (h : tag.kind = kind.tag) :
    a.mention? config target location tag = a.accessorMention? target tag kind location := by
  unfold mention?
  rw [h]
  cases kind <;> rfl

theorem mention?_eq_none_of_silent
    (hproperty : tag.kind = "property" → ∀ name, tag.name = some name →
      a.propertyOwner? config target = none)
    (haccessor : tag.kind ∈ ["getter", "setter"] → a.kind? target = some .methodDefinition →
      ∀ name, tag.name = some name → a.enclosingClass? target = none) :
    a.mention? config target location tag = none := by
  have hmethod (kind : AccessorKind) (hkind : tag.kind ∈ ["getter", "setter"]) :
      a.accessorMention? target tag kind location = none := by
    unfold accessorMention? methodClass?
    refine Option.bind_eq_none_iff.mpr fun name hname => ?_
    split
    · next hm => rw [haccessor hkind hm name hname, Option.map_none]
    · rfl
  unfold mention?
  split
  · next hkind =>
    refine Option.bind_eq_none_iff.mpr fun name hname => ?_
    rw [hproperty hkind name hname, Option.map_none]
  · next hkind => exact hmethod .getter (by simp [hkind])
  · next hkind => exact hmethod .setter (by simp [hkind])
  · rfl

theorem mention?_eq_none (h : tag.kind ∉ ["property", "getter", "setter"]) :
    a.mention? config target location tag = none :=
  mention?_eq_none_of_silent (fun hkind => absurd (by simp [hkind]) h)
    fun hkind => absurd (List.mem_cons_of_mem _ hkind) h

end Mention

theorem Parsed.valueOf?_lt (h : a.Parsed) (hv : a.valueOf? id = some v) : v.index < a.size := by
  have hchild {s : Shape NodeId} (hs : a.shape? id = some s) (hmem : v ∈ s.children .full) :
      v.index < a.size :=
    Nat.lt_trans (h.child_lt (children_of_shape? hs .full ▸ hmem)) (lt_size_of_shape? hs)
  unfold valueOf? at hv
  split at hv
  · cases hv
  · next hs =>
    cases hv
    exact hchild hs (by simp [Shape.children, Shape.kind, Kind.fields, Shape.field])
  · next hs =>
    subst hv
    exact hchild hs (by simp [Shape.children, Shape.kind, Kind.fields, Shape.field])
  · next hs =>
    subst hv
    exact hchild hs (by simp [Shape.children, Shape.kind, Kind.fields, Shape.field])
  · next hs =>
    cases hv
    exact hchild hs (by simp [Shape.children, Shape.kind, Kind.fields, Shape.field])
  · next hs =>
    cases hv
    exact lt_size_of_shape? hs

namespace Extends

variable (h : a.Extends a')

include h

theorem kind?_of_lt (hid : id.index < a.size) : a'.kind? id = a.kind? id := by
  rw [kind?_eq_map, kind?_eq_map, h.shape?_eq hid]

variable (ha : a.Parsed) (hid : id.index < a.size)

include hid

theorem valueOf?_eq : a'.valueOf? id = a.valueOf? id := by
  rw [valueOf?, valueOf?, h.shape?_eq hid]

include ha

theorem functionOf?_eq : a'.functionOf? id = a.functionOf? id := by
  rw [functionOf?, functionOf?, h.valueOf?_eq hid]
  cases hv : a.valueOf? id with
  | none => rfl
  | some v => simp only [Option.filter_some, h.kind?_of_lt (ha.valueOf?_lt hv)]

theorem classOf?_eq : a'.classOf? id = a.classOf? id := by
  rw [classOf?, classOf?, h.valueOf?_eq hid]
  cases hv : a.valueOf? id with
  | none => rfl
  | some v => simp only [Option.filter_some, h.kind?_of_lt (ha.valueOf?_lt hv)]

theorem enclosingClass?_eq : a'.enclosingClass? id = a.enclosingClass? id := by
  obtain ⟨b, -, -, hb, rfl, -⟩ := ha.exists_below (ha.whole ▸ hid)
  have hroot : a'.rootBranch = a.rootBranch := by rw [rootBranch, rootBranch, h.unit, h.root]
  have hto' : a'.branchTo b.target = some b :=
    (h.rooted ha.toRooted).branchTo_of_below (hroot ▸ h.below hb)
  have hholds := ha.holds_root.below (ha.ascending ha.whole) hb
  rw [enclosingClass?, enclosingClass?, hto', ha.branchTo_of_below hb]
  have hsame : b.endingAtAny a' Kind.isClass = b.endingAtAny a Kind.isClass := by
    refine List.find?_congr fun c hc => ?_
    have hc : c.target.index < a.size := by
      rcases List.mem_cons.mp hc with rfl | hc
      · exact hid
      · obtain ⟨e, he, rfl⟩ := List.mem_map.mp hc
        exact (hholds.of_enclosing he).target
    rw [h.kind?_of_lt hc]
  simp only [Option.bind_eq_bind, Option.bind_some, hsame]

theorem propertyOwner?_eq (config : Config) :
    a'.propertyOwner? config id = a.propertyOwner? config id := by
  rw [propertyOwner?, propertyOwner?, h.classOf?_eq ha hid, h.shape?_eq hid,
    h.enclosingClass?_eq ha hid]
  congr 1
  cases hs : a.shape? id with
  | none => rfl
  | some s =>
    cases s with
    | methodDefinition kind isStatic key value =>
      have hchild : key ∈ a.children .full id := by
        rw [children_of_shape? hs]
        simp [Shape.children, Shape.kind, Kind.fields, Shape.field]
      have hkey : key.index < a.size := Nat.lt_trans (ha.child_lt hchild) hid
      simp only [Option.bind_eq_bind, Option.bind_some, identifierName?, h.shape?_eq hkey]
    | _ => rfl

theorem parameterNamed?_lt {name : String} (hv : a'.parameterNamed? id name = some v) :
    v.index < a.size := by
  obtain ⟨function, hf, hv⟩ := Option.bind_eq_some_iff.mp hv
  obtain ⟨s, hs, hv⟩ := Option.bind_eq_some_iff.mp hv
  obtain ⟨params, hparams, hv⟩ := Option.bind_eq_some_iff.mp hv
  rw [h.functionOf?_eq ha hid] at hf
  have hlt := ha.valueOf?_lt (Option.filter_eq_some_iff.mp hf).1
  rw [h.shape?_eq hlt] at hs
  have hmem : v ∈ s.boundNames := by
    have hmem := List.mem_of_find?_eq_some hv
    cases s <;> simp only [Shape.params?, Option.some.injEq, reduceCtorEq] at hparams <;>
      exact hparams ▸ hmem
  exact Nat.lt_trans (ha.child_lt (mem_children_of_boundName hs hmem)) hlt

end Extends

theorem documentable_cases (hnumbered : ∀ i (h : i < a.nodes.size), a.nodes[i].id = ⟨i⟩)
    {p : Nat × NodeId} (hp : p ∈ a.documentable) :
    (∃ m kind declarations, a.shape? m = some (.variableDeclaration kind declarations) ∧
      p.2 ∈ declarations) ∨ a.kind? p.2 = some .assignmentExpression ∨
    ∃ s, a.shape? p.2 = some s ∧ s.kind ∈ ([.functionDeclaration, .classDeclaration,
      .enumDeclaration, .methodDefinition, .propertyDefinition, .enumMember] : List Kind) := by
  obtain ⟨n, hn, hp⟩ := List.mem_filterMap.mp hp
  obtain ⟨id, hid, rfl⟩ := Option.map_eq_some_iff.mp hp
  have hn := (List.mem_filter.mp ((perm_sortBy ..).mem_iff.mp hn)).1
  obtain ⟨i, hi, rfl⟩ := List.getElem_of_mem hn
  have hi : i < a.nodes.size := hi
  rw [Array.getElem_toList] at hid
  have hs : a.shape? ⟨i⟩ = some a.nodes[i].shape := by
    simp only [shape?, get?, Array.getElem?_eq_getElem hi, Option.map_some]
  unfold documented? at hid
  rw [hnumbered i hi] at hid
  cases hshape : a.nodes[i].shape with
  | variableDeclaration kind declarations =>
    rw [hshape] at hid hs
    exact .inl ⟨_, kind, declarations, hs, List.mem_of_head? hid⟩
  | expressionStatement expression =>
    rw [hshape] at hid
    dsimp only at hid
    split at hid
    · next hk =>
      cases hid
      exact .inr (.inl hk)
    · cases hid
  | functionDeclaration | classDeclaration | enumDeclaration | methodDefinition
  | propertyDefinition | enumMember =>
    rw [hshape] at hid hs
    cases hid
    exact .inr (.inr ⟨_, hs, by simp [Shape.kind]⟩)
  | _ =>
    rw [hshape] at hid
    cases hid

theorem mem_children_of_declarations {m d : NodeId} {kind : VariableKind}
    {declarations : List NodeId} (hs : a.shape? m = some (.variableDeclaration kind declarations))
    (hd : d ∈ declarations) : d ∈ a.children .full m := by
  rw [children_of_shape? hs]
  simpa [Shape.children, Shape.kind, Kind.fields, Shape.field] using hd

theorem Parsed.lt_size_of_documentedBy? (h : a.Parsed)
    (hnum : ∀ i (h : i < a.nodes.size), a.nodes[i].id = ⟨i⟩) {c : Doc.Comment}
    (hc : SourceUnit.documentedBy? a.documentable c = some id) : id.index < a.size := by
  obtain ⟨p, hp, rfl⟩ := Option.map_eq_some_iff.mp hc
  rcases documentable_cases hnum (List.mem_of_find?_eq_some hp) with
    ⟨m, kind, declarations, hs, hd⟩ | hk | ⟨s, hs, -⟩
  · exact Nat.lt_trans (h.child_lt (mem_children_of_declarations hs hd)) (lt_size_of_shape? hs)
  · exact lt_size_of_kind? hk
  · exact lt_size_of_shape? hs

theorem comments_inOrder {source : String} (h : parse source = .ok a) :
    a.comments.Pairwise fun c d => c.location.endOffset ≤ d.location.startOffset := by
  obtain ⟨tokens, body, hreads⟩ := reads_parse h
  obtain ⟨comments, htokens, rfl⟩ := hreads.arena
  obtain ⟨ts, cs, hgather, -, rfl⟩ := Token.exists_gather htokens
  -- words that stand for offsets keep their order
  refine List.pairwise_map.mpr (List.pairwise_map.mpr ?_)
  exact (Token.inOrder_gather hgather).2.imp toOffset_mono

end Arena

end SquirrelAnalyzer
