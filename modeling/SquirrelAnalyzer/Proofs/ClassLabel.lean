import SquirrelAnalyzer.Proofs.Sequel
import SquirrelAnalyzer.Proofs.StoredValue
import SquirrelAnalyzer.Proofs.Trail

namespace SquirrelAnalyzer

def TypeLabel.className? : TypeLabel → Option String
  | classNamed name | instanceNamed name => some name
  | _ => none

theorem SourceUnit.className?_classLabel (u : SourceUnit) (x : Branch) (isInstance : Bool) :
    (u.classLabel x isInstance).className? = some (u.className x) := by
  unfold classLabel
  dsimp only
  rw [apply_ite TypeLabel.className?]
  exact ite_self _

def Arena.borrowedName? (a : Arena) : Shape NodeId → Option String
  | .assignmentPattern key _ | .classDeclaration _ key _ _ | .propertyDefinition _ true key _ =>
    a.identifierName? key
  | _ => none

namespace Tree

theorem Fits.role_of_classExpression {t : Tree} {r : Role} (h : t.Fits r)
    (hk : t.shape.kind = .classExpression) : r = .expression ∨ r = .initial := by
  induction h with
  | ofBlock _ ih | ofVariables _ ih | initialVariables _ ih | ofName _ ih | propertyName _ ih
  | ownerName _ ih | identifier _ ih | function _ ih => rcases ih hk with h | h <;> cases h
  | ofExpression => exact .inr rfl
  | classExpression => exact .inl rfl
  | _ => cases hk

end Tree

def Kind.holdsExpression (k : Kind) : Bool :=
  k.partRoles.contains .expression || k.partRoles.contains .initial

namespace Arena

variable {a : Arena} {m c body : NodeId} {superclass : Option NodeId} {t : Shape NodeId}

theorem slotKey?_of_identifierName? {name : String} (h : a.identifierName? c = some name) :
    a.slotKey? c = some c := by
  rw [slotKey?, shape?_of_identifierName? h]

theorem Grammatical.holdsExpression_of_class (h : a.Grammatical) (ht : a.shape? m = some t)
    (hc : c ∈ t.children .full) (hs : a.shape? c = some (.classExpression superclass body)) :
    t.kind = .sourceFile ∨ t.kind.holdsExpression = true := by
  rcases h.fits ht with ⟨body, rfl⟩ | ⟨r, hfits⟩
  · exact .inl rfl
  · refine .inr ?_
    have htree := h.shape_tree ht
    obtain ⟨r', hr', hpart⟩ := hfits.part (a.tree c) (by
      rw [htree, Shape.children_map]
      exact List.mem_map_of_mem hc)
    rw [htree, Shape.kind_map] at hr'
    have hkind : (a.tree c).shape.kind = .classExpression := by
      rw [h.shape_tree hs]
      rfl
    rcases hpart.role_of_classExpression hkind with rfl | rfl
    · simp [Kind.holdsExpression, hr']
    · simp [Kind.holdsExpression, hr']

end Arena

namespace SourceUnit

variable {u : SourceUnit} {config : Config} {a : Arena} {m c body : NodeId}
  {superclass : Option NodeId} {t : Shape NodeId} {x : Branch}

theorem className_eq (hs : u.arena.shape? x.target = some (.classExpression superclass body))
    (halias : u.facts.aliases.get? x.target = none) (hm : x.parent? = some m)
    (ht : u.arena.shape? m = some t) :
    u.className x = (t.nameNode?.bind u.keyName?).getD "class" := by
  rw [className, halias]
  dsimp only
  rw [classNameNode?, hs, hm, Option.bind_some, Option.bind_some, ht, Option.bind_some]
  rfl

namespace ReadFrom

theorem identifierName?_of_class (h : u.ReadFrom config a)
    (hs : a.shape? c = some (.classExpression superclass body)) :
    u.arena.identifierName? c = none := h.unit.arena.identifierName?_of hs

theorem keyName?_of_class (h : u.ReadFrom config a)
    (hs : a.shape? c = some (.classExpression superclass body)) : u.keyName? c = none := by
  rw [h.keyName?_opaque (by rw [Arena.literalText?, hs]; rfl), h.identifierName?_of_class hs]

theorem identifierName?_part (h : u.ReadFrom config a) (ht : a.shape? m = some t)
    (hc : c ∈ t.children .full) : u.arena.identifierName? c = a.identifierName? c := by
  have hchild : c ∈ a.children .full m := Arena.children_of_shape? ht .full ▸ hc
  have hlt := h.parsed.child_lt hchild
  have hshape := h.unit.arena.shape?_eq (Nat.lt_trans hlt (Arena.lt_size_of_shape? ht))
  rw [Arena.identifierName?, Arena.identifierName?, hshape]
  rfl

theorem identifierName?_child (h : u.ReadFrom config a) (ht : a.shape? m = some t)
    (hkey : t.plainName? = some c) : ∃ name, u.arena.identifierName? c = some name := by
  obtain ⟨name, hname⟩ := h.grammatical.shape?_plainName ht hkey
  exact ⟨name, h.unit.arena.identifierName?_of hname⟩

theorem keyName?_nameNode (h : u.ReadFrom config a) (ht : a.shape? m = some t) {key : NodeId}
    (hkey : a.storageKey? t = some key) :
    t.nameNode?.bind u.keyName? =
      if u.arena.namesSlotIndirectly t then none else u.arena.slotName? key := by
  have hplain {name : String} {key : NodeId} (hname : u.arena.identifierName? key = some name) :
      u.keyName? key = u.arena.slotName? key := by
    rw [keyName?, Arena.slotName?, hname]
    rfl
  cases t with
  | variableDeclarator | enumMember | methodDefinition =>
    cases hkey
    obtain ⟨name, hname⟩ := h.identifierName?_child ht rfl
    exact hplain hname
  | propertyDefinition isStatic computed key' value =>
    simp only [Arena.storageKey?] at hkey
    split at hkey
    · cases hkey
    · next hnamed =>
      cases hkey
      exact h.keyName?_slot ht hnamed
  | assignmentExpression operator left right =>
    cases operator with
    | newSlot =>
      have hleft : u.keyName? left = u.arena.identifierName? left :=
        h.keyName?_child ht (by simp [Shape.children, Shape.kind, Kind.fields, Shape.field])
          (by simp [Shape.kind]) (by simp [Shape.kind])
      rw [Shape.nameNode?, Option.bind_some, hleft]
      simp only [Arena.storageKey?, Arena.slotKey?] at hkey
      split at hkey
      · next name hl =>
        obtain rfl := Option.some.inj hkey
        have hname : u.arena.identifierName? left = some name := h.unit.arena.identifierName?_of hl
        simp [Arena.namesSlotIndirectly, Arena.slotName?, hname]
      · next hl =>
        simp [Arena.namesSlotIndirectly, h.unit.arena.identifierName?_of hl, Shape.identifierName?]
      · next hl =>
        simp [Arena.namesSlotIndirectly, h.unit.arena.identifierName?_of hl, Shape.identifierName?]
      · cases hkey
    | _ => cases hkey
  | _ => cases hkey

theorem keyName?_borrowed (h : u.ReadFrom config a) (ht : a.shape? m = some t)
    (hc : c ∈ t.children .full) (hs : a.shape? c = some (.classExpression superclass body))
    (hunstored : ∀ key, t.storedValue? = some c → a.storageKey? t ≠ some key) :
    t.nameNode?.bind u.keyName? = u.arena.borrowedName? t := by
  have hheld := h.grammatical.holdsExpression_of_class ht hc hs
  have hname (hkey : t.plainName? = some c) : False := by
    obtain ⟨name, hname⟩ := h.grammatical.shape?_plainName ht hkey
    rw [hs] at hname
    cases hname
  cases t with
  | variableDeclarator key value | enumMember key value =>
    have hcases : c = key ∨ value = some c := by
      simpa [Shape.children, Shape.kind, Kind.fields, Shape.field, eq_comm] using hc
    rcases hcases with rfl | rfl
    · exact (hname rfl).elim
    · exact absurd rfl (hunstored key rfl)
  | methodDefinition kind isStatic key value =>
    have hcases : c = key ∨ c = value := by
      simpa [Shape.children, Shape.kind, Kind.fields, Shape.field] using hc
    rcases hcases with rfl | rfl
    · exact (hname rfl).elim
    · exact absurd rfl (hunstored key rfl)
  | propertyDefinition isStatic computed key value =>
    have hcases : c = key ∨ value = some c := by
      simpa [Shape.children, Shape.kind, Kind.fields, Shape.field, eq_comm] using hc
    cases computed with
    | false =>
      rcases hcases with rfl | rfl
      · exact (hname rfl).elim
      · exact absurd rfl (hunstored key rfl)
    | true =>
      rcases hcases with rfl | rfl
      · exact (h.keyName?_of_class hs).trans (h.identifierName?_of_class hs).symm
      · by_cases hopaque : a.isOpaqueKey true key = true
        · exact h.keyName?_opaque (Arena.literalText?_of_opaque hopaque)
        · exact absurd (if_neg hopaque) (hunstored key rfl)
  | functionDeclaration | enumDeclaration => rcases hheld with he | he <;> cases he
  | classDeclaration | assignmentPattern =>
    exact h.keyName?_child ht (by simp [Shape.children, Shape.kind, Kind.fields, Shape.field])
      (by simp [Shape.kind]) (by simp [Shape.kind])
  | metaProperty key => exact absurd ht (h.grammatical.shape?_ne_metaProperty m key)
  | assignmentExpression operator left right =>
    cases operator with
    | newSlot =>
      have hcases : c = left ∨ c = right := by
        simpa [Shape.children, Shape.kind, Kind.fields, Shape.field] using hc
      rcases hcases with rfl | rfl
      · exact h.keyName?_of_class hs
      · have hchild : left ∈ (Shape.assignmentExpression .newSlot left c).children .full := by
          simp [Shape.children, Shape.kind, Kind.fields, Shape.field]
        have hleft : a.identifierName? left = none :=
          Option.eq_none_iff_forall_ne_some.mpr fun name hname =>
            hunstored left rfl (Arena.slotKey?_of_identifierName? hname)
        have hkey := h.keyName?_child ht hchild (by simp [Shape.kind]) (by simp [Shape.kind])
        rw [h.identifierName?_part ht hchild, hleft] at hkey
        exact hkey
    | _ => rfl
  | _ => rfl

end ReadFrom

end SourceUnit

namespace Program

variable {p : Program} {u : SourceUnit} {b : Branch} {superclass : Option NodeId} {body : NodeId}

theorem Trail.exists_parent (hb : p.Trail b) (hp : p.Sound) (hu : p.unit? b.unit = some u)
    (hd : u.Declaring) (hfiled : u.Filed)
    (hs : u.arena.shape? b.target = some (.classExpression superclass body)) :
    ∃ m, b.parent? = some m ∧ b.target ∈ u.arena.children .full m := by
  obtain ⟨v, hv, htrail⟩ := hb
  obtain rfl := Option.some.inj (hv.symm.trans hu)
  cases htrail with
  | root =>
    have hs : v.arena.shape? v.arena.root = some (.classExpression superclass body) := hs
    have hroot := hfiled.root
    rw [v.arena.kind?_eq_map, hs] at hroot
    cases hroot
  | @step b c _ hc =>
    have hs : v.arena.shape? c = some (.classExpression superclass body) := hs
    refine ⟨b.target, rfl, ?_⟩
    cases hc with
    | child hc => exact hc
    | property hids hc =>
      obtain ⟨key, hkey⟩ := hd.metas hids hc
      rw [hs] at hkey
      cases hkey
    | recorded hc =>
      obtain ⟨e, he, htarget⟩ := List.any_eq_true.mp hc
      have hmem := (hp.recorded _ v hu).subset (List.mem_map_of_mem (List.mem_filter.mp he).1)
      rw [← of_decide_eq_true htarget] at hs
      cases ((hp.unit _ v hu).2.pending _ hmem).2 with
      | function hqualified | «class» hqualified | slot hqualified =>
        rw [hs] at hqualified
        cases hqualified

end Program

namespace Analysis

variable {asked : Program → Branch → Prop} {a : Analysis} {u : SourceUnit} {id : UnitId}
  {b x : Branch} {superclass : Option NodeId} {body : NodeId}

def documentedType (b : Branch) : Asking (Option TypeLabel) :=
  walk fun p => Resolve.documentedType? p p.answer b

def StandsFor (a : Analysis) (b : Branch) (cls : NodeRef) : Prop :=
  ((documentedType b).run a).1 = none ∧ ∃ x isInstance made,
    ((value b).run ((documentedType b).run a).2).1 = some (.node x isInstance made) ∧ x.ref = cls

theorem holds_documentedType {I : Branch → Prop} (hp : a.program.Closed I) (hb : I b)
    (h : a.memo.Holds I) : ((documentedType b).run a).2.memo.Holds I := by
  obtain ⟨t, ht, hkeeps⟩ :=
    Resolve.documentedType?_follows (p := a.program) (I := I) (P := True) (b := b) fun _ => hb
  rw [documentedType, run_walk, show Resolve.documentedType? a.program a.program.answer b = _ from
    ht a.program.answer]
  have hask := Program.answer_holds hp
  exact (Plan.run_holds hask (hkeeps trivial) (s := { memo := a.memo }) h rfl).2

theorem Reachable.trail_of_undocumented (h : a.Reachable Program.Trail) (hb : a.program.Trail b)
    {isInstance : Bool} {made : Option Branch}
    (hv : ((value b).run ((documentedType b).run a).2).1 = some (.node x isInstance made)) :
    a.program.Trail x := by
  have hmemo := holds_documentedType h.closed_trail hb (h.holds_of_closed fun _ h => h.closed_trail)
  have hprogram : ((documentedType b).run a).2.program = a.program := by
    rw [documentedType, run_walk]
  generalize ((documentedType b).run a).2 = a' at hv hmemo hprogram
  rw [← hprogram] at hmemo hb ⊢
  have hclosed : a'.program.Closed a'.program.Trail := hprogram ▸ h.closed_trail
  exact ((holds_ask (q := .value b) hclosed hb hmemo).1 _ hv).1

theorem run_label {v : Value} (hnone : ((documentedType b).run a).1 = none)
    (hv : ((value b).run ((documentedType b).run a).2).1 = some v) :
    (label b).run a = (walk fun p => Resolve.valueLabel p
      (Resolve.labelWithin p p.answer p.frameCount) v).run
        ((value b).run ((documentedType b).run a).2).2 := by
  have hinfer {c : Branch} {P : Prop} (hc : P → (fun _ => True) c) : Follows (fun _ => True) P
      (fun ask => Resolve.labelWithin a.program ask a.program.frameCount c) fun _ => True :=
    Resolve.labelWithin_follows a.program.closed_true hc
  have hlabel : label b = walk fun p => Resolve.documentedType? p p.answer b >>= fun o =>
      o.elim (Resolve.undocumentedLabel p p.answer p.frameCount b) pure := by
    unfold label Resolve.label
    simp only [Resolve.labelWithin_succ]
  calc (label b).run a
    _ = (walk fun p => Resolve.undocumentedLabel p p.answer p.frameCount b).run
          ((documentedType b).run a).2 := by
        rw [hlabel]
        exact run_walk_then (F := fun p ask => Resolve.documentedType? p ask b)
          (G := fun p ask o => o.elim (Resolve.undocumentedLabel p ask p.frameCount b) pure)
          (Resolve.documentedType?_follows fun _ => trivial) hnone
          (Resolve.undocumentedLabel_follows a.program.closed_true (fun _ => trivial) hinfer)
    _ = _ := run_walk_then (F := fun p ask => (ask .value b).run)
          (G := fun p ask o => o.elim (pure TypeLabel.any)
            (Resolve.valueLabel p (Resolve.labelWithin p ask p.frameCount)))
          (Follows.ask .value fun _ => trivial) hv
          (Resolve.valueLabel_follows a.program.closed_true (fun _ => Query.holds_true .value v)
            hinfer)

theorem label_eq_classLabel {isInstance : Bool} {made : Option Branch}
    (hnone : ((documentedType b).run a).1 = none)
    (hv : ((value b).run ((documentedType b).run a).2).1 = some (.node x isInstance made))
    (hu : a.unit? x.unit = some u)
    (hs : u.arena.shape? x.target = some (.classExpression superclass body)) :
    ((label b).run a).1 = u.classLabel x isInstance := by
  have hu : a.program.unit? x.unit = some u := hu
  have hlabel (infer : Branch → Resolving TypeLabel) :
      Resolve.valueLabel a.program infer (.node x isInstance made) =
        pure (u.classLabel x isInstance) := by
    simp only [Resolve.valueLabel, hu, hs]
    rfl
  rw [run_label hnone hv, run_walk]
  exact congrArg (fun f : Resolving TypeLabel => (f.run _).1) (hlabel _)

theorem run_documentedType_class (hk : a.program.kind? b = some .classExpression) :
    (documentedType b).run a = (none, a) ∧ ((value b).run a).1 = some (.ofBranch b) := by
  have hready : a.program.ready? .definition b = some none := by
    rw [Program.ready?, Program.subject_of_kind_ne hk (by decide), hk]
    rfl
  have hdefinition : a.program.answer .definition b = Resolve.ofOption none :=
    Program.answerWithin_of_ready hready
  constructor
  · have hnone : Resolve.documentedType? a.program a.program.answer b = pure none := by
      rw [Resolve.documentedType?, hk, if_neg (by decide), hdefinition]
      rfl
    rw [documentedType, run_walk, hnone]
    rfl
  · rw [value, run_walk, Program.answer_value_self hk rfl]
    rfl

theorem Reachable.exists_around (h : a.Reachable asked) (hu : a.unit? b.unit = some u)
    {base : Arena} (hr : u.ReadFrom a.program.config base) (hb : a.program.Trail b)
    (hs : u.arena.shape? b.target = some (.classExpression superclass body)) :
    ∃ m t, b.parent? = some m ∧ u.arena.shape? m = some t ∧ base.shape? m = some t ∧
      b.target ∈ base.children .full m := by
  obtain ⟨m, hm, hc⟩ := hb.exists_parent h.sound hu (h.declaring hu) (h.filed hu) hs
  obtain ⟨t, ht, hc⟩ := Arena.exists_shape?_of_child hc
  have hbase : base.shape? m = some t := by
    rcases hr.shape?_base ht with hbase | ⟨key, rfl⟩ | ⟨name, rfl⟩
    · exact hbase
    · obtain rfl : b.target = key := by
        simpa [Shape.children, Shape.kind, Kind.fields, Shape.field] using hc
      have hwritten := h.assembled.written_of_kind hu hs Kind.noConfusion Kind.noConfusion
      rw [(h.addsProperties hu m _ ht).2] at hwritten
      cases hwritten
    · cases hc
  exact ⟨m, t, hm, ht, hbase, Arena.children_of_shape? hbase .full ▸ hc⟩

theorem Reachable.className_eq (h : a.Reachable asked) (hu : a.unit? b.unit = some u)
    {base : Arena} (hr : u.ReadFrom a.program.config base) (hb : a.program.Trail b)
    (hs : u.arena.shape? b.target = some (.classExpression superclass body))
    (halias : u.facts.aliases.get? b.target = none) {m : NodeId} {t : Shape NodeId}
    (ht : base.shape? m = some t) (hc : b.target ∈ base.children .full m) :
    u.className b = (t.nameNode?.bind u.keyName?).getD "class" := by
  obtain ⟨m', t', hm, hu', ht', hc'⟩ := h.exists_around hu hr hb hs
  obtain rfl : m' = m := hr.parsed.parent_unique hc hc'
  obtain rfl := Option.some.inj (ht.symm.trans ht')
  exact SourceUnit.className_eq hs halias hm hu'

/-- A class without an alias, which is an expression, has one name in all labels. Every symbol that
stores the class has this name, too, except for a new slot that only a part of its left side names:
then the class is called `class`. So is a class that is not stored under a name, unless there is a
name next to it that it is called by. -/
theorem label_class (h : a.Reachable Program.Trail) (hu : a.unit? id = some u) {cls : NodeId}
    (hs : u.arena.shape? cls = some (.classExpression superclass body))
    (halias : u.facts.aliases.get? cls = none) :
    ∃ c m t name, u.arena.branchTo cls = some c ∧ c.parent? = some m ∧ u.arena.shape? m = some t ∧
      ((label c).run a).1 = .classNamed name ∧
      (∀ b, a.program.Trail b → a.StandsFor b ⟨id, cls⟩ →
        ((label b).run a).1.className? = some name) ∧
      (∀ s ∈ Outline.preorder u.outline, s.value = some cls →
        s.node = m ∧ name = if u.arena.namesSlotIndirectly t then "class" else s.name) ∧
      ((t.storedValue? = some cls → u.arena.storageKey? t = none) →
        name = (u.arena.borrowedName? t).getD "class") := by
  obtain ⟨base, hr, hsymbols⟩ := h.exists_declaring hu
  have hwritten := h.assembled.written_of_kind hu hs Kind.noConfusion Kind.noConfusion
  have hbase := hr.shape?_written hs Kind.noConfusion Kind.noConfusion
  obtain ⟨c, hto, rfl, hbelow, hunit, -⟩ := h.sound.exists_branchTo hu
    (Nat.lt_of_not_le (of_decide_eq_false hwritten))
  have htrail := h.sound.trail_of_below hu hbelow
  obtain ⟨m, t, hm, hut, ht, hc⟩ := h.exists_around hunit hr htrail hs
  refine ⟨c, m, t, (t.nameNode?.bind u.keyName?).getD "class", hto, hm, hut, ?_, ?_,
    fun s hs hv => ?_, fun hnone => ?_⟩
  · have hk : a.program.kind? c = some .classExpression := by
      rw [Program.kind?, Program.shape?_of_unit? hunit hs]
      rfl
    obtain ⟨hdocumented, hvalue⟩ := run_documentedType_class hk
    have hself : ((value c).run ((documentedType c).run a).2).1 = some (.node c false none) := by
      rw [hdocumented]
      exact hvalue
    rw [label_eq_classLabel (congrArg Prod.fst hdocumented) hself hunit hs, SourceUnit.classLabel,
      h.className_eq hunit hr htrail hs halias ht hc]
    rfl
  · rintro b hb ⟨hnone, ⟨unit, target, ancestors⟩, isInstance, made, hv, href⟩
    obtain ⟨rfl, rfl⟩ := NodeRef.mk.inj href
    rw [label_eq_classLabel hnone hv hu hs, SourceUnit.className?_classLabel,
      h.className_eq hu hr (h.trail_of_undocumented hb hv) hs halias ht hc]
  · obtain ⟨b, hb⟩ := hsymbols s hs _ hv
    obtain ⟨hnode, t', key, ht', hstored, hkey, hslot⟩ := Arena.of_symbol_ofBranch hb hv
    obtain rfl : b.target = m := hr.parsed.parent_unique hc
      (Arena.children_of_shape? ht' .full ▸ Shape.mem_children_of_storedValue hstored)
    obtain rfl := Option.some.inj (ht.symm.trans ht')
    refine ⟨hnode, ?_⟩
    rw [hr.keyName?_nameNode ht hkey, hr.unit.arena.slotName? hslot]
    split <;> rfl
  · have hunstored (key : NodeId) (hstored : t.storedValue? = some c.target) :
        base.storageKey? t ≠ some key := by
      intro hkey
      cases (hr.unit.arena.storageKey? hkey).symm.trans (hnone hstored)
    rw [hr.keyName?_borrowed ht (Arena.children_of_shape? ht .full ▸ hc) hbase hunstored]

theorem label_class_variable : ∃ (a : Analysis) (u : SourceUnit) (b : Branch) (s : Symbol),
    ofSources {} Imports.none ["local n = class {}; n();"] = .ok a ∧
    a.Reachable Program.Trail ∧ a.unit? ⟨0⟩ = some u ∧
    u.arena.shape? ⟨2⟩ = some (.classExpression none ⟨1⟩) ∧ u.facts.aliases.get? ⟨2⟩ = none ∧
    a.program.Trail b ∧ a.StandsFor b ⟨⟨0⟩, ⟨2⟩⟩ ∧
    s ∈ Outline.preorder u.outline ∧ s.value = some ⟨2⟩ ∧ s.name = "n" ∧
    ((label b).run a).1.className? = some "n" := by
  let b : Branch := ⟨⟨0⟩, ⟨6⟩, [⟨7⟩, ⟨8⟩]⟩
  let x : Branch := ⟨⟨0⟩, ⟨2⟩, [⟨3⟩, ⟨4⟩, ⟨8⟩]⟩
  have hbuilt : (ofSources {} Imports.none ["local n = class {}; n();"]).toOption.any (fun a =>
      (a.unit? ⟨0⟩).any fun u => (Outline.trees u.outline).any fun t => decide (
        u.arena.shape? ⟨2⟩ = some (.classExpression none ⟨1⟩) ∧
        u.facts.aliases.get? ⟨2⟩ = none ∧ u.arena.branchTo ⟨6⟩ = some b ∧
        ((documentedType b).run a).1 = none ∧
        ((value b).run ((documentedType b).run a).2).1 = some (.node x true (some b)) ∧
        t.symbol.value = some ⟨2⟩ ∧ t.symbol.name = "n" ∧
        u.arena.shape? t.symbol.node = some (.variableDeclarator ⟨0⟩ (some ⟨2⟩)))) = true := by
    decide +kernel
  obtain ⟨a, ha, h⟩ := exists_ok hbuilt
  obtain ⟨u, hu, h⟩ := (Option.any_eq_true _ _).mp h
  obtain ⟨tree, htree, h⟩ := List.any_eq_true.mp h
  have hmem : tree.symbol ∈ Outline.preorder u.outline :=
    Outline.symbol_trees _ ▸ List.mem_map_of_mem htree
  obtain ⟨hs, halias, hto, hnone, hv, hstored, hname, hnode⟩ := of_decide_eq_true h
  have hreachable : a.Reachable Program.Trail := .ofSources ha
  have hb : a.program.Trail b := hreachable.sound.trail_of_below hu (Arena.branchTo_below hto)
  have hfor : a.StandsFor b ⟨⟨0⟩, ⟨2⟩⟩ := ⟨hnone, x, true, some b, hv, rfl⟩
  obtain ⟨c, m, t, name, -, -, ht, -, hlabels, hsymbols, -⟩ := label_class hreachable hu hs halias
  obtain ⟨rfl, hsame⟩ := hsymbols _ hmem hstored
  obtain rfl := Option.some.inj (ht.symm.trans hnode)
  have hlabel := hlabels b hb hfor
  rw [hsame, hname] at hlabel
  exact ⟨a, u, b, tree.symbol, ha, hreachable, hu, hs, halias, hb, hfor, hmem, hstored, hname,
    hlabel⟩

theorem label_class_elsewhere : ∃ (a : Analysis) (u v : SourceUnit) (s : Symbol) (b c : Branch),
    ofSources {} Imports.none ["::n <- class {};", "class A extends class {} {}"] = .ok a ∧
    a.unit? ⟨0⟩ = some u ∧ u.arena.branchTo ⟨3⟩ = some b ∧
    u.arena.shape? ⟨3⟩ = some (.classExpression none ⟨2⟩) ∧ u.facts.aliases.get? ⟨3⟩ = none ∧
    s ∈ Outline.preorder u.outline ∧ s.value = some ⟨3⟩ ∧ s.name = "n" ∧
    ((label b).run a).1 = .classNamed "class" ∧
    a.unit? ⟨1⟩ = some v ∧ v.arena.branchTo ⟨2⟩ = some c ∧
    v.arena.shape? ⟨2⟩ = some (.classExpression none ⟨1⟩) ∧ v.facts.aliases.get? ⟨2⟩ = none ∧
    v.arena.shape? ⟨4⟩ = some (.classDeclaration none ⟨0⟩ (some ⟨2⟩) ⟨3⟩) ∧
    ((label c).run a).1 = .classNamed "A" := by
  let b : Branch := ⟨⟨0⟩, ⟨3⟩, [⟨4⟩, ⟨5⟩, ⟨6⟩]⟩
  let c : Branch := ⟨⟨1⟩, ⟨2⟩, [⟨4⟩, ⟨5⟩]⟩
  have hbuilt : (ofSources {} Imports.none
      ["::n <- class {};", "class A extends class {} {}"]).toOption.any (fun a =>
      (a.unit? ⟨0⟩).any fun u => (a.unit? ⟨1⟩).any fun v =>
      (Outline.trees u.outline).any fun t => decide (
        (u.arena.branchTo ⟨3⟩ = some b ∧
          u.arena.shape? ⟨3⟩ = some (.classExpression none ⟨2⟩) ∧
          u.facts.aliases.get? ⟨3⟩ = none ∧ t.symbol.value = some ⟨3⟩ ∧
          t.symbol.name = "n" ∧ ((label b).run a).1 = .classNamed "class") ∧
        v.arena.branchTo ⟨2⟩ = some c ∧
        v.arena.shape? ⟨2⟩ = some (.classExpression none ⟨1⟩) ∧
        v.facts.aliases.get? ⟨2⟩ = none ∧
        v.arena.shape? ⟨4⟩ = some (.classDeclaration none ⟨0⟩ (some ⟨2⟩) ⟨3⟩) ∧
        ((label c).run a).1 = .classNamed "A")) = true := by decide +kernel
  obtain ⟨a, ha, h⟩ := exists_ok hbuilt
  obtain ⟨u, hu, h⟩ := (Option.any_eq_true _ _).mp h
  obtain ⟨v, hv, h⟩ := (Option.any_eq_true _ _).mp h
  obtain ⟨tree, htree, h⟩ := List.any_eq_true.mp h
  have hmem : tree.symbol ∈ Outline.preorder u.outline :=
    Outline.symbol_trees _ ▸ List.mem_map_of_mem htree
  obtain ⟨⟨hb, hs, halias, hstored, hname, hlabel⟩, hc, hs', halias', hextends, hlabel'⟩ :=
    of_decide_eq_true h
  exact ⟨a, u, v, tree.symbol, b, c, ha, hu, hb, hs, halias, hmem, hstored, hname, hlabel, hv, hc,
    hs', halias', hextends, hlabel'⟩

end Analysis

end SquirrelAnalyzer
