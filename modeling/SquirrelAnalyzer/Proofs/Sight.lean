import SquirrelAnalyzer.Proofs.Filed
import SquirrelAnalyzer.Proofs.Variation

namespace SquirrelAnalyzer

def Shape.memberBody? {χ : Type} : Shape χ → Option χ
  | classDeclaration _ _ _ body | classExpression _ body
  | functionDeclaration (some _) _ _ body => some body
  | _ => none

theorem Branch.enclosing_go_congr (b b' : Branch) (h : b.unit = b'.unit) (t : NodeId)
    (ids : List NodeId) : enclosing.go b t ids = enclosing.go b' t ids := by
  induction ids generalizing t with
  | nil => rfl
  | cons x ids ih => rw [enclosing.go, enclosing.go, h, ih]

namespace Arena

variable {a : Arena} {m id : NodeId} {s : Shape NodeId}

def isMemberBody (a : Arena) (id : NodeId) : Bool :=
  a.nodes.any fun n => n.shape.memberBody? = some id

theorem isMemberBody_of_shape? (hs : a.shape? m = some s) (hbody : s.memberBody? = some id) :
    a.isMemberBody id = true := by
  obtain ⟨n, hn, rfl⟩ := Option.map_eq_some_iff.mp hs
  obtain ⟨hlt, hn⟩ := Array.getElem?_eq_some_iff.mp hn
  exact Array.any_eq_true.mpr ⟨m.index, hlt, by simpa [hn] using hbody⟩

theorem exists_of_isMemberBody (h : a.isMemberBody id = true) :
    ∃ m s, a.shape? m = some s ∧ s.memberBody? = some id := by
  obtain ⟨i, hlt, hbody⟩ := Array.any_eq_true.mp h
  refine ⟨⟨i⟩, a.nodes[i].shape, ?_, by simpa using hbody⟩
  simp [shape?, get?, hlt]

theorem exists_shape?_of_child {c : NodeId} {table : FieldTable} (h : c ∈ a.children table id) :
    ∃ s, a.shape? id = some s ∧ c ∈ s.children table := by
  have hn : a.get? id = some _ := Array.getElem?_eq_getElem (index_lt_of_children h)
  have hs : a.shape? id = some _ := congrArg (Option.map Node.shape) hn
  exact ⟨_, hs, children_of_shape? hs table ▸ h⟩

section Path

variable {b : Branch} (h : a.Below a.rootBranch b) {inner outer : List NodeId}

include h

theorem Below.syntactic_of_path (hpath : b.target :: b.ancestors = inner ++ m :: outer) :
    isSyntactic.go a m outer = true := by
  have hgo : isSyntactic.go a b.target b.ancestors = true :=
    isSyntactic_of_below a.isSyntactic_root h
  generalize b.target = t, b.ancestors = ids at hgo hpath
  induction inner generalizing t ids with
  | nil =>
    obtain ⟨rfl, rfl⟩ := List.cons.inj hpath
    exact hgo
  | cons x inner ih =>
    obtain ⟨rfl, hids⟩ : t = x ∧ ids = inner ++ m :: outer := List.cons.inj hpath
    obtain ⟨y, ids, rfl⟩ : ∃ y ys, ids = y :: ys := List.exists_cons_of_ne_nil (by simp [hids])
    simp only [isSyntactic.go, Bool.and_eq_true] at hgo
    exact ih _ _ hgo.2 hids

theorem Below.child_of_path {c : NodeId}
    (hpath : b.target :: b.ancestors = inner ++ c :: m :: outer) : c ∈ a.children .full m := by
  have hgo := h.syntactic_of_path hpath
  simp only [isSyntactic.go, Bool.and_eq_true, List.contains_iff_mem] at hgo
  exact hgo.1

end Path

end Arena

namespace SourceUnit

def Lists (u : SourceUnit) (name : String) (scope : NodeId) : Prop :=
  ∃ s ∈ u.scope scope, s.name = name

instance (u : SourceUnit) (name : String) (scope : NodeId) : Decidable (u.Lists name scope) :=
  inferInstanceAs (Decidable (∃ s ∈ u.scope scope, s.name = name))

def Passes (u : SourceUnit) (name : String) (id : NodeId) : Prop :=
  ¬u.Lists name id ∧ u.arena.isMemberBody id = false

instance (u : SourceUnit) (name : String) (id : NodeId) : Decidable (u.Passes name id) :=
  inferInstanceAs (Decidable (_ ∧ _))

theorem Filed.isScope_of_lists {u : SourceUnit} (h : u.Filed) {name : String} {scope : NodeId}
    (hlists : u.Lists name scope) :
    ∃ kind, u.arena.kind? scope = some kind ∧ kind.isScope = true := by
  obtain ⟨s, hs, -⟩ := hlists
  cases h.files scope s hs with
  | named _ _ _ _ hscope =>
    obtain ⟨-, -, -, hkind, -⟩ := hscope
    exact hkind
  | rootSlot _ _ _ hroot => exact ⟨.sourceFile, hroot ▸ h.root, rfl⟩
  | bound hs hbound =>
    exact ⟨_, by rw [Arena.kind?_eq_map, hs]; rfl, Shape.isScope_of_boundName hbound⟩

end SourceUnit

namespace Program

variable {p : Program} {name : String} {arity : Option Nat}

theorem scoped?_eq_none {scope : List ScopedName} (h : ∀ s ∈ scope, s.name ≠ name) :
    p.scoped? scope name arity = none := by
  rw [Option.eq_none_iff_forall_ne_some]
  intro d hd
  obtain ⟨s, hs, hname, -⟩ := mem_of_scoped? hd
  exact h s hs hname

theorem exists_scoped? (p : Program) (arity : Option Nat) {u : SourceUnit} {scope : NodeId}
    (h : u.Lists name scope) :
    ∃ s ∈ u.scope scope, s.name = name ∧
      p.scoped? (u.scope scope) name arity = some s.declaration := by
  obtain ⟨s, hs, hname⟩ := h
  have hmem : s.declaration ∈ ((u.scope scope).filter (·.name = name)).map (·.declaration) :=
    List.mem_map_of_mem (List.mem_filter.mpr ⟨hs, decide_eq_true hname⟩)
  obtain ⟨d, hd⟩ : ∃ d, p.scoped? (u.scope scope) name arity = some d := by
    rw [scoped?, variation?_eq]
    cases hl : ((u.scope scope).filter (·.name = name)).map (·.declaration) with
    | nil =>
      rw [hl] at hmem
      cases hmem
    | cons d ds => exact ⟨_, rfl⟩
  obtain ⟨s', hs', hname', rfl⟩ := mem_of_scoped? hd
  exact ⟨s', hs', hname', hd⟩

end Program

namespace Resolve

variable {p : Program} {ask : Ask} {u : SourceUnit} {b outer : Branch} {inner : NodeId}
  {name : String} {arity : Option Nat}

theorem failure_orElse {α : Type} (x : Resolve α) : (failure <|> x) = x := by
  refine OptionT.ext ?_
  rw [OptionT.run_orElse]
  rfl

theorem orElse_of_ofOption_some {α : Type} (d : α) (x : Resolve α) :
    (ofOption (some d) <|> x) = ofOption (some d) := by
  refine OptionT.ext ?_
  rw [OptionT.run_orElse]
  rfl

theorem bodyOwner_of_ne {s : Shape NodeId} (hs : p.shape? outer = some s)
    (hne : s.memberBody? ≠ some inner) : bodyOwner p ask outer inner = failure := by
  have hbody {body : NodeId} (h : s.memberBody? = some body) : inner ≠ body :=
    fun he => hne (he ▸ h)
  unfold bodyOwner
  rw [hs]
  cases s with
  | classDeclaration qualifier id superclass body => exact if_neg (hbody rfl)
  | classExpression superclass body => exact if_neg (hbody rfl)
  | functionDeclaration qualifier id params body =>
    cases qualifier with
    | none => rfl
    | some qualifier => exact if_neg (hbody rfl)
  | _ => rfl

theorem scoped?_of_not_lists (hu : p.unit? outer.unit = some u)
    (h : ¬u.Lists name outer.target) : p.scoped? (scopeAt p outer) name arity = none :=
  Program.scoped?_eq_none fun s hs hname => by
    obtain ⟨v, hv, hs⟩ := mem_scope_of_scopeAt hs
    obtain rfl := Option.some.inj (hu.symm.trans hv)
    exact h ⟨s, hs, hname⟩

theorem nameAt_eq_failure (outer : Branch) (hu : p.unit? outer.unit = some u)
    (houter : ¬u.Lists name outer.target) (hinner : u.arena.isMemberBody inner = false) :
    nameAt p ask name arity outer inner = failure := by
  have hbody : bodyOwner p ask outer inner = failure := by
    cases hs : p.shape? outer with
    | none => simp [bodyOwner, hs]
    | some s =>
      refine bodyOwner_of_ne hs fun he => ?_
      obtain ⟨v, hv, hvs⟩ := Program.unit?_of_shape? hs
      obtain rfl := Option.some.inj (hu.symm.trans hv)
      rw [Arena.isMemberBody_of_shape? hvs he] at hinner
      cases hinner
  rw [nameAt, scoped?_of_not_lists hu houter, hbody]
  rfl

theorem nameAmong_passes (hu : p.unit? b.unit = some u) {pre rest ids : List NodeId} {t e : NodeId}
    (hpath : t :: ids = pre ++ e :: rest) (hpasses : ∀ id ∈ pre ++ [e], u.Passes name id) :
    nameAmong p ask b.unit name arity (Branch.enclosing.go b t ids) =
      nameAmong p ask b.unit name arity (Branch.enclosing.go b e rest) := by
  induction pre generalizing t ids with
  | nil =>
    obtain ⟨rfl, rfl⟩ := List.cons.inj hpath
    rfl
  | cons x pre ih =>
    obtain ⟨rfl, hids⟩ : t = x ∧ ids = pre ++ e :: rest := List.cons.inj hpath
    obtain ⟨y, ids, rfl⟩ : ∃ y ys, ids = y :: ys := List.exists_cons_of_ne_nil (by simp [hids])
    have hy : y ∈ pre ++ [e] := by
      cases pre with
      | nil => exact (List.cons.inj hids).1 ▸ List.mem_cons_self
      | cons z pre => exact (List.cons.inj hids).1 ▸ List.mem_cons_self
    rw [← ih hids fun id hid => hpasses id (List.mem_cons_of_mem _ hid)]
    show (nameAt p ask name arity ⟨b.unit, y, ids⟩ t <|> _) = _
    rw [nameAt_eq_failure ⟨b.unit, y, ids⟩ hu (hpasses y (List.mem_cons_of_mem _ hy)).1
      (hpasses t List.mem_cons_self).2, failure_orElse]

theorem lookupName_passes (hu : p.unit? b.unit = some u) {pre rest : List NodeId} {e : NodeId}
    (hpath : b.target :: b.ancestors = pre ++ e :: rest)
    (hpasses : ∀ id ∈ pre ++ [e], u.Passes name id) :
    lookupName p ask b name arity = lookupName p ask ⟨b.unit, e, rest⟩ name arity := by
  unfold lookupName
  rw [hu, Branch.enclosing, nameAmong_passes hu hpath hpasses]
  rw [Branch.enclosing_go_congr b ⟨b.unit, e, rest⟩ rfl]
  rfl

theorem lookupName_scoped (hu : p.unit? b.unit = some u) {scope e : NodeId} {rest : List NodeId}
    (hscope : ((u.arena.kind? scope).map Kind.isScope).getD false = true) {d : Branch}
    (hfound : p.scoped? (u.scope scope) name arity = some d) :
    lookupName p ask ⟨b.unit, e, scope :: rest⟩ name arity = ofOption (some d) := by
  have hat : scopeAt p ⟨b.unit, scope, rest⟩ = u.scope scope := by
    have hk : p.kind? ⟨b.unit, scope, rest⟩ = u.arena.kind? scope := Program.kind?_of_unit? hu
    unfold scopeAt
    dsimp only
    rw [hu, hk]
    exact if_pos hscope
  unfold lookupName
  rw [hu]
  show (nameAt p ask name arity ⟨b.unit, scope, rest⟩ e <|> _) = _
  rw [nameAt, hat, hfound, orElse_of_ofOption_some, orElse_of_ofOption_some]

theorem lookupName_lists (hu : p.unit? b.unit = some u) {scope e : NodeId} {rest : List NodeId}
    (hscope : ((u.arena.kind? scope).map Kind.isScope).getD false = true)
    (hlists : u.Lists name scope) : ∃ s ∈ u.scope scope, s.name = name ∧
      ∀ ask, lookupName p ask ⟨b.unit, e, scope :: rest⟩ name arity =
        ofOption (some s.declaration) := by
  obtain ⟨s, hs, hname, hfound⟩ := Program.exists_scoped? p arity hlists
  exact ⟨s, hs, hname, fun ask => lookupName_scoped hu hscope hfound⟩

theorem lookupName_outermost (hu : p.unit? b.unit = some u) (e : NodeId) :
    lookupName p ask ⟨b.unit, e, []⟩ name arity = ofOption (p.imported? b.unit name arity) := by
  unfold lookupName
  rw [hu]
  rfl

end Resolve

namespace Program

variable {p : Program} {u : SourceUnit} {b : Branch} {name : String}

theorem Sound.anchor_below (hp : p.Sound) (hu : p.unit? b.unit = some u)
    (hwritten : u.arena.isSynthetic b.target = false) :
    u.arena.Below u.arena.rootBranch (p.anchor b) := by
  obtain ⟨hid, hsound⟩ := hp.unit b.unit u hu
  have hlt : b.target.index < u.arena.parsedSize := by
    simpa [Arena.isSynthetic] using hwritten
  obtain ⟨c, -, -, hc, htc, -⟩ := hsound.rooted.exists_below hlt
  have hto := hsound.rooted.branchTo_of_below hc
  rw [htc] at hto
  rw [anchor_of_unit hu, hsound.rooted.anchor_eq (hid.symm.trans hsound.unit.symm) hto]
  exact hc

theorem Assembled.written_of_kind (ha : p.Assembled) {id : UnitId} (hu : p.unit? id = some u)
    {c : NodeId} {s : Shape NodeId} (hs : u.arena.shape? c = some s) (hname : s.kind ≠ .identifier)
    (hproperty : s.kind ≠ .metaProperty) : u.arena.isSynthetic c = false := by
  rw [← Bool.not_eq_true]
  intro hsynthetic
  rcases ha.documents hu c s hsynthetic hs with ⟨key, rfl⟩ | ⟨text, m, rfl, -⟩
  · exact hproperty rfl
  · exact hname rfl

theorem Assembled.written_of_undeclared (ha : p.Assembled) {id : UnitId} (hu : p.unit? id = some u)
    {c : NodeId} (hs : u.arena.shape? c = some (.identifier name))
    (hundeclared : u.declaration? c = none) : u.arena.isSynthetic c = false := by
  rw [← Bool.not_eq_true]
  intro hsynthetic
  rcases ha.documents hu c _ hsynthetic hs with ⟨key, he⟩ | ⟨text, m, -, hm, -⟩
  · cases he
  · rw [hundeclared] at hm
    cases hm

/-- The branch ends at a name in the source that declares nothing and is not the name of a
member. -/
structure PlainName (p : Program) (u : SourceUnit) (b : Branch) (name : String) : Prop where
  unit : p.unit? b.unit = some u
  shape : u.arena.shape? b.target = some (.identifier name)
  undeclared : u.declaration? b.target = none
  free : ∀ parent s, (p.anchor b).parent? = some parent → u.arena.shape? parent = some s →
    Resolve.isPropertyOf b.target s = false

theorem PlainName.of_parent (hanchor : p.anchor b = b) (hu : p.unit? b.unit = some u)
    (hs : u.arena.shape? b.target = some (.identifier name))
    (hundeclared : u.declaration? b.target = none) {parent : NodeId} {s : Shape NodeId}
    (hparent : b.parent? = some parent) (hshape : u.arena.shape? parent = some s)
    (hfree : Resolve.isPropertyOf b.target s = false) : p.PlainName u b name where
  unit := hu
  shape := hs
  undeclared := hundeclared
  free above t habove ht := by
    rw [hanchor, hparent] at habove
    cases habove
    rw [hshape] at ht
    cases ht
    exact hfree

namespace PlainName

variable (h : p.PlainName u b name)

include h

theorem written (ha : p.Assembled) : u.arena.isSynthetic b.target = false :=
  ha.written_of_undeclared h.unit h.shape h.undeclared

theorem looksUp (hp : p.Sound) (ha : p.Assembled) : p.LooksUp (p.anchor b) name := by
  obtain ⟨hunit, htarget⟩ := Branch.ref_eq_iff.mp (hp.ref_anchor b)
  have hu : p.unit? (p.anchor b).unit = some u := hunit ▸ h.unit
  refine .name hu (htarget ▸ h.shape) ?_ fun parent hparent => ?_
  · rw [Resolve.declared?, htarget, h.undeclared]
    rfl
  · have hbelow := hp.anchor_below h.unit (h.written ha)
    cases hpath : (p.anchor b).ancestors with
    | nil =>
      rw [Branch.parentBranch?, hpath] at hparent
      cases hparent
    | cons above rest =>
      rw [Branch.parentBranch?, hpath] at hparent
      cases hparent
      have hwhole : (p.anchor b).target :: (p.anchor b).ancestors =
          [] ++ (p.anchor b).target :: above :: rest := congrArg (List.cons _) hpath
      obtain ⟨s, hs, -⟩ := Arena.exists_shape?_of_child (hbelow.child_of_path hwhole)
      refine ⟨s, Program.shape?_of_unit? hu hs, ?_⟩
      rw [htarget]
      exact h.free above s (by rw [Branch.parent?, hpath]; rfl) hs

theorem step_eq (hp : p.Sound) (ha : p.Assembled) (ask : Ask) :
    Resolve.definitionStep p ask (p.anchor b) =
      Resolve.lookupName p ask (p.anchor b) name (p.arity? (p.anchor b)) := by
  obtain ⟨hunit, htarget⟩ := Branch.ref_eq_iff.mp (hp.ref_anchor b)
  have hu : p.unit? (p.anchor b).unit = some u := hunit ▸ h.unit
  have hs : u.arena.shape? (p.anchor b).target = some (.identifier name) := htarget ▸ h.shape
  rw [Resolve.definitionStep_eq (h.looksUp hp ha), Resolve.lookupName_eq]
  simp only [Resolve.candidatesStep, hu, hs, Resolve.bind_ofOption_some]

end PlainName

end Program

end SquirrelAnalyzer
