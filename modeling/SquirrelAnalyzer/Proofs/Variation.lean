import SquirrelAnalyzer.Proofs.Fixpoint
import SquirrelAnalyzer.Proofs.Replay

namespace SquirrelAnalyzer

/-- The declarations of one name at one place: there is a first one. -/
structure Candidates where
  first : Branch
  others : List Branch
  deriving DecidableEq, Repr, Inhabited

namespace Candidates

def ofList? : List Branch → Option Candidates
  | [] => none
  | d :: ds => some ⟨d, ds⟩

def toList (c : Candidates) : List Branch := c.first :: c.others

theorem toList_of_ofList? {l : List Branch} {c : Candidates} (h : ofList? l = some c) :
    c.toList = l := by
  cases l with
  | nil => cases h
  | cons d ds =>
    cases h
    rfl

end Candidates

namespace Arena

variable {a : Arena} {arguments : Nat} {id : NodeId}

def Takes (a : Arena) (arguments : Nat) (id : NodeId) : Prop :=
  ∃ function s params, a.functionOf? id = some function ∧ a.shape? function = some s ∧
    s.params? = some params ∧ ((∃ q ∈ params, a.isRest q = true) ∨ arguments ≤ params.length)

theorem isFunction_of_params? {s : Shape NodeId} {params : List NodeId}
    (h : s.params? = some params) : s.kind.isFunction = true := by
  cases s <;> first | rfl | cases h

theorem takes_iff : a.Takes arguments id ↔
    ∃ params, ((a.valueOf? id).bind a.shape?).bind Shape.params? = some params ∧
      ((∃ q ∈ params, a.isRest q = true) ∨ arguments ≤ params.length) := by
  constructor
  · rintro ⟨function, s, params, hf, hs, hparams, hroom⟩
    obtain ⟨hf, -⟩ := Option.filter_eq_some_iff.mp hf
    exact ⟨params, by rw [hf, Option.bind_some, hs, Option.bind_some, hparams], hroom⟩
  · rintro ⟨params, hs, hroom⟩
    obtain ⟨s, hs, hparams⟩ := Option.bind_eq_some_iff.mp hs
    obtain ⟨function, hf, hs⟩ := Option.bind_eq_some_iff.mp hs
    refine ⟨function, s, params, ?_, hs, hparams, hroom⟩
    have hk : a.kind? function = some s.kind := by rw [a.kind?_eq_map, hs, Option.map_some]
    simp [functionOf?, hf, hk, isFunction_of_params? hparams]

instance (a : Arena) (arguments : Nat) (id : NodeId) : Decidable (a.Takes arguments id) :=
  decidable_of_iff ((((a.valueOf? id).bind a.shape?).bind Shape.params?).any (fun params =>
    params.any a.isRest || decide (arguments ≤ params.length)) = true) (by
      rw [takes_iff, Option.any_eq_true]
      simp)

theorem bind_callable? : ((a.callable? id).bind a.shape?).bind Shape.params? =
    if a.kind? id = some .propertyDefinition then none
    else ((a.valueOf? id).bind a.shape?).bind Shape.params? := by
  rw [a.kind?_eq_map]
  unfold callable? valueOf?
  cases hs : a.shape? id with
  | none => rfl
  | some s =>
    cases s with
    | propertyDefinition => simp [hs, Shape.kind, Shape.params?]
    | _ => rfl

theorem accepts_iff : a.accepts arguments id = true ↔
    a.Takes arguments id ∧ a.kind? id ≠ some .propertyDefinition := by
  rw [accepts, bind_callable?, takes_iff]
  split
  · next params hparams =>
    split at hparams
    · cases hparams
    · next hk => simp [hparams, hk]
  · next hparams =>
    split at hparams
    · next hk => simp [hk]
    · simp [hparams]

end Arena

namespace Program

variable {p : Program} {arity : Option Nat} {d : Branch}

def Takes (p : Program) (arguments : Nat) (d : Branch) : Prop :=
  ∃ u, p.unit? d.unit = some u ∧ u.arena.Takes arguments d.target

instance (p : Program) (arguments : Nat) (d : Branch) : Decidable (p.Takes arguments d) :=
  decidable_of_iff ((p.unit? d.unit).any (fun u =>
    decide (u.arena.Takes arguments d.target)) = true) (by
      rw [Option.any_eq_true]
      simp [Takes])

theorem accepts_iff {arguments : Nat} : p.accepts arguments d = true ↔
    p.Takes arguments d ∧ p.kind? d ≠ some .propertyDefinition := by
  unfold accepts Takes
  cases hu : p.unit? d.unit with
  | none => simp
  | some u => simp [Arena.accepts_iff, kind?_of_unit? hu]

def Selects (c : Candidates) (accepted : Branch → Prop) (d : Branch) : Prop :=
  (∃ before after, c.toList = before ++ d :: after ∧ accepted d ∧ ∀ x ∈ before, ¬accepted x) ∨
    d = c.first ∧ ∀ x ∈ c.toList, ¬accepted x

/-- What one place lists under a name, in order: a scope of a unit, or the own members of a class,
table or enum. -/
inductive Level (p : Program) (name : String) : List Branch → Prop
  | scope {id : UnitId} {u : SourceUnit} (hu : p.unit? id = some u) (node : NodeId) :
    Level p name (((u.scope node).filter (·.name = name)).map (·.declaration))
  | owner (owner : Branch) :
    Level p name (((p.ownMembers owner).filter (·.1 = name)).map (·.2))

def choice (p : Program) (arity : Option Nat) (c : Candidates) : Branch :=
  (p.variation? arity c.toList).getD c.first

theorem variation?_eq (arity : Option Nat) (l : List Branch) :
    p.variation? arity l = (Candidates.ofList? l).map (p.choice arity) := by
  cases l with
  | nil => cases arity with
    | none => rfl
    | some n => cases n <;> rfl
  | cons d ds =>
    have h : (p.variation? arity (d :: ds)).isSome := by
      unfold variation?
      simp
    obtain ⟨e, he⟩ := Option.isSome_iff_exists.mp h
    rw [he]
    simp [Candidates.ofList?, choice, Candidates.toList, he]

theorem choice_of_zero (c : Candidates) (h : ∀ n, arity = some n → n = 0) :
    p.choice arity c = c.first := by
  cases arity with
  | none => rfl
  | some n =>
    obtain rfl := h n rfl
    rfl

theorem selects_choice (c : Candidates) (n : Nat) :
    Selects c (fun d => p.accepts (n + 1) d = true) (p.choice (some (n + 1)) c) := by
  unfold choice variation?
  dsimp only
  cases h : c.toList.find? (p.accepts (n + 1)) with
  | some d =>
    obtain ⟨hd, before, after, he, hbefore⟩ := List.find?_eq_some_iff_append.mp h
    exact .inl ⟨before, after, he, hd, fun x hx => by simpa using hbefore x hx⟩
  | none =>
    refine .inr ⟨rfl, fun x hx => ?_⟩
    simpa using List.find?_eq_none.mp h x hx

def scopedCandidates? (scope : List ScopedName) (name : String) : Option Candidates :=
  Candidates.ofList? ((scope.filter (·.name = name)).map (·.declaration))

def ownCandidates? (p : Program) (name : String) (owner : Branch) : Option Candidates :=
  Candidates.ofList? (((p.ownMembers owner).filter (·.1 = name)).map (·.2))

def importedCandidates? (p : Program) (unit : UnitId) (name : String) : Option Candidates :=
  ((p.imports.of unit).filterMap p.unit?).findSome? fun u =>
    scopedCandidates? (u.scope u.arena.root) name

theorem scoped?_eq (scope : List ScopedName) (name : String) :
    p.scoped? scope name arity = (scopedCandidates? scope name).map (p.choice arity) :=
  variation?_eq _ _

theorem ownMember?_eq (name : String) (owner : Branch) :
    p.ownMember? name arity owner = (p.ownCandidates? name owner).map (p.choice arity) :=
  variation?_eq _ _

theorem imported?_eq (unit : UnitId) (name : String) :
    p.imported? unit name arity = (p.importedCandidates? unit name).map (p.choice arity) := by
  rw [importedCandidates?, List.map_findSome?, imported?]
  congr 1
  funext u
  exact scoped?_eq _ _

inductive LooksUp (p : Program) (b : Branch) (name : String) : Prop
  | name {u : SourceUnit} (hu : p.unit? b.unit = some u)
    (hs : u.arena.shape? b.target = some (.identifier name))
    (hdeclared : Resolve.declared? u b = none)
    (hplain : ∀ parent, b.parentBranch? = some parent →
      ∃ s, p.shape? parent = some s ∧ Resolve.isPropertyOf b.target s = false)
  | member {u : SourceUnit} {object property : NodeId} {computed : Bool}
    (hu : p.unit? b.unit = some u)
    (hs : u.arena.shape? b.target = some (.memberExpression object property computed))
    (hname : Resolve.accessedName? u property computed = some name)

end Program

namespace Resolve

variable {α β : Type}

theorem map_ofOption (f : α → β) (o : Option α) : f <$> ofOption o = ofOption (o.map f) := by
  cases o <;> rfl

theorem map_orElse (f : α → β) (x y : Resolve α) : f <$> (x <|> y) = (f <$> x <|> f <$> y) := by
  refine OptionT.ext ?_
  simp only [OptionT.run_map, OptionT.run_orElse, Option.elimM, map_bind, bind_map_left]
  congr 1
  funext o
  cases o <;> rfl

variable (p : Program) (ask : Ask)

def memberCandidates (name : String) (v : Value) : Resolve Candidates := do
  let levels ← levels p ask v
  ofOption (levels.findSome? (p.ownCandidates? name))

def candidatesAt (name : String) (outer : Branch) (inner : NodeId) : Resolve Candidates :=
  ofOption (Program.scopedCandidates? (scopeAt p outer) name) <|>
    bodyOwner p ask outer inner >>= memberCandidates p ask name

def candidatesAmong (unit : UnitId) (name : String) :
    List (Branch × NodeId) → Resolve Candidates
  | [] => ofOption (p.importedCandidates? unit name)
  | (outer, inner) :: rest =>
    candidatesAt p ask name outer inner <|> candidatesAmong unit name rest

def nameCandidates (b : Branch) (name : String) : Resolve Candidates :=
  if (p.unit? b.unit).isSome then candidatesAmong p ask b.unit name b.enclosing else failure

def accessCandidates (object : Branch) (name : String) : Resolve Candidates := do
  let value ← attempt (ask .value object)
  (ofOption value >>= memberCandidates p ask name) <|>
    (documentedValue p ask object >>= memberCandidates p ask name) <|>
    (augmentedValue p ask value >>= memberCandidates p ask name)

def candidatesStep (b : Branch) : Resolve Candidates := do
  let u ← ofOption (p.unit? b.unit)
  match ← ofOption (u.arena.shape? b.target) with
  | .identifier name => nameCandidates p ask b name
  | .memberExpression object property computed =>
    let name ← ofOption (accessedName? u property computed)
    accessCandidates p ask (b.child object) name
  | _ => failure

variable {p ask} {name : String} {arity : Option Nat}

theorem findMember_eq (v : Value) :
    findMember p ask name arity v = p.choice arity <$> memberCandidates p ask name v := by
  unfold findMember memberCandidates
  rw [map_bind]
  congr 1
  funext levels
  rw [map_ofOption, List.map_findSome?]
  congr 2
  funext owner
  exact Program.ownMember?_eq name owner

theorem bind_findMember_eq (x : Resolve Value) : x >>= findMember p ask name arity =
    p.choice arity <$> (x >>= memberCandidates p ask name) := by
  rw [map_bind]
  congr 1
  funext v
  exact findMember_eq v

theorem nameAt_eq (outer : Branch) (inner : NodeId) :
    nameAt p ask name arity outer inner =
      p.choice arity <$> candidatesAt p ask name outer inner := by
  unfold nameAt candidatesAt
  rw [map_orElse, map_ofOption, bind_findMember_eq, Program.scoped?_eq]

theorem lookupName_eq (b : Branch) :
    lookupName p ask b name arity = p.choice arity <$> nameCandidates p ask b name := by
  have hamong (around : List (Branch × NodeId)) : nameAmong p ask b.unit name arity around =
      p.choice arity <$> candidatesAmong p ask b.unit name around := by
    induction around with
    | nil => rw [nameAmong, candidatesAmong, map_ofOption, Program.imported?_eq]
    | cons e rest ih => rw [nameAmong, candidatesAmong, map_orElse, nameAt_eq, ih]
  unfold lookupName nameCandidates
  split
  · exact hamong b.enclosing
  · rfl

theorem memberOf_eq (object : Branch) :
    memberOf p ask object name arity = p.choice arity <$> accessCandidates p ask object name := by
  unfold memberOf accessCandidates
  rw [map_bind]
  congr 1
  funext value
  rw [map_orElse, map_orElse, bind_findMember_eq, bind_findMember_eq, bind_findMember_eq]

theorem definitionStep_eq {b : Branch} (h : p.LooksUp b name) :
    definitionStep p ask b = p.choice (p.arity? b) <$> candidatesStep p ask b := by
  unfold definitionStep candidatesStep
  cases h with
  | @name u hu hs hdeclared hplain =>
    simp only [hu, hs, bind_ofOption_some, hdeclared]
    rw [← lookupName_eq, nameDefinition]
    split
    · rfl
    · next parent hparent =>
      obtain ⟨s, hs, hproperty⟩ := hplain parent hparent
      simp only [hs]
      rw [if_neg (by simp [hproperty])]
  | member hu hs hname =>
    simp only [hu, hs, bind_ofOption_some, hname]
    exact memberOf_eq _

section Levels

theorem memberCandidates_finds {P : Prop} (v : Value) :
    Finds (fun _ => True) P (fun ask => memberCandidates p ask name v) fun c =>
      p.Level name c.toList := by
  unfold memberCandidates
  have hlevels : Follows (fun _ => True) P (fun ask => levels p ask v) _ :=
    levels_follows p.closed_true fun _ => Query.holds_true .value v
  refine Finds.bind (Finds.lift hlevels) fun levels => Finds.ofOption fun _ c hc => ?_
  obtain ⟨owner, -, hc⟩ := List.exists_of_findSome?_eq_some hc
  exact Candidates.toList_of_ofList? hc ▸ .owner owner

theorem scopedCandidates_level {id : UnitId} {u : SourceUnit} (hu : p.unit? id = some u)
    {node : NodeId} {c : Candidates}
    (h : Program.scopedCandidates? (u.scope node) name = some c) : p.Level name c.toList :=
  Candidates.toList_of_ofList? h ▸ .scope hu node

theorem candidatesAt_finds (outer : Branch) (inner : NodeId) :
    Finds (fun _ => True) True (fun ask => candidatesAt p ask name outer inner) fun c =>
      p.Level name c.toList := by
  unfold candidatesAt
  have howner : Finds (fun _ => True) True (fun ask => bodyOwner p ask outer inner) _ :=
    bodyOwner_finds p.closed_true fun _ _ => trivial
  refine Finds.orElse (Finds.ofOption fun _ c hc => ?_) (Finds.bind howner fun v => ?_)
  · unfold scopeAt at hc
    split at hc
    · cases hc
    · next u hu =>
      split at hc
      · exact scopedCandidates_level hu hc
      · cases hc
  · exact memberCandidates_finds v

theorem nameCandidates_finds (b : Branch) :
    Finds (fun _ => True) True (fun ask => nameCandidates p ask b name) fun c =>
      p.Level name c.toList := by
  have hamong (around : List (Branch × NodeId)) : Finds (fun _ => True) True
      (fun ask => candidatesAmong p ask b.unit name around) fun c => p.Level name c.toList := by
    induction around with
    | nil =>
      refine Finds.ofOption fun _ c hc => ?_
      obtain ⟨u, hu, hc⟩ := List.exists_of_findSome?_eq_some hc
      obtain ⟨id, -, hid⟩ := List.mem_filterMap.mp hu
      exact scopedCandidates_level hid hc
    | cons e rest ih => exact Finds.orElse (candidatesAt_finds e.1 e.2) ih
  unfold nameCandidates
  split
  · exact hamong b.enclosing
  · exact Finds.failure

theorem accessCandidates_finds (object : Branch) :
    Finds (fun _ => True) True (fun ask => accessCandidates p ask object name) fun c =>
      p.Level name c.toList := by
  unfold accessCandidates
  refine Finds.bind (Finds.attempt (Finds.ask .value fun _ => trivial)) fun v => ?_
  refine Finds.orElse ?_ (Finds.orElse ?_ ?_)
  · exact Finds.bind (Finds.ofOption (Q := fun _ => True) fun _ _ _ => trivial)
      fun _ => memberCandidates_finds _
  · exact Finds.bind (documentedValue_finds p.closed_true fun _ => trivial)
      fun _ => memberCandidates_finds _
  · have haugmented {P : Prop} : Finds (fun _ => True) P (fun ask => augmentedValue p ask v) _ :=
      augmentedValue_finds p.closed_true fun _ x _ => Query.holds_true .value x
    exact Finds.bind haugmented fun _ => memberCandidates_finds _

theorem candidatesStep_finds {b : Branch} (h : p.LooksUp b name) :
    Finds (fun _ => True) True (fun ask => candidatesStep p ask b) fun c =>
      p.Level name c.toList := by
  unfold candidatesStep
  cases h with
  | name hu hs =>
    simp only [hu, hs, bind_ofOption_some]
    exact nameCandidates_finds b
  | member hu hs hname =>
    simp only [hu, hs, bind_ofOption_some, hname]
    exact accessCandidates_finds _

end Levels

end Resolve

namespace Plan

variable {α : Type} {p : Program} {m : Memo}

theorem outcome_of_keeps {t : Plan α} {Q : α → Prop} (h : t.Keeps (fun _ => True) Q) (ask : Ask)
    (s : Progress) : Q ((t.run ask).run s).1 := by
  induction t generalizing s with
  | done a => exact h
  | ask q b next ih => exact ih _ (h.2 _ fun x _ => Query.holds_true q x) _

theorem run_of_eval_known {t : Plan α} {x : α} (h : t.eval (p.known m) = some x) (w : Walk)
    (n : Nat) : (t.run (p.answerWithin (n + 1))).run ⟨w, m⟩ = (x, ⟨w, m⟩) := by
  induction t with
  | done a =>
    cases h
    rfl
  | ask q b next ih =>
    obtain ⟨r, hr, hx⟩ := Option.bind_eq_some_iff.mp h
    rw [run_ask, Program.run_of_known hr]
    exact ih r hx

end Plan

theorem Resolve.run_guarded_map {α β : Type} (limit : Nat) (f : Frame) (g : α → β) (x : Resolve α)
    (s : Progress) : ((guarded limit f (g <$> x)).run s).1.1 =
      ((guarded limit f x).run s).1.1.map g := by
  cases hf : s.walk.refuses limit f with
  | true => rw [run_guarded_of_refuses hf, run_guarded_of_refuses hf, Option.map_none]
  | false =>
    rw [run_guarded hf, run_guarded hf, OptionT.run_map, StateT.run_map]
    rfl

namespace Program

variable {p : Program} {b : Branch} {name : String} {m : Memo}

theorem run_answer_eq_guarded {q : Query} (hm : p.Grown m) (hdeep : m.Meets p.deep)
    (hslot : p.HasSlot q b) (hcongr : ∀ b', b'.ref = b.ref → ∀ ask,
      p.stepAt ask q (p.anchor b') = p.stepAt ask q (p.anchor b)) :
    ((p.answer q b).run.run ⟨{}, m⟩).1 = ((Resolve.guarded p.config.maxDepth ⟨q, b.ref⟩
      (p.stepAt (p.answerWithin p.frameCount) q (p.anchor b))).run ⟨{}, m⟩).1.1 := by
  cases hf : ({} : Walk).refuses p.config.maxDepth ⟨q, b.ref⟩ with
  | true =>
    have hd : p.config.maxDepth = 0 := by simpa [Walk.refuses] using hf
    rw [Resolve.run_guarded_of_refuses (s := ⟨{}, m⟩) hf, Option.eq_none_iff_forall_ne_some]
    intro d hfound
    have hmeets := p.answer_deep q b ⟨{}, m⟩ _ _ hdeep rfl
    have hpos := hmeets.1 d hfound b (congrArg Branch.ref hslot.subject_eq).symm hslot
    exact Nat.ne_of_gt hpos hd
  | false =>
    rw [Resolve.run_guarded (s := ⟨{}, m⟩) hf, hslot.answer_eq]
    cases hget : m.get? q b.ref with
    | some r =>
      obtain ⟨b', hr, heval⟩ := hm.exists_eval hget
      have hsize : 0 < p.frameCount := by
        obtain ⟨kind, hk, -⟩ := hslot
        obtain ⟨s, hs, -⟩ := Option.map_eq_some_iff.mp hk
        rw [← p.length_frames]
        exact List.length_pos_of_mem (mem_frames (Option.isSome_iff_exists.mpr ⟨s, hs⟩) q)
      obtain ⟨n, hn⟩ := Nat.exists_eq_add_of_lt hsize
      rw [Resolve.run_remembered_of_get? (s := ⟨{}, m⟩) hget, ← hcongr b' hr, hn, Nat.zero_add,
        ← step_eq_stepAt, run_plan, Plan.run_of_eval_known heval]
    | none =>
      cases hrun : (p.stepAt (p.answerWithin p.frameCount) q (p.anchor b)).run.run
        (Progress.enter ⟨{}, m⟩ ⟨q, b.ref⟩) with | mk o s
      rw [Progress.run_remembered_of_run (s := ⟨{}, m⟩) hget hf hrun]
      exact (congrArg Prod.fst hrun).symm

def candidates (p : Program) (b : Branch) : Resolving (Option Candidates) := do
  return (← Resolve.guarded p.config.maxDepth ⟨.definition, b.ref⟩
    (Resolve.candidatesStep p (p.answerWithin p.frameCount) (p.anchor b))).1

theorem LooksUp.hasSlot (hp : p.Sound) (h : p.LooksUp (p.anchor b) name) :
    p.HasSlot .definition b := by
  suffices hslot : p.HasSlot .definition (p.anchor b) from hslot.congr (hp.ref_anchor b).symm
  cases h with
  | name hu hs => exact ⟨.identifier, by rw [kind?, shape?_of_unit? hu hs]; rfl, rfl⟩
  | member hu hs => exact ⟨.memberExpression, by rw [kind?, shape?_of_unit? hu hs]; rfl, rfl⟩

theorem LooksUp.not_propertyName (hp : p.Sound) (ha : p.Assembled)
    (h : p.LooksUp (p.anchor b) name) {u : SourceUnit} (hu : p.unit? b.unit = some u) :
    u.isPropertyName b.target = false := by
  rw [← Bool.not_eq_true]
  intro hname
  obtain ⟨⟨name', hs'⟩, hanchor, hdeclared'⟩ := declared?_propertyName hp ha hu hname
  rw [hanchor] at h
  cases h with
  | name hv hs hdeclared =>
    obtain rfl := Option.some.inj (hu.symm.trans hv)
    rw [hdeclared] at hdeclared'
    cases hdeclared'
  | member hv hs =>
    obtain rfl := Option.some.inj (hu.symm.trans hv)
    rw [hs] at hs'
    cases hs'

theorem LooksUp.stepAt_congr (hp : p.Sound) (ha : p.Assembled) (h : p.LooksUp (p.anchor b) name)
    {b' : Branch} (hr : b'.ref = b.ref) (ask : Ask) :
    p.stepAt ask .definition (p.anchor b') = p.stepAt ask .definition (p.anchor b) := by
  have hslot := h.hasSlot hp
  obtain ⟨kind, hk, -⟩ := hslot
  obtain ⟨s, hs, -⟩ := Option.map_eq_some_iff.mp hk
  obtain ⟨u, hu, -⟩ := unit?_of_shape? hs
  exact Program.stepAt_congr hp ha hu (h.hasSlot hp) hr (h.not_propertyName hp ha hu)
    ((h.hasSlot hp).isPlainProperty_eq_false hu) ask

theorem level_of_candidates (h : p.LooksUp (p.anchor b) name) {c : Candidates}
    (hc : ((p.candidates b).run ⟨{}, m⟩).1 = some c) : p.Level name c.toList := by
  rw [candidates, StateT.run_bind] at hc
  have hc : ((Resolve.guarded p.config.maxDepth ⟨.definition, b.ref⟩
    (Resolve.candidatesStep p (p.answerWithin p.frameCount) (p.anchor b))).run ⟨{}, m⟩).1.1 = some c := hc
  cases hf : ({} : Walk).refuses p.config.maxDepth ⟨.definition, b.ref⟩ with
  | true =>
    rw [Resolve.run_guarded_of_refuses (s := ⟨{}, m⟩) hf] at hc
    cases hc
  | false =>
    obtain ⟨t, ht, hkeeps⟩ := Resolve.candidatesStep_finds h
    have ht (ask : Ask) : (Resolve.candidatesStep p ask (p.anchor b)).run = t.run ask := ht ask
    rw [Resolve.run_guarded (s := ⟨{}, m⟩) hf, ht] at hc
    exact Plan.outcome_of_keeps (hkeeps trivial) _ _ c hc

theorem run_answer_eq_choice (hp : p.Sound) (ha : p.Assembled) (hm : p.Grown m)
    (hdeep : m.Meets p.deep) (h : p.LooksUp (p.anchor b) name) :
    ((p.answer .definition b).run.run ⟨{}, m⟩).1 =
      ((p.candidates b).run ⟨{}, m⟩).1.map (p.choice (p.arity? (p.anchor b))) := by
  rw [run_answer_eq_guarded hm hdeep (h.hasSlot hp) fun b' hr ask => h.stepAt_congr hp ha hr ask]
  show ((Resolve.guarded _ _ (Resolve.definitionStep p _ (p.anchor b))).run _).1.1 = _
  rw [Resolve.definitionStep_eq h, Resolve.run_guarded_map]
  rfl

def CalledWith (p : Program) (b : Branch) (arguments : List NodeId) : Prop :=
  ∃ call, (p.anchor b).parentBranch? = some call ∧
    p.shape? call = some (.callExpression b.target arguments)

theorem arity?_anchor (hp : p.Sound) {n : Nat} : p.arity? (p.anchor b) = some n ↔
    ∃ arguments, p.CalledWith b arguments ∧ arguments.length = n := by
  have htarget : (p.anchor b).target = b.target := congrArg NodeRef.node (hp.ref_anchor b)
  unfold arity? CalledWith
  cases hparent : (p.anchor b).parentBranch? with
  | none => simp
  | some call =>
    cases hs : p.shape? call with
    | none => simp [hs]
    | some s =>
      cases s with
      | callExpression callee arguments =>
        simp [hs, Shape.call?, htarget]
      | _ => simp [hs, Shape.call?]

theorem selects_of_called (hp : p.Sound) (c : Candidates) (arguments : List NodeId)
    (hcall : p.CalledWith b arguments) (hne : arguments ≠ []) :
    Selects c (fun x => p.Takes arguments.length x ∧ p.kind? x ≠ some .propertyDefinition)
      (p.choice (p.arity? (p.anchor b)) c) := by
  obtain ⟨n, hn⟩ := Nat.exists_eq_succ_of_ne_zero (mt List.length_eq_zero_iff.mp hne)
  rw [(arity?_anchor hp).mpr ⟨arguments, hcall, hn⟩, hn]
  simp only [← accepts_iff]
  exact selects_choice c n

theorem first_of_not_called (hp : p.Sound) (c : Candidates)
    (hcall : ∀ arguments, p.CalledWith b arguments → arguments = []) :
    p.choice (p.arity? (p.anchor b)) c = c.first := by
  refine choice_of_zero c fun n hn => ?_
  obtain ⟨arguments, hcalled, rfl⟩ := (arity?_anchor hp).mp hn
  rw [hcall arguments hcalled, List.length_nil]

end Program

namespace Analysis

variable {a : Analysis} {b : Branch} {name : String}

def candidates (b : Branch) : Asking (Option Candidates) := walk fun p => p.candidates b

/-- A plain name or a member is defined by one of the declarations that a single place lists under
the name, and has no definition only if no place lists any. If it is called with arguments, that is
the first declaration that is or is bound to a function with room for them, not counting slots, else
the first one of all. If it is not called, or with no arguments, it is the first one. -/
theorem definition_candidates (h : a.Reachable fun _ _ => True)
    (hb : a.program.LooksUp (a.program.anchor b) name) :
    (((candidates b).run a).1 = none → ((definition b).run a).1 = none) ∧
    ∀ c, ((candidates b).run a).1 = some c → a.program.Level name c.toList ∧
      ∃ d, ((definition b).run a).1 = some d ∧
        (∀ arguments, a.program.CalledWith b arguments → arguments ≠ [] →
          Program.Selects c (fun x => a.program.Takes arguments.length x ∧
            a.program.kind? x ≠ some .propertyDefinition) d) ∧
        ((∀ arguments, a.program.CalledWith b arguments → arguments = []) → d = c.first) := by
  have hdeep := h.meets a.program.answer_deep
  have hchoice : ((definition b).run a).1 = ((candidates b).run a).1.map
      (a.program.choice (a.program.arity? (a.program.anchor b))) :=
    Program.run_answer_eq_choice h.sound h.assembled h.grown hdeep hb
  refine ⟨fun hnone => by rw [hchoice, hnone, Option.map_none], fun c hc => ?_⟩
  rw [hc, Option.map_some] at hchoice
  exact ⟨Program.level_of_candidates hb hc, _, hchoice, Program.selects_of_called h.sound c,
    Program.first_of_not_called h.sound c⟩

theorem definition_candidates_function : ∃ a b c d,
    ofSources {} Imports.none
      ["class C { function f(a) {} } function C::f(a, b) {} C.f(1, 2);"] = .ok a ∧
    a.program.LooksUp (a.program.anchor b) "f" ∧ ((candidates b).run a).1 = some c ∧
    d ≠ c.first ∧ ((definition b).run a).1 = some d ∧ a.program.Level "f" c.toList ∧
    Program.Selects c (fun x => a.program.Takes 2 x ∧
      a.program.kind? x ≠ some .propertyDefinition) d := by
  let b : Branch := ⟨⟨0⟩, ⟨16⟩, [⟨19⟩, ⟨20⟩, ⟨21⟩]⟩
  let c : Candidates := ⟨⟨⟨0⟩, ⟨5⟩, [⟨6⟩, ⟨7⟩, ⟨21⟩]⟩, [⟨⟨0⟩, ⟨13⟩, [⟨7⟩, ⟨21⟩]⟩]⟩
  let d : Branch := ⟨⟨0⟩, ⟨13⟩, [⟨7⟩, ⟨21⟩]⟩
  let call : Branch := ⟨⟨0⟩, ⟨19⟩, [⟨20⟩, ⟨21⟩]⟩
  have hbuilt : (ofSources {} Imports.none
      ["class C { function f(a) {} } function C::f(a, b) {} C.f(1, 2);"]).toOption.any
        (fun a => (a.unit? b.unit).any fun u => decide (
          (u.arena.shape? b.target = some (.memberExpression ⟨14⟩ ⟨15⟩ false) ∧
            Resolve.accessedName? u ⟨15⟩ false = some "f" ∧ a.program.anchor b = b) ∧
          a.program.shape? call = some (.callExpression b.target [⟨17⟩, ⟨18⟩]) ∧
          ((candidates b).run a).1 = some c ∧ ((definition b).run a).1 = some d)) = true := by
    decide +kernel
  obtain ⟨a, ha, h⟩ := exists_ok hbuilt
  obtain ⟨u, hu, h⟩ := (Option.any_eq_true _ _).mp h
  obtain ⟨⟨hs, hname, hanchor⟩, hcall, hc, hd⟩ := of_decide_eq_true h
  have hlookup : a.program.LooksUp (a.program.anchor b) "f" := by
    rw [hanchor]
    exact .member hu hs hname
  have hcalled : a.program.CalledWith b [⟨17⟩, ⟨18⟩] := ⟨call, by rw [hanchor]; rfl, hcall⟩
  obtain ⟨hlevel, e, he, hselects, -⟩ := (definition_candidates (.ofSources ha) hlookup).2 c hc
  obtain rfl : d = e := Option.some.inj (hd.symm.trans he)
  exact ⟨a, b, c, d, ha, hlookup, hc, by decide, hd, hlevel, hselects _ hcalled (by simp)⟩

theorem definition_candidates_slot : ∃ a b c d arguments,
    ofSources {} Imports.none
      ["class C { f = function(a) {} f = function(a, b) {} } C.f(1, 2);"] = .ok a ∧
    a.program.LooksUp (a.program.anchor b) "f" ∧ a.program.CalledWith b arguments ∧
    ((candidates b).run a).1 = some c ∧ ((definition b).run a).1 = some d ∧
    ¬Program.Selects c (a.program.Takes arguments.length) d := by
  let b : Branch := ⟨⟨0⟩, ⟨16⟩, [⟨19⟩, ⟨20⟩, ⟨21⟩]⟩
  let d : Branch := ⟨⟨0⟩, ⟨5⟩, [⟨12⟩, ⟨13⟩, ⟨21⟩]⟩
  let e : Branch := ⟨⟨0⟩, ⟨11⟩, [⟨12⟩, ⟨13⟩, ⟨21⟩]⟩
  let call : Branch := ⟨⟨0⟩, ⟨19⟩, [⟨20⟩, ⟨21⟩]⟩
  have hbuilt : (ofSources {} Imports.none
      ["class C { f = function(a) {} f = function(a, b) {} } C.f(1, 2);"]).toOption.any
        (fun a => (a.unit? b.unit).any fun u => decide (
          (u.arena.shape? b.target = some (.memberExpression ⟨14⟩ ⟨15⟩ false) ∧
            Resolve.accessedName? u ⟨15⟩ false = some "f" ∧ a.program.anchor b = b) ∧
          a.program.shape? call = some (.callExpression b.target [⟨17⟩, ⟨18⟩]) ∧
          (((candidates b).run a).1 = some ⟨d, [e]⟩ ∧ ((definition b).run a).1 = some d) ∧
          ¬a.program.Takes 2 d ∧ a.program.Takes 2 e)) = true := by
    decide +kernel
  obtain ⟨a, ha, h⟩ := exists_ok hbuilt
  obtain ⟨u, hu, h⟩ := (Option.any_eq_true _ _).mp h
  obtain ⟨⟨hs, hname, hanchor⟩, hcall, ⟨hc, hd⟩, hfirst, hsecond⟩ := of_decide_eq_true h
  refine ⟨a, b, ⟨d, [e]⟩, d, [⟨17⟩, ⟨18⟩], ha, ?_, ⟨call, ?_, hcall⟩, hc, hd, ?_⟩
  · rw [hanchor]
    exact .member hu hs hname
  · rw [hanchor]
    rfl
  · rintro (⟨before, after, -, haccepted, -⟩ | ⟨-, hnone⟩)
    · exact hfirst haccepted
    · exact hnone e (by simp [Candidates.toList]) hsecond

end Analysis

end SquirrelAnalyzer
