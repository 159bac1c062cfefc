import SquirrelAnalyzer.Proofs.Matches.Lookup
import SquirrelAnalyzer.Proofs.Termination

namespace SquirrelAnalyzer

def Ask.Within (I : Branch → Prop) (ask : Ask) : Prop :=
  ∀ q b s x, ((ask q b).run.run s).1 = some x → q.Holds I x

section

variable {I : Branch → Prop} {ask : Ask} {α β : Type} {Q : α → Prop}

theorem Plan.Keeps.bind_congr {t : Plan α} (ht : t.Keeps I Q) (hask : ask.Within I)
    {f g : α → Resolving β} (h : ∀ a, Q a → f a = g a) : t.run ask >>= f = t.run ask >>= g := by
  induction t with
  | done a => exact h a ht
  | ask q b next ih =>
    simp only [Plan.run, bind_assoc]
    apply Resolve.bind_congr_of_run
    intro s answer s' hrun
    refine ih answer (ht.2 answer fun x hx => hask q b s x ?_)
    rw [hrun, hx]

theorem Follows.bind_congr {F : Ask → Resolving α} (hF : Follows I True F Q) (hask : ask.Within I)
    {f g : α → Resolving β} (h : ∀ a, Q a → f a = g a) : F ask >>= f = F ask >>= g := by
  obtain ⟨t, ht, hkeeps⟩ := hF
  rw [ht ask]
  exact (hkeeps trivial).bind_congr hask h

theorem Finds.bind_congr {F : Ask → Resolve α} (hF : Finds I True F Q) (hask : ask.Within I)
    {f g : α → Resolve β} (h : ∀ a, Q a → f a = g a) : F ask >>= f = F ask >>= g := by
  apply OptionT.ext
  rw [OptionT.run_bind, OptionT.run_bind]
  refine Follows.bind_congr hF hask fun o ho => ?_
  cases o with
  | none => rfl
  | some a => exact congrArg OptionT.run (h a (ho a rfl))

end

namespace Program.Matches

open Resolve

variable {p p' : Program} {I : Branch → Prop} (h : p.Matches p' I) {ask : Ask}
  (hask : ask.Within I) {b : Branch}

include h

theorem instantiated {v : Value} (hv : Query.Holds I .value v) :
    v.instantiated p = v.instantiated p' := by
  cases v with
  | nominal name => rfl
  | node b i call => simp only [Value.instantiated, h.isClass hv.1]

theorem membersOf {levels : List Branch} (hl : ∀ b ∈ levels, I b) :
    p.membersOf levels = p'.membersOf levels := by
  refine List.flatMap_congr fun x hx => ?_
  simp only [h.ownMembers (hl x.1 (List.fst_mem_of_mem_zipIdx hx))]

include hask

theorem superclass (hb : I b) : superclass p ask b = superclass p' ask b := by
  unfold Resolve.superclass
  rw [← (h.unit hb).bind_shape? Shape.blind_classParts?]
  cases hp : (p.shape? b).bind Shape.classParts? with
  | none => rw [bind_ofOption_none, bind_ofOption_none]
  | some parts =>
    obtain ⟨superclass, body⟩ := parts
    cases superclass with
    | none => simp only [bind_ofOption_some, bind_ofOption_none]
    | some c =>
      obtain ⟨s, hs, hparts⟩ := Option.bind_eq_some_iff.mp hp
      have hc := h.left.childOf hb hs (Shape.mem_operands_of_superclass hparts)
      simp only [bind_ofOption_some]
      refine (Finds.ask .value fun _ => hc).bind_congr hask fun v hv => ?_
      refine (branch?_finds fun _ => hv).bind_congr hask fun s hs => ?_
      rw [h.isClass hs]

theorem superclassesUpTo {n : Nat} {seen : List NodeRef} (hb : I b) :
    superclassesUpTo p ask n seen b = superclassesUpTo p' ask n seen b := by
  induction n generalizing seen b with
  | zero => rfl
  | succ n ih =>
    unfold Resolve.superclassesUpTo
    rw [← h.superclass hask hb]
    refine Follows.bind_congr (superclass_finds h.left fun _ => hb) hask fun o ho => ?_
    cases o with
    | none => rfl
    | some s => simp only [ih (ho s rfl)]

theorem superclasses (hb : I b) : superclasses p ask b = superclasses p' ask b := by
  rw [← superclassesUpTo_size b p'.size, ← superclassesUpTo_size b p.size, Nat.add_comm p'.size,
    h.superclassesUpTo hask hb]

theorem levels {v : Value} (hv : Query.Holds I .value v) : levels p ask v = levels p' ask v := by
  cases v with
  | nominal name => rfl
  | node b i call =>
    simp only [Resolve.levels, Value.branch?, h.isClass hv.1, h.superclasses hask hv.1]

theorem findMember {v : Value} (hv : Query.Holds I .value v) (name : String)
    (arity : Option Nat) : findMember p ask name arity v = findMember p' ask name arity v := by
  unfold Resolve.findMember
  rw [← h.levels hask hv]
  refine (Finds.lift (levels_follows h.left fun _ => hv)).bind_congr hask fun bs hbs => ?_
  rw [← List.head?_filterMap, ← List.head?_filterMap,
    List.filterMap_congr fun b hb => h.ownMember? (hbs b hb) name arity]

theorem members {v : Value} (hv : Query.Holds I .value v) :
    members p ask v = members p' ask v := by
  unfold Resolve.members
  rw [← h.levels hask hv]
  refine (levels_follows h.left fun _ => hv).bind_congr hask fun bs hbs => ?_
  rw [h.membersOf hbs]

omit h hask in
theorem bodyOwner (ask : Ask) (hb : p.RespelledAt p' b.unit) (inner : NodeId) :
    bodyOwner p ask b inner = bodyOwner p' ask b inner := by
  rw [Resolve.bodyOwner, Resolve.bodyOwner]
  rcases hb.shape?_cases with hs | ⟨name, hs, hs'⟩ | ⟨key, s, s', hs, hs', hbracket, -⟩
  · rw [hs]
  · rw [hs, hs']
    rfl
  · rw [hs, hs']
    cases hbracket <;> rfl

theorem nameAt (hb : p.RespelledAt p' b.unit) (hi : p.Inner b → I b) (name : String)
    (arity : Option Nat) (inner : NodeId) :
    nameAt p ask name arity b inner = nameAt p' ask name arity b inner := by
  have hscope : p.scoped? (Resolve.scopeAt p b) name arity =
      p'.scoped? (Resolve.scopeAt p b) name arity :=
    scoped?_congr (fun n s hs => h.accepts (holds_of_mem_scopeAt h.left hi hs) n) name arity
  have howner : (Resolve.bodyOwner p ask b inner >>= Resolve.findMember p ask name arity) =
      (Resolve.bodyOwner p ask b inner >>= Resolve.findMember p' ask name arity) :=
    (bodyOwner_finds h.left fun _ => hi).bind_congr hask fun v hv => h.findMember hask hv name arity
  rw [Resolve.nameAt, Resolve.nameAt, hscope, howner, hb.scopeAt, bodyOwner ask hb]

theorem nameAmong {around : List (Branch × NodeId)}
    (ha : ∀ e ∈ around, p.RespelledAt p' e.1.unit ∧ (p.Inner e.1 → I e.1)) (unit : UnitId)
    (name : String) (arity : Option Nat) :
    nameAmong p ask unit name arity around = nameAmong p' ask unit name arity around := by
  induction around with
  | nil => rw [Resolve.nameAmong, Resolve.nameAmong, h.imported?]
  | cons e rest ih =>
    obtain ⟨hunit, hi⟩ := ha e List.mem_cons_self
    rw [Resolve.nameAmong, Resolve.nameAmong, h.nameAt hask hunit hi,
      ih fun e he => ha e (List.mem_cons_of_mem _ he)]

omit hask in
theorem enclosing (hb : I b) :
    ∀ e ∈ b.enclosing, p.RespelledAt p' e.1.unit ∧ (p.Inner e.1 → I e.1) := by
  intro e he
  refine ⟨?_, h.left.enclosing hb he⟩
  rw [(Branch.mem_enclosing_go he).1]
  exact h.unit hb

theorem lookupName (hb : I b) (name : String) (arity : Option Nat) :
    lookupName p ask b name arity = lookupName p' ask b name arity := by
  rw [Resolve.lookupName, Resolve.lookupName, (h.unit hb).isSome_unit?,
    h.nameAmong hask (h.enclosing hb)]

theorem typeRoot (hb : I b) (name : String) : typeRoot p ask b name = typeRoot p' ask b name := by
  rw [Resolve.typeRoot, Resolve.typeRoot, h.lookupName hask hb, h.aliased?]

theorem memberValue {v : Value} (hv : Query.Holds I .value v) (name : String) :
    memberValue p ask v name = memberValue p' ask v name := by
  rw [Resolve.memberValue, Resolve.memberValue, h.findMember hask hv]

theorem memberValues {names : List String} {v : Value} (hv : Query.Holds I .value v) :
    names.foldlM (Resolve.memberValue p ask) v = names.foldlM (Resolve.memberValue p' ask) v := by
  induction names generalizing v with
  | nil => rw [List.foldlM_nil, List.foldlM_nil]
  | cons name names ih =>
    rw [List.foldlM_cons, List.foldlM_cons, ← h.memberValue hask hv]
    exact (memberValue_finds h.left fun _ => hv).bind_congr hask fun v hv => ih hv

theorem lookupType (hb : I b) (type : String) :
    lookupType p ask b type = lookupType p' ask b type := by
  unfold Resolve.lookupType
  split
  · split
    · rfl
    · rw [← h.typeRoot hask hb]
      refine (typeRoot_finds h.left fun _ => hb).bind_congr hask fun v hv => ?_
      rw [← h.memberValues hask hv]
      refine (memberValues_finds h.left fun _ => hv).bind_congr hask fun v hv => ?_
      rw [h.instantiated hv]
  · rfl

theorem thisAmong {around : List (Branch × NodeId)}
    (ha : ∀ e ∈ around, p.RespelledAt p' e.1.unit ∧ (p.Inner e.1 → I e.1)) :
    thisAmong p ask around = thisAmong p' ask around := by
  induction around with
  | nil => rfl
  | cons e rest ih =>
    obtain ⟨outer, inner⟩ := e
    obtain ⟨hunit, hi⟩ := ha (outer, inner) List.mem_cons_self
    have ih := ih fun e he => ha e (List.mem_cons_of_mem _ he)
    rw [Resolve.thisAmong, Resolve.thisAmong, ih]
    rcases hunit.shape?_cases with hs | ⟨name, hs, hs'⟩ | ⟨key, s, s', hs, hs', hbracket, -⟩
    · rw [← hs]
      cases ht : p.shape? outer with
      | none => rfl
      | some s =>
        dsimp only
        split
        · rfl
        · split
          · rfl
          · next qualifier _ _ _ _ =>
            have ho : I (outer.child qualifier) := by
              apply h.left.childOf (hi (inner_of_shape? ht rfl)) ht
              simp [Shape.operands, Shape.children, Shape.kind, Kind.fields, Shape.field]
            refine (Finds.ask .value fun _ => ho).bind_congr hask fun v hv => ?_
            rw [h.instantiated hv]
          · rfl
    · rw [hs, hs']
      rfl
    · rw [hs, hs']
      cases hbracket <;> rfl

theorem thisValue (hb : I b) : thisValue p ask b = thisValue p' ask b :=
  h.thisAmong hask (h.enclosing hb)

theorem baseClass (hb : I b) : baseClass p ask b = baseClass p' ask b := by
  unfold Resolve.baseClass
  rw [← h.thisValue hask hb]
  refine (thisValue_finds h.left fun _ => hb).bind_congr hask fun v hv => ?_
  exact (branch?_finds fun _ => hv).bind_congr hask fun cls hcls => h.superclass hask hcls

theorem documentedValue (hb : I b) :
    documentedValue p ask b = documentedValue p' ask b := by
  unfold Resolve.documentedValue
  refine (Finds.ask .definition fun _ => hb).bind_congr hask fun d hd => ?_
  rw [(h.unit hd).typeOverride]
  exact bind_congr fun type => h.lookupType hask hd type

omit hask in
theorem augmentedValue (ask : Ask) {v : Option Value}
    (hv : ∀ x, v = some x → Query.Holds I .value x) :
    augmentedValue p ask v = augmentedValue p' ask v := by
  unfold Resolve.augmentedValue
  split
  · next cls call =>
    obtain ⟨hcls, hcall⟩ := hv _ rfl
    rw [h.augmented? hcls (hcall call rfl)]
  · rfl

theorem memberOf (hb : I b) (name : String) (arity : Option Nat) :
    memberOf p ask b name arity = memberOf p' ask b name arity := by
  have hfind {F : Ask → Resolve Value} (hF : Finds I True F (Query.Holds I .value)) :
      (F ask >>= Resolve.findMember p ask name arity) =
        F ask >>= Resolve.findMember p' ask name arity :=
    hF.bind_congr hask fun v hv => h.findMember hask hv name arity
  unfold Resolve.memberOf
  refine (Finds.attempt (Finds.ask .value fun _ => hb)).bind_congr hask fun o ho => ?_
  rw [hfind (Finds.ofOption fun _ => ho), hfind (documentedValue_finds h.left fun _ => hb),
    hfind (augmentedValue_finds h.left fun _ => ho), h.documentedValue hask hb,
    h.augmentedValue ask ho]

theorem nameDefinition (hb : I b) (name : String) :
    nameDefinition p ask b name = nameDefinition p' ask b name := by
  unfold Resolve.nameDefinition
  rw [h.arity? hb, h.lookupName hask hb]
  cases hparent : b.parentBranch? with
  | none => rfl
  | some parent =>
    have hproperty := h.isPropertyOf hb hparent
    dsimp only
    cases hs : p.shape? parent <;> cases hs' : p'.shape? parent <;> simp [hs, hs'] at hproperty ⊢
    rw [hproperty]

theorem definitionStep (hb : I b) : definitionStep p ask b = definitionStep p' ask b := by
  have hchild {s : Shape NodeId} {c : NodeId} (hs : p.shape? b = some s) (hc : c ∈ s.operands) :
      I (b.child c) := h.left.childOf hb hs hc
  unfold Resolve.definitionStep
  rw [h.arity? hb, h.baseClass hask hb]
  rcases (h.unit hb).cases with ⟨hu, hu'⟩ | ⟨u, u', hu, hu', hr⟩
  · rw [hu, hu', bind_ofOption_none, bind_ofOption_none]
  rw [hu, hu', bind_ofOption_some, bind_ofOption_some]
  have hmember {object property : NodeId} {computed computed' : Bool}
      (hs : u.arena.shape? b.target = some (.memberExpression object property computed))
      (hs' : u'.arena.shape? b.target = some (.memberExpression object property computed')) :
      (ofOption (accessedName? u property computed) >>= fun name =>
        Resolve.memberOf p ask (b.child object) name (p'.arity? b)) =
      ofOption (accessedName? u' property computed') >>= fun name =>
        Resolve.memberOf p' ask (b.child object) name (p'.arity? b) := by
    rw [hr.accessedName? hs hs']
    refine bind_congr fun name => h.memberOf hask (hchild (shape?_of_unit? hu hs) ?_) name _
    simp [Shape.operands]
  cases hr.arena.node b.target with
  | same hs _ =>
    rw [← hs]
    cases ht : u.arena.shape? b.target with
    | none => rw [bind_ofOption_none, bind_ofOption_none]
    | some s =>
      simp only [bind_ofOption_some]
      cases s with
      | identifier name =>
        dsimp only
        rw [hr.declared?, h.nameDefinition hask hb]
      | memberExpression object property computed => exact hmember ht (hs ▸ ht)
      | rootExpression property =>
        have hname := hr.arena.not_rewritten_of_operand ht (c := property)
          (by simp [Shape.operands, Shape.children, Shape.kind, Kind.fields, Shape.field])
        dsimp only
        rw [hr.arena.identifierName? hname]
        exact bind_congr fun name => by rw [h.rootName? hb]
      | thisExpression =>
        dsimp only
        rw [h.thisValue hask hb]
      | _ => rfl
  | name hn =>
    obtain ⟨name, hs, hs'⟩ := hn
    exact absurd ⟨name, shape?_of_unit? hu hs, shape?_of_unit? hu' hs'⟩ (h.kept hb)
  | bracket hs hs' hbracket _ _ =>
    rw [hs, hs', bind_ofOption_some, bind_ofOption_some]
    cases hbracket with
    | access object => exact hmember hs hs'
    | slot isStatic value => rfl

theorem returnValue (hb : I b) : returnValue p ask b = returnValue p' ask b := by
  unfold Resolve.returnValue
  rw [h.config]
  rcases (h.unit hb).cases with ⟨hu, hu'⟩ | ⟨u, u', hu, hu', hr⟩
  · rw [hu, hu', bind_ofOption_none, bind_ofOption_none]
  have hown (kind : Kind) (hi : kind ≠ .identifier) (hl : kind ≠ .literal) (c : Branch) :
      u.arena.ownNode? (· = kind) c = u'.arena.ownNode? (· = kind) c :=
    hr.arena.ownNode? (decide_eq_false hi.symm) (decide_eq_false hl.symm) c
  rw [hu, hu', bind_ofOption_some, bind_ofOption_some]
  cases hr.arena.node b.target with
  | same hs _ =>
    rw [← hs, ← hr.returnOverrides]
    refine bind_congr fun s => ?_
    split
    · rw [h.lookupType hask hb]
    · refine bind_congr fun body => ?_
      dsimp only
      rw [hown .yieldExpression nofun nofun]
      split
      · rfl
      split
      · rfl
      rw [hown .returnStatement nofun nofun]
      refine bind_congr fun statement => ?_
      cases hr.arena.node statement.target with
      | same hs _ => rw [hs]
      | name hn =>
        obtain ⟨name, hs, hs'⟩ := hn
        rw [hs, hs']
      | bracket hs hs' hbracket _ _ =>
        rw [hs, hs']
        cases hbracket <;> rfl
  | name hn =>
    obtain ⟨name, hs, hs'⟩ := hn
    exact absurd ⟨name, shape?_of_unit? hu hs, shape?_of_unit? hu' hs'⟩ (h.kept hb)
  | bracket hs hs' hbracket _ _ =>
    rw [hs, hs', ← hr.returnOverrides, bind_ofOption_some, bind_ofOption_some]
    split
    · rw [h.lookupType hask hb]
    · cases hbracket <;> exact (bind_ofOption_none _).trans (bind_ofOption_none _).symm

theorem callValue {callee : NodeId} (hc : I (b.child callee)) :
    callValue p ask b callee = callValue p' ask b callee := by
  unfold Resolve.callValue
  refine (Finds.ask .value fun _ => hc).bind_congr hask fun v hv => ?_
  split
  · next cls call => rw [h.kind? hv.1, h.returnValue hask hv.1]
  · rfl

theorem metaValue (hb : I b) : metaValue p ask b = metaValue p' ask b := by
  unfold Resolve.metaValue
  rcases (h.unit hb).cases with ⟨hu, hu'⟩ | ⟨u, u', hu, hu', hr⟩
  · rw [hu, hu', bind_ofOption_none, bind_ofOption_none]
  rw [hu, hu', bind_ofOption_some, bind_ofOption_some, ← hr.accessors]
  split
  · next getter hget =>
    rw [← hr.arena.branchTo]
    refine (Finds.ofOption fun _ d hd => h.left.getter hb hu hget hd).bind_congr hask
      fun method hm => ?_
    refine (Finds.ask .value fun _ => hm).bind_congr hask fun function hf => ?_
    exact (branch?_finds fun _ => hf).bind_congr hask fun c hcall => h.returnValue hask hcall
  · rfl

theorem valueStep (hb : I b) : valueStep p ask b = valueStep p' ask b := by
  rw [Resolve.valueStep, Resolve.valueStep, h.thisValue hask hb, h.baseClass hask hb,
    h.metaValue hask hb]
  rcases h.shape?_cases hb with hs | ⟨key, s, s', hs, hs', hbracket⟩
  · rw [← hs]
    cases ht : p.shape? b with
    | none => rfl
    | some s =>
      simp only [bind_ofOption_some]
      cases s with
      | callExpression callee arguments =>
        apply h.callValue hask
        apply h.left.childOf hb ht
        simp [Shape.operands, Shape.children, Shape.kind, Kind.fields, Shape.field]
      | enumMember id init => cases init <;> rfl
      | unaryExpression operator isPrefixed argument => cases operator <;> rfl
      | _ => rfl
  · rw [hs, hs', bind_ofOption_some, bind_ofOption_some]
    cases hbracket <;> rfl

theorem stepAt (q : Query) (hb : I b) : p.stepAt ask q b = p'.stepAt ask q b := by
  cases q with
  | definition => exact h.definitionStep hask hb
  | value => exact h.valueStep hask hb

end Program.Matches

end SquirrelAnalyzer
