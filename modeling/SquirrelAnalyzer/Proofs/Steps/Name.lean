import SquirrelAnalyzer.Proofs.Steps.Member

namespace SquirrelAnalyzer

namespace Resolve

variable {p : Program} {I : Branch → Prop} {P : Prop}

theorem bodyOwner_finds (h : p.Closed I) {outer : Branch} {inner : NodeId}
    (ho : P → p.Inner outer → I outer) :
    Finds I P (fun ask => bodyOwner p ask outer inner) (Query.Holds I .value) := by
  unfold bodyOwner
  cases hs : p.shape? outer with
  | none => exact Finds.failure
  | some s =>
    dsimp only
    split
    · next body hparts =>
      split
      · have hi : p.Inner outer := Program.inner_of_classParts hs hparts
        apply Finds.pure
        exact fun hP => ⟨ho hP hi, fun _ h => nomatch h⟩
      · exact Finds.failure
    · split
      · have hi : p.Inner outer := Program.inner_of_shape? hs rfl
        apply Finds.ask
        intro hP
        apply h.childOf (ho hP hi) hs
        simp [Shape.operands, Shape.children, Shape.kind, Kind.fields, Shape.field]
      · exact Finds.failure
    · exact Finds.failure

theorem holds_of_mem_scopeAt (h : p.Closed I) {outer : Branch} (ho : p.Inner outer → I outer)
    {s : ScopedName} (hs : s ∈ scopeAt p outer) : I s.declaration := by
  unfold scopeAt at hs
  split at hs
  · cases hs
  · next u hu =>
    split at hs
    · next hscope => exact h.scope (ho (Program.inner_of_isScope hscope)) hu hs
    · cases hs

theorem nameAt_finds (h : p.Closed I) {name : String} {arity : Option Nat} {outer : Branch}
    {inner : NodeId} (ho : P → p.Inner outer → I outer) :
    Finds I P (fun ask => nameAt p ask name arity outer inner) I := by
  unfold nameAt
  apply Finds.orElse
  · apply Finds.ofOption
    intro hP b hb
    obtain ⟨s, hs, -, rfl⟩ := Program.mem_of_scoped? hb
    exact holds_of_mem_scopeAt h (ho hP) hs
  · exact Finds.bind (bodyOwner_finds h ho) fun v => findMember_finds h fun hv => hv.2

theorem nameAmong_finds (h : p.Closed I) {b : Branch} {name : String} {arity : Option Nat}
    {around : List (Branch × NodeId)} (hb : P → I b)
    (ha : P → ∀ e ∈ around, p.Inner e.1 → I e.1) :
    Finds I P (fun ask => nameAmong p ask b.unit name arity around) I := by
  induction around with
  | nil => exact Finds.ofOption fun hP d hd => h.imported (hb hP) hd
  | cons e rest ih =>
    apply Finds.orElse
    · exact nameAt_finds h fun hP => ha hP e List.mem_cons_self
    · exact ih fun hP e he => ha hP e (List.mem_cons_of_mem _ he)

theorem lookupName_finds (h : p.Closed I) {b : Branch} {name : String} {arity : Option Nat}
    (hb : P → I b) : Finds I P (fun ask => lookupName p ask b name arity) I := by
  unfold lookupName
  split
  · exact nameAmong_finds h hb fun hP e he => h.enclosing (hb hP) he
  · exact Finds.failure

theorem typeRoot_finds (h : p.Closed I) {context : Branch} {name : String} (hc : P → I context) :
    Finds I P (fun ask => typeRoot p ask context name) (Query.Holds I .value) := by
  unfold typeRoot
  apply Finds.bind (Finds.attempt (lookupName_finds h hc))
  intro o
  cases o with
  | some declaration =>
    apply Finds.ask
    exact fun hd => hd.2 declaration rfl
  | none =>
    apply Finds.bind (Finds.ofOption (Q := I) fun _ b hb => h.aliased hb)
    intro b
    apply Finds.pure
    exact fun hb => ⟨hb.2, fun _ h => nomatch h⟩

theorem memberValue_finds (h : p.Closed I) {v : Value} {name : String}
    (hv : P → Query.Holds I .value v) :
    Finds I P (fun ask => memberValue p ask v name) (Query.Holds I .value) := by
  unfold memberValue
  apply Finds.bind (findMember_finds h hv)
  intro b
  exact Finds.ask .value fun hb => hb.2

theorem memberValues_finds (h : p.Closed I) {names : List String} {v : Value}
    (hv : P → Query.Holds I .value v) :
    Finds I P (fun ask => names.foldlM (memberValue p ask) v) (Query.Holds I .value) := by
  induction names generalizing v P with
  | nil => exact Finds.pure hv
  | cons name names ih =>
    apply Finds.bind (memberValue_finds h hv)
    intro v
    exact ih fun hv => hv.2

theorem holds_instantiated {v : Value} (hv : Query.Holds I .value v) :
    Query.Holds I .value (v.instantiated p) := by
  cases v with
  | nominal name => trivial
  | node b i call =>
    unfold Value.instantiated
    dsimp only
    split
    · exact ⟨hv.1, fun _ h => nomatch h⟩
    · exact hv

theorem lookupType_finds (h : p.Closed I) {context : Branch} {type : String}
    (hc : P → I context) :
    Finds I P (fun ask => lookupType p ask context type) (Query.Holds I .value) := by
  unfold lookupType
  split
  · split
    · exact Finds.failure
    · next first rest _ =>
      have hlast : Finds I P (fun ask => typeRoot p ask context first >>= fun v =>
          rest.foldlM (memberValue p ask) v) (Query.Holds I .value) :=
        Finds.bind (typeRoot_finds h hc) fun v => memberValues_finds h fun hv => hv.2
      have hall := Finds.bind (G := fun _ v => pure (Value.instantiated p v)) hlast
        fun v => Finds.pure fun hv => holds_instantiated hv.2
      simpa only [bind_assoc] using hall
  · exact Finds.failure

theorem thisAmong_finds (h : p.Closed I) {around : List (Branch × NodeId)}
    (ha : P → ∀ e ∈ around, p.Inner e.1 → I e.1) :
    Finds I P (fun ask => thisAmong p ask around) (Query.Holds I .value) := by
  induction around with
  | nil => exact Finds.failure
  | cons e rest ih =>
    obtain ⟨outer, inner⟩ := e
    have ho (hP : P) (hi : p.Inner outer) : I outer := ha hP (outer, inner) List.mem_cons_self hi
    unfold thisAmong
    cases hs : p.shape? outer with
    | none => exact Finds.failure
    | some s =>
      dsimp only
      split
      · next hclass =>
        have hi : p.Inner outer := Program.inner_of_shape? hs (Kind.isKeyOrMember_of_isClass hclass)
        exact Finds.pure fun hP => ⟨ho hP hi, fun _ h => nomatch h⟩
      · split
        · have hi : p.Inner outer := Program.inner_of_shape? hs rfl
          exact Finds.pure fun hP => ⟨ho hP hi, fun _ h => nomatch h⟩
        · have hi : p.Inner outer := Program.inner_of_shape? hs rfl
          apply Finds.bind (Finds.ask .value _)
          · intro v
            exact Finds.pure fun hv => holds_instantiated hv.2
          · intro hP
            apply h.childOf (ho hP hi) hs
            simp [Shape.operands, Shape.children, Shape.kind, Kind.fields, Shape.field]
        · exact ih fun hP e he => ha hP e (List.mem_cons_of_mem _ he)

theorem thisValue_finds (h : p.Closed I) {b : Branch} (hb : P → I b) :
    Finds I P (fun ask => thisValue p ask b) (Query.Holds I .value) :=
  thisAmong_finds h fun hP _ he => h.enclosing (hb hP) he

theorem branch?_finds {v : Value} (hv : P → Query.Holds I .value v) :
    Finds I P (fun _ => ofOption v.branch?) I := by
  apply Finds.ofOption
  intro hP b hb
  cases v with
  | node b' i call =>
    cases hb
    exact (hv hP).1
  | nominal name => cases hb

theorem baseClass_finds (h : p.Closed I) {b : Branch} (hb : P → I b) :
    Finds I P (fun ask => baseClass p ask b) I := by
  unfold baseClass
  apply Finds.bind (thisValue_finds h hb)
  intro v
  apply Finds.bind (branch?_finds fun hv => hv.2)
  intro cls
  exact superclass_finds h fun hc => hc.2

end Resolve

end SquirrelAnalyzer
