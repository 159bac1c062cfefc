import SquirrelAnalyzer.Proofs.Respelled.Kept

namespace SquirrelAnalyzer

theorem Branch.parentBranch?_of_parent? {b : Branch} {parent : NodeId}
    (h : b.parent? = some parent) :
    b.parentBranch? = some ⟨b.unit, parent, b.ancestors.tail⟩ := by
  obtain ⟨unit, target, ancestors⟩ := b
  cases ancestors with
  | nil => cases h
  | cons x above =>
    cases h
    rfl

namespace SourceUnit.Respelled

variable {u u' : SourceUnit} (h : u.Respelled u') {s : Shape NodeId} {b : Branch}
  {infer infer' : Branch → Resolving TypeLabel}

include h

theorem shapeLabel (hkept : ∀ c ∈ s.operands, ¬ u.arena.Rewritten u'.arena c)
    (henum : s.kind = .enumMember → ∀ parent, b.parent? = some parent →
      u.arena.kind? parent ≠ some .propertyDefinition)
    (hinfer : ∀ c ∈ s.operands, infer (b.child c) = infer' (b.child c)) (isInstance : Bool) :
    Resolve.shapeLabel infer u b isInstance s = Resolve.shapeLabel infer' u' b isInstance s := by
  cases s with
  | arrayExpression elements =>
    cases elements with
    | nil => rfl
    | cons first rest =>
      have hform {c : NodeId} (hc : c ∈ first :: rest) : u.form? c = u'.form? c :=
        h.form? (hkept c (by simpa [Shape.operands, Shape.children, Shape.kind, Kind.fields,
          Shape.field] using hc))
      have huniform : rest.any (u.form? · ≠ u.form? first) =
          rest.any (u'.form? · ≠ u'.form? first) := by
        rw [hform List.mem_cons_self, Bool.eq_iff_iff, List.any_eq_true, List.any_eq_true]
        exact exists_congr fun c => and_congr_right fun hc => by
          rw [hform (List.mem_cons_of_mem first hc)]
      simp only [Resolve.shapeLabel, huniform]
      rw [hinfer first (by simp [Shape.operands, Shape.children, Shape.kind, Kind.fields,
        Shape.field])]
  | classExpression superclass body => simp only [Resolve.shapeLabel, h.classLabel]
  | classDeclaration qualifier id superclass body => simp only [Resolve.shapeLabel, h.classLabel]
  | enumDeclaration id members =>
    have hid := hkept id (by simp [Shape.operands, Shape.children, Shape.kind, Kind.fields,
      Shape.field])
    simp only [Resolve.shapeLabel, h.arena.identifierName? hid]
  | enumMember id init => simp only [Resolve.shapeLabel, h.enumLabel (henum rfl)]
  | binaryExpression operator left right =>
    have hleft := hinfer left (by simp [Shape.operands, Shape.children, Shape.kind, Kind.fields,
      Shape.field])
    have hright := hinfer right (by simp [Shape.operands, Shape.children, Shape.kind, Kind.fields,
      Shape.field])
    simp only [Resolve.shapeLabel, hleft, hright]
  | unaryExpression operator isPrefix argument =>
    have hargument := hinfer argument (by simp [Shape.operands, Shape.children, Shape.kind,
      Kind.fields, Shape.field])
    cases operator <;> first | rfl | exact hargument
  | _ => rfl

end SourceUnit.Respelled

namespace Program.Twins

variable {p p' : Program} (h : p.Twins p') {ask : Ask} {b : Branch} {u u' : SourceUnit}

include h

theorem documentedType? (hask : ask.Within (p.Kept p')) (hb : p.Kept p' b) :
    Resolve.documentedType? p ask b = Resolve.documentedType? p' ask b := by
  unfold Resolve.documentedType?
  rw [← h.matches.kind? hb]
  split
  · rfl
  · refine Follows.bind_congr (Follows.ask .definition fun _ => hb) hask fun o ho => ?_
    cases o with
    | none => rfl
    | some d =>
      have hd := ho d rfl
      simp only [h.matches.isClass hd, (h.atUnit d.unit).typeOverride]

theorem valueLabel {infer infer' : Branch → Resolving TypeLabel}
    (hinfer : ∀ b, p.Kept p' b → infer b = infer' b) {v : Value}
    (hv : Query.Holds (p.Kept p') .value v) :
    Resolve.valueLabel p infer v = Resolve.valueLabel p' infer' v := by
  cases v with
  | nominal name => rfl
  | node b isInstance call =>
    have hb : p.Kept p' b := hv.1
    unfold Resolve.valueLabel
    dsimp only
    rcases (h.atUnit b.unit).cases with ⟨hu, hu'⟩ | ⟨u, u', hu, hu', hr⟩
    · rw [hu, hu']
    · rw [hu, hu']
      dsimp only
      cases hr.arena.node b.target with
      | same he _ =>
        rw [← he]
        cases hs : u.arena.shape? b.target with
        | none => rfl
        | some s =>
          have hshape := shape?_of_unit? hu hs
          refine hr.shapeLabel (fun c => hr.arena.not_rewritten_of_operand hs) (fun hk => ?_)
            (fun c hc => hinfer _ (h.closed.childOf hb hshape hc)) isInstance
          have hseated := hb.seated (by rw [Program.kind?, hshape, Option.map_some, hk])
          intro parent hp
          have hparent := hseated _ (Branch.parentBranch?_of_parent? hp)
          rwa [kind?_of_unit? (b := ⟨b.unit, parent, b.ancestors.tail⟩) hu] at hparent
      | name hname =>
        obtain ⟨name, hs, hs'⟩ := hname
        exact absurd ⟨name, shape?_of_unit? hu hs, shape?_of_unit? hu' hs'⟩ hb.kept
      | bracket hs hs' hbracket _ _ =>
        rw [hs, hs']
        cases hbracket <;> rfl

theorem labelWithin (hask : ask.Within (p.Kept p')) {n : Nat} (hb : p.Kept p' b) :
    Resolve.labelWithin p ask n b = Resolve.labelWithin p' ask n b := by
  induction n generalizing b with
  | zero => rfl
  | succ n ih =>
    unfold Resolve.labelWithin
    rw [← h.documentedType? hask hb]
    refine bind_congr fun o => ?_
    cases o with
    | some label => rfl
    | none =>
      refine Follows.bind_congr (Follows.ask .value fun _ => hb) hask fun o ho => ?_
      cases o with
      | none => rfl
      | some v => exact h.valueLabel (fun b => ih) (ho v rfl)

theorem label (hask : ask.Within (p.Kept p')) (hb : p.Kept p' b) :
    Resolve.label p ask b = Resolve.label p' ask b := by
  rw [Resolve.label, Resolve.label, frameCount, frameCount, h.size, h.labelWithin hask hb]

end Program.Twins

end SquirrelAnalyzer
