import SquirrelAnalyzer.Proofs.Respelled.Check
import SquirrelAnalyzer.Proofs.Respelled.Edits
import SquirrelAnalyzer.Proofs.Respelled.Label
import SquirrelAnalyzer.Proofs.Session

namespace SquirrelAnalyzer

namespace Program

variable {p p' : Program} {b : Branch}

theorem anchor_anchor_of_ref (hr : (p.anchor b).ref = b.ref) :
    p.anchor (p.anchor b) = p.anchor b := by
  cases hu : p.unit? b.unit with
  | none =>
    have hb : p.anchor b = b := by simp only [anchor, hu]
    rw [hb, hb]
  | some u =>
    have hu' : p.unit? (p.anchor b).unit = some u := by rw [(Branch.ref_eq_iff.mp hr).1, hu]
    rw [anchor_of_unit hu', anchor_of_unit hu, Arena.anchor_anchor]

section

variable (hk : p.kind? b = some .enumMember)

include hk

theorem exists_shape?_of_enumMember : ∃ id init, p.shape? b = some (.enumMember id init) := by
  obtain ⟨s, hs, hkind⟩ := Option.map_eq_some_iff.mp hk
  cases s with
  | enumMember id init => exact ⟨id, init, hs⟩
  | _ => cases hkind

theorem subject_of_enumMember (q : Query) : p.subject q b = b := subject_of_kind_ne hk nofun

theorem answer_definition_of_enumMember : p.answer .definition b = Resolve.ofOption (some b) := by
  rw [answer, answerWithin]
  simp only [subject_of_enumMember hk, hk]
  rfl

theorem superclasses_of_enumMember (ask : Ask) : Resolve.superclasses p ask b = pure [] := by
  obtain ⟨id, init, hs⟩ := exists_shape?_of_enumMember hk
  have hnone : Resolve.superclass p ask b = failure := by
    rw [Resolve.superclass, hs]
    rfl
  unfold Resolve.superclasses
  cases p.size with
  | zero => rfl
  | succ n =>
    rw [Resolve.superclassesUpTo, hnone]
    rfl

theorem documentedType?_of_enumMember : Resolve.documentedType? p p.answer b =
    pure (((p.unit? b.unit).bind (·.facts.typeOverrides.get? b.target)).map
      TypeLabel.ofString) := by
  have hclass : p.isClass b = false := by
    rw [isClass, hk]
    rfl
  unfold Resolve.documentedType?
  rw [answer_definition_of_enumMember hk, hk, if_neg (by decide)]
  show (if p.isClass b = true then pure none else _ : Resolving (Option TypeLabel)) = _
  rw [hclass]
  rfl

variable (hr : (p.anchor b).ref = b.ref)

include hr

theorem kind?_anchor_of_enumMember : p.kind? (p.anchor b) = some .enumMember := by
  rw [Program.kind?, shape?_congr hr, ← Program.kind?, hk]

theorem answer_value_of_enumMember : p.answer .value b = p.answer .value (p.anchor b) := by
  have hanchor : p.anchor (p.anchor b) = p.anchor b := anchor_anchor_of_ref hr
  rw [answer, answerWithin, answerWithin]
  simp only [subject, hk, kind?_anchor_of_enumMember hk hr, hr, step, hanchor]
  rfl

theorem label_of_enumMember :
    Resolve.label p p.answer b = Resolve.label p p.answer (p.anchor b) := by
  obtain ⟨hunit, htarget⟩ := Branch.ref_eq_iff.mp hr
  rw [Resolve.label, Resolve.label, Resolve.labelWithin, Resolve.labelWithin,
    documentedType?_of_enumMember hk,
    documentedType?_of_enumMember (kind?_anchor_of_enumMember hk hr), hunit, htarget,
    answer_value_of_enumMember hk hr]

end

def AsksAlike (p p' : Program) (I : Branch → Prop) {α : Type} (walk walk' : Resolving α) : Prop :=
  ∃ (F F' : Ask → Resolving α) (Q Q' : α → Prop), Follows I True F Q ∧ Follows I True F' Q' ∧
    (∀ ask, ask.Within I → F ask = F' ask) ∧ walk = F p.answer ∧ walk' = F' p'.answer

namespace AsksAlike

variable {α : Type} {I : Branch → Prop} {walk walk' : Resolving α}

theorem const (answer : α) (hw : walk = pure answer) (hw' : walk' = pure answer) :
    AsksAlike p p' I walk walk' := by
  have hpure : Follows I True (fun _ => (pure answer : Resolving α)) fun _ => True :=
    Follows.pure fun _ => trivial
  exact ⟨_, _, _, _, hpure, hpure, fun _ _ => rfl, hw, hw'⟩

theorem run (h : AsksAlike p p' I walk walk') (hm : p.Matches p' I) {s : Progress}
    (hs : s.memo.Holds I) : walk.run s = walk'.run s ∧ (walk.run s).2.memo.Holds I := by
  obtain ⟨F, F', Q, Q', hF, hF', hsame, rfl, rfl⟩ := h
  refine ⟨hm.run_answer hF hF' hsame hs, ?_⟩
  obtain ⟨t, ht, hkeeps⟩ := hF
  rw [ht]
  exact (Plan.run_holds (answer_holds hm.left) (hkeeps trivial) hs rfl).2

end AsksAlike

namespace Twins

variable (h : p.Twins p')

include h

theorem kept_anchor_of_enumMember (hk : p.kind? b = some .enumMember) :
    p.Kept p' (p.anchor b) := by
  have hr := h.ref_anchor b
  have hk' := kind?_anchor_of_enumMember hk hr
  obtain ⟨id, init, hs⟩ := exists_shape?_of_enumMember hk'
  refine ⟨?_, ?_⟩
  · rintro ⟨name, hs', -⟩
    rw [hs] at hs'
    cases hs'
  · obtain ⟨u, hu, hs⟩ := unit?_of_shape? hs
    obtain ⟨u', hu', hstored⟩ := h.stored hu
    rcases h.anchor_cases hu with hsyntactic | ⟨he, hto⟩
    · exact seated_of_isSyntactic hu hstored.twin.grounded.nested hsyntactic
    · have hsynthetic := hstored.twin.sound.rooted.isSynthetic_of_branchTo hto
      rw [he] at hs
      rcases hstored.documents _ _ hsynthetic hs with ⟨key, hm⟩ | ⟨name, m, hm, -⟩
      · cases hm
      · cases hm

theorem asksAlike_of_kept (q : Question) (hq : p.Kept p' q.branch) :
    AsksAlike p p' (p.Kept p') (q.resolve p p.answer) (q.resolve p' p'.answer) := by
  refine ⟨q.resolve p, q.resolve p', _, _, q.resolve_follows h.closed fun _ => hq,
    q.resolve_follows h.closed_right fun _ => hq, fun ask hask => ?_, rfl, rfl⟩
  by_cases hl : ∃ b, q = .label b
  · obtain ⟨b, rfl⟩ := hl
    exact h.label hask hq
  · exact h.matches.resolve hq (fun b he => hl ⟨b, he⟩) hask

theorem asksAlike_of_enumMember (q : Question) (hb : q.branch = b)
    (hk : p.kind? b = some .enumMember) (hk' : p'.kind? b = some .enumMember) :
    AsksAlike p p' (p.Kept p') (q.resolve p p.answer) (q.resolve p' p'.answer) := by
  have hr := h.ref_anchor b
  have hanchor := (h.atUnit b.unit).anchor
  have hr' : (p'.anchor b).ref = b.ref := hanchor ▸ hr
  have hvalue := answer_value_of_enumMember hk hr
  have hvalue' := answer_value_of_enumMember hk' hr'
  have hkept := h.kept_anchor_of_enumMember hk
  rw [← hanchor] at hvalue'
  cases q with
  | definition c =>
    obtain rfl : c = b := hb
    exact .const (some c) (congrArg OptionT.run (answer_definition_of_enumMember hk))
      (congrArg OptionT.run (answer_definition_of_enumMember hk'))
  | value c =>
    obtain rfl : c = b := hb
    rw [Question.resolve, Question.resolve, hvalue, hvalue']
    exact h.asksAlike_of_kept (.value (p.anchor c)) hkept
  | label c =>
    obtain rfl : c = b := hb
    rw [Question.resolve, Question.resolve, label_of_enumMember hk hr,
      label_of_enumMember hk' hr', ← hanchor]
    exact h.asksAlike_of_kept (.label (p.anchor c)) hkept
  | superclasses c =>
    obtain rfl : c = b := hb
    exact .const [] (superclasses_of_enumMember hk _) (superclasses_of_enumMember hk' _)
  | members c =>
    obtain rfl : c = b := hb
    rw [Question.resolve, Question.resolve, hvalue, hvalue']
    exact h.asksAlike_of_kept (.members (p.anchor c)) hkept
  | findMember c name =>
    obtain rfl : c = b := hb
    rw [Question.resolve, Question.resolve, hvalue, hvalue']
    exact h.asksAlike_of_kept (.findMember (p.anchor c) name) hkept

theorem asksAlike (q : Question) (hq : ¬ p.Rewritten p' q.branch) :
    AsksAlike p p' (p.Kept p') (q.resolve p p.answer) (q.resolve p' p'.answer) := by
  by_cases hs : p.Seated q.branch
  · exact h.asksAlike_of_kept q ⟨hq, hs⟩
  · have hk : p.kind? q.branch = some .enumMember := by
      by_contra hne
      exact hs fun hk => absurd hk hne
    refine h.asksAlike_of_enumMember q rfl hk ?_
    rw [← hk]
    rcases (h.atUnit _).shape?_cases_of_not hq with hs | ⟨key, s, s', hs, hs', hb⟩
    · rw [Program.kind?, Program.kind?, hs]
    · rw [Program.kind?, Program.kind?, hs, hs', Option.map_some, Option.map_some, hb.kind_eq]

end Twins

end Program

namespace Analysis

variable {a a' : Analysis}

/-- Two analyses that came about in the same way, from two spellings of the sources, and were asked
the same about nodes that are spelled the same. -/
inductive SpelledTwice : Analysis → Analysis → Prop
  | ofArenas (config : Config) (imports : Imports) {arenas arenas' : List Arena}
      (h : List.Forall₂ Arena.Spellings arenas arenas') :
      SpelledTwice (ofProgram (Program.ofArenas config imports arenas))
        (ofProgram (Program.ofArenas config imports arenas'))
  | addArena {a a' : Analysis} (h : SpelledTwice a a') {arena arena' : Arena}
      (ha : arena.Spellings arena') : SpelledTwice (a.addArena arena).2 (a'.addArena arena').2
  | replaceArena {a a' b b' : Analysis} (h : SpelledTwice a a') {id : UnitId}
      {arena arena' : Arena} (ha : arena.Spellings arena') (hb : a.replaceArena id arena = .ok b)
      (hb' : a'.replaceArena id arena' = .ok b') : SpelledTwice b b'
  | remove {a a' b b' : Analysis} (h : SpelledTwice a a') {id : UnitId} (hb : a.remove id = .ok b)
      (hb' : a'.remove id = .ok b') : SpelledTwice b b'
  | setImports {a a' : Analysis} (h : SpelledTwice a a') (imports : Imports) :
      SpelledTwice (a.setImports imports) (a'.setImports imports)
  | ask {a a' : Analysis} (h : SpelledTwice a a') (q : Question)
      (hq : ¬ a.program.Rewritten a'.program q.branch) :
      SpelledTwice (q.ask.run a).2 (q.ask.run a').2

structure Twins (a a' : Analysis) : Prop where
  program : a.program.Twins a'.program
  memo : a.memo = a'.memo
  holds : a.memo.Holds (a.program.Kept a'.program)

theorem twins_ofProgram {p p' : Program} (h : p.Twins p') : (ofProgram p).Twins (ofProgram p') :=
  ⟨h, rfl, Memo.holds_empty⟩

theorem Twins.ask (h : a.Twins a') (q : Question)
    (hq : ¬ a.program.Rewritten a'.program q.branch) :
    (q.ask.run a).1 = (q.ask.run a').1 ∧ (q.ask.run a).2.Twins (q.ask.run a').2 := by
  obtain ⟨hrun, hholds⟩ := (h.program.asksAlike q hq).run h.program.matches
    (s := { memo := a.memo }) h.holds
  have hrun' : (q.resolve a'.program a'.program.answer).run { memo := a'.memo } =
      (q.resolve a.program a.program.answer).run { memo := a.memo } := by
    rw [← h.memo, hrun]
  rw [q.ask_eq_walk]
  refine ⟨(congrArg (·.1) hrun').symm, h.program, (congrArg (·.2.memo) hrun').symm, hholds⟩

theorem SpelledTwice.grown (h : a.SpelledTwice a') :
    a.program.Grown a.memo ∧ a'.program.Grown a'.memo := by
  induction h with
  | ofArenas config imports h => exact ⟨.empty, .empty⟩
  | addArena _ ha ih =>
    rw [addArena_eq ih.1.within, addArena_eq ih.2.within]
    exact ⟨.empty, .empty⟩
  | replaceArena _ ha hb hb' ih =>
    rw [(of_replaceArena ih.1.within hb).2, (of_replaceArena ih.2.within hb').2]
    exact ⟨.empty, .empty⟩
  | remove _ hb hb' ih =>
    rw [(of_remove ih.1.within hb).2, (of_remove ih.2.within hb').2]
    exact ⟨.empty, .empty⟩
  | setImports _ imports ih =>
    rw [setImports_eq ih.1.within, setImports_eq ih.2.within]
    exact ⟨.empty, .empty⟩
  | ask _ q hq ih =>
    rw [program_ask, program_ask]
    exact ⟨grown_ask ih.1, grown_ask ih.2⟩

theorem SpelledTwice.twins (h : a.SpelledTwice a') : a.Twins a' := by
  induction h with
  | ofArenas config imports h => exact twins_ofProgram (Program.twins_ofArenas config imports h)
  | addArena h ha ih =>
    rw [addArena_eq h.grown.1.within, addArena_eq h.grown.2.within]
    exact twins_ofProgram (ih.program.addUnit ha)
  | replaceArena h ha hb hb' ih =>
    rw [(of_replaceArena h.grown.1.within hb).2, (of_replaceArena h.grown.2.within hb').2]
    exact twins_ofProgram (ih.program.replaceUnit _ ha)
  | remove h hb hb' ih =>
    rw [(of_remove h.grown.1.within hb).2, (of_remove h.grown.2.within hb').2]
    exact twins_ofProgram (ih.program.removeUnit _)
  | setImports h imports ih =>
    rw [setImports_eq h.grown.1.within, setImports_eq h.grown.2.within]
    exact twins_ofProgram (ih.program.setImports imports)
  | ask _ q hq ih => exact (ih.ask q hq).2

/-- Literal keys resolve like names: no answer depends on how a key is spelled, unless the question
is about the key itself. -/
theorem ask_spelledTwice (h : a.SpelledTwice a') (q : Question)
    (hq : ¬ a.program.Rewritten a'.program q.branch) : (q.ask.run a).1 = (q.ask.run a').1 :=
  (h.twins.ask q hq).1

theorem ask_spelledTwice_slot : ∃ arena arena' a a' b v,
    Arena.parse "local t = \x7b x = 1 \x7d; t.x;" = .ok arena ∧
    Arena.parse "local t = \x7b [\"x\"] = 1 \x7d; t[\"x\"];" = .ok arena' ∧
    arena.Rewritten arena' ⟨1⟩ ∧ arena.Rewritten arena' ⟨8⟩ ∧
    a = ofProgram (Program.ofArenas {} Imports.none [arena]) ∧
    a' = ofProgram (Program.ofArenas {} Imports.none [arena']) ∧ a.SpelledTwice a' ∧
    ¬ a.program.Rewritten a'.program b ∧ ((value b).run a).1 = some v ∧
    ((value b).run a').1 = some v := by
  let b : Branch := ⟨⟨0⟩, ⟨9⟩, [⟨10⟩, ⟨11⟩]⟩
  have hbuilt : (Arena.parse "local t = \x7b x = 1 \x7d; t.x;").toOption.any (fun arena =>
      (Arena.parse "local t = \x7b [\"x\"] = 1 \x7d; t[\"x\"];").toOption.any fun arena' =>
        decide (arena.RekeyedWithin arena') &&
        decide (arena.Rewritten arena' ⟨1⟩ ∧ arena.Rewritten arena' ⟨8⟩) &&
        decide ((Program.ofArenas {} Imports.none [arena]).kind? b = some .memberExpression ∧
          ((value b).run (ofProgram (Program.ofArenas {} Imports.none [arena]))).1.isSome =
            true)) = true := by decide +kernel
  obtain ⟨arena, ha, hbuilt⟩ := exists_ok hbuilt
  obtain ⟨arena', ha', hbuilt⟩ := exists_ok hbuilt
  obtain ⟨hbuilt, hasked⟩ := Bool.and_eq_true_iff.mp hbuilt
  obtain ⟨hrekeyed, hrewritten⟩ := Bool.and_eq_true_iff.mp hbuilt
  have hrekeyed := of_decide_eq_true hrekeyed
  obtain ⟨hslot, haccess⟩ := of_decide_eq_true hrewritten
  obtain ⟨hkind, hvalue⟩ := of_decide_eq_true hasked
  obtain ⟨v, hv⟩ := Option.isSome_iff_exists.mp hvalue
  have hspelled := SpelledTwice.ofArenas {} Imports.none
    (.cons (⟨⟨_, ha⟩, ⟨_, ha'⟩, hrekeyed.rekeyed⟩ : arena.Spellings arena') .nil)
  have hb : ¬ (Program.ofArenas {} Imports.none [arena]).Rewritten
      (Program.ofArenas {} Imports.none [arena']) b := by
    rintro ⟨name, hs, -⟩
    rw [Program.kind?, hs] at hkind
    cases hkind
  have hsame := ask_spelledTwice hspelled (.value b) hb
  exact ⟨arena, arena', _, _, b, v, ha, ha', hslot, haccess, rfl, rfl, hspelled, hb, hv,
    hsame.symm.trans hv⟩

end Analysis

end SquirrelAnalyzer
