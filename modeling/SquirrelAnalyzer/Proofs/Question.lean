import SquirrelAnalyzer.Analysis.Query
import SquirrelAnalyzer.Proofs.Bounds
import SquirrelAnalyzer.Proofs.Steps.Label

namespace SquirrelAnalyzer

/-- A question about a branch. -/
inductive Question where
  | definition (b : Branch)
  | value (b : Branch)
  | label (b : Branch)
  | superclasses (b : Branch)
  | members (b : Branch)
  | findMember (b : Branch) (name : String)

namespace Question

abbrev Answer : Question → Type
  | definition _ => Option Branch
  | value _ => Option Value
  | label _ => TypeLabel
  | superclasses _ => List Branch
  | members _ => List Member
  | findMember .. => Option Branch

def branch : Question → Branch
  | definition b | value b | label b | superclasses b | members b | findMember b _ => b

def ask : (q : Question) → Asking q.Answer
  | definition b => Analysis.definition b
  | value b => Analysis.value b
  | label b => Analysis.label b
  | superclasses b => Analysis.superclasses b
  | members b => Analysis.members b
  | findMember b name => Analysis.findMember b name

def askAll (questions : List Question) (a : Analysis) : Analysis :=
  questions.foldl (fun a q => (q.ask.run a).2) a

def resolve (p : Program) (ask : Ask) : (q : Question) → Resolving q.Answer
  | definition b => (ask .definition b).run
  | value b => (ask .value b).run
  | label b => Resolve.label p ask b
  | superclasses b => Resolve.superclasses p ask b
  | members b => do
    match ← (ask .value b).run with
    | some v => Resolve.members p ask v
    | none => return []
  | findMember b name => (ask .value b >>= Resolve.findMember p ask name none).run

theorem ask_eq_walk (q : Question) : q.ask = Analysis.walk fun p => q.resolve p p.answer := by
  cases q <;> rfl

def Holds (I : Branch → Prop) : (q : Question) → q.Answer → Prop
  | definition _, answer | findMember .., answer => ∀ b, answer = some b → I b
  | value _, answer => ∀ v, answer = some v → Query.Holds I .value v
  | label _, _ => True
  | superclasses _, answer => ∀ b ∈ answer, I b
  | members _, answer => ∀ m ∈ answer, I m.branch

theorem resolve_follows {p : Program} {I : Branch → Prop} (hp : p.Closed I) (q : Question)
    {P : Prop} (hb : P → I q.branch) : Follows I P (fun ask => q.resolve p ask) (q.Holds I) := by
  cases q with
  | definition b => exact Follows.ask .definition hb
  | value b => exact Follows.ask .value hb
  | label b => exact Resolve.label_follows hp hb
  | superclasses b => exact Resolve.superclasses_follows hp hb
  | members b =>
    refine Follows.bind (Follows.ask .value hb) fun o => ?_
    cases o with
    | none => exact Follows.pure fun _ _ h => nomatch h
    | some v => exact Resolve.members_follows hp fun h => h.2 v rfl
  | findMember b name =>
    exact Finds.bind (Finds.ask .value hb) fun v => Resolve.findMember_finds hp fun h => h.2

end Question

namespace Analysis

variable {a : Analysis}

theorem program_ask (q : Question) (a : Analysis) : (q.ask.run a).2.program = a.program := by
  rw [q.ask_eq_walk]
  rfl

theorem exists_plan {I : Branch → Prop} (hp : a.program.Closed I) (q : Question)
    (hq : I q.branch) : ∃ t : Plan q.Answer, t.Keeps I (q.Holds I) ∧ ∀ m : Memo,
      ((t.run a.program.answer).run { memo := m }).1 = (q.ask.run { a with memo := m }).1 ∧
      ((t.run a.program.answer).run { memo := m }).2.memo =
        (q.ask.run { a with memo := m }).2.memo := by
  obtain ⟨t, ht, hkeeps⟩ := q.resolve_follows hp (P := True) fun _ => hq
  refine ⟨t, hkeeps trivial, fun m => ?_⟩
  rw [← ht a.program.answer, q.ask_eq_walk]
  exact ⟨rfl, rfl⟩

theorem advances_ask (q : Question) (a : Analysis) : ∃ s, s.memo = (q.ask.run a).2.memo ∧
    Progress.Advances a.program { memo := a.memo } s := by
  obtain ⟨t, -, ht⟩ := exists_plan a.program.closed_true q trivial
  exact ⟨_, (ht a.memo).2, (Plan.run_advances a.program.answer_sound (t := t) rfl).1⟩

theorem grown_ask {q : Question} (h : a.program.Grown a.memo) :
    a.program.Grown (q.ask.run a).2.memo := by
  obtain ⟨s, hs, hadv⟩ := advances_ask q a
  exact hs ▸ hadv.grown h

theorem le_ask (q : Question) (a : Analysis) : a.memo.Le (q.ask.run a).2.memo := by
  obtain ⟨s, hs, hadv⟩ := advances_ask q a
  exact hs ▸ hadv.memo

theorem holds_ask {I : Branch → Prop} {q : Question} (hp : a.program.Closed I) (hq : I q.branch)
    (h : a.memo.Holds I) : q.Holds I (q.ask.run a).1 ∧ (q.ask.run a).2.memo.Holds I := by
  obtain ⟨t, hkeeps, ht⟩ := exists_plan hp q hq
  obtain ⟨hanswer, hmemo⟩ := ht a.memo
  have hrun := Plan.run_holds (Program.answer_holds hp) hkeeps (s := { memo := a.memo }) h rfl
  exact ⟨hanswer ▸ hrun.1, hmemo ▸ hrun.2⟩

theorem le_askAll (questions : List Question) (a : Analysis) :
    a.memo.Le (Question.askAll questions a).memo := by
  induction questions generalizing a with
  | nil => exact .refl _
  | cons q questions ih => exact (le_ask q a).trans (ih _)

theorem program_askAll (questions : List Question) (a : Analysis) :
    (Question.askAll questions a).program = a.program := by
  induction questions generalizing a with
  | nil => rfl
  | cons q questions ih => exact (ih _).trans (program_ask q a)

end Analysis

end SquirrelAnalyzer
