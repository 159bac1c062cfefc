import SquirrelAnalyzer.Proofs.Editing

namespace SquirrelAnalyzer

namespace Analysis

/-- The analyses that edits lead to, and questions about some branches. -/
inductive Reachable (asked : Program → Branch → Prop) : Analysis → Prop
  | ofConfig (config : Config) : Reachable asked (ofConfig config)
  | ofSources {config : Config} {imports : Imports} {sources : List String} {a : Analysis}
      (h : ofSources config imports sources = .ok a) : Reachable asked a
  | edit {a a' : Analysis} (h : Reachable asked a) {e : Edit} (he : e.apply a = .ok a') :
      Reachable asked a'
  | ask {a : Analysis} (h : Reachable asked a) {q : Question} (hq : asked a.program q.branch) :
      Reachable asked (q.ask.run a).2

variable {asked : Program → Branch → Prop} {a a' : Analysis}

namespace Reachable

theorem sound_and_grown (h : a.Reachable asked) :
    a.program.Sound ∧ a.program.Grown a.memo := by
  induction h with
  | ofConfig config => exact ⟨(Program.bare_start config Imports.none).sound, .empty⟩
  | ofSources h =>
    obtain ⟨hsound, hmemo⟩ := sound_ofSources h
    exact ⟨hsound, hmemo ▸ .empty⟩
  | edit _ he ih =>
    obtain ⟨hsound, hmemo⟩ := sound_apply ih.1 ih.2.within he
    exact ⟨hsound, hmemo ▸ .empty⟩
  | @ask a _ q _ ih =>
    rw [program_ask q a]
    exact ⟨ih.1, grown_ask ih.2⟩

theorem sound (h : a.Reachable asked) : a.program.Sound := h.sound_and_grown.1

theorem grown (h : a.Reachable asked) : a.program.Grown a.memo := h.sound_and_grown.2

theorem within (h : a.Reachable asked) : a.memo.Within a.program := h.grown.within

theorem mono {asked' : Program → Branch → Prop} (h : a.Reachable asked)
    (hi : ∀ p b, asked p b → asked' p b) : a.Reachable asked' := by
  induction h with
  | ofConfig config => exact .ofConfig config
  | ofSources h => exact .ofSources h
  | edit _ he ih => exact ih.edit he
  | ask _ hq ih => exact ih.ask (hi _ _ hq)

theorem holds_of_closed (h : a.Reachable asked)
    (hclosed : ∀ a : Analysis, a.Reachable asked → a.program.Closed (asked a.program)) :
    a.memo.Holds (asked a.program) := by
  induction h with
  | ofConfig config => exact Memo.holds_empty
  | ofSources h => exact (sound_ofSources h).2 ▸ Memo.holds_empty
  | edit h he => exact (sound_apply h.sound h.within he).2 ▸ Memo.holds_empty
  | @ask a h q hq ih =>
    rw [program_ask q a]
    exact (holds_ask (hclosed a h) hq ih).2

theorem holds (h : a.Reachable Program.InBounds) : a.memo.Holds a.program.InBounds :=
  h.holds_of_closed fun _ h => h.sound.closed

theorem askAll (h : a.Reachable fun _ _ => True) (questions : List Question) :
    (Question.askAll questions a).Reachable fun _ _ => True := by
  induction questions generalizing a with
  | nil => exact h
  | cons q questions ih => exact ih (h.ask trivial)

end Reachable

end Analysis

end SquirrelAnalyzer
