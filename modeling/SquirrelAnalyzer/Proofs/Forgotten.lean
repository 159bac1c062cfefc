import SquirrelAnalyzer.Proofs.Reachable
import SquirrelAnalyzer.Proofs.Transparency

namespace SquirrelAnalyzer

namespace Program

def Written (p : Program) : Prop :=
  ∀ u ∈ p.liveUnits, ∀ id : NodeId, id.index < u.arena.size → u.arena.isSynthetic id = false

variable {p : Program} {b : Branch}

theorem anchor_of_unit {u : SourceUnit} (hu : p.unit? b.unit = some u) :
    p.anchor b = u.arena.anchor b := by
  simp only [anchor, hu]

theorem exists_node (h : (p.shape? b).isSome) :
    ∃ u, p.unit? b.unit = some u ∧ b.target.index < u.arena.size := by
  obtain ⟨s, hs⟩ := Option.isSome_iff_exists.mp h
  obtain ⟨u, hu, hs⟩ := Option.bind_eq_some_iff.mp hs
  obtain ⟨n, hn, -⟩ := Option.map_eq_some_iff.mp hs
  exact ⟨u, hu, Arena.lt_size_of_get? hn⟩

theorem Sound.rooted (h : p.Sound) (hw : p.Written) : p.Rooted := by
  intro b b' hr hs
  obtain ⟨hunit, htarget⟩ := Branch.ref_eq_iff.mp hr
  obtain ⟨u, hu, hlt⟩ := exists_node hs
  obtain ⟨hid, hsound⟩ := h.unit b.unit u hu
  have hb : b.unit = u.arena.unit := by rw [hsound.unit, hid]
  have hparsed : b.target.index < u.arena.parsedSize := by
    have := hw u (mem_liveUnits.mpr ⟨b.unit, hu⟩) b.target hlt
    simpa [Arena.isSynthetic] using this
  rw [anchor_of_unit hu, anchor_of_unit (hunit ▸ hu)]
  exact hsound.rooted.anchor_congr hb (hunit ▸ hb) htarget hparsed

end Program

namespace Analysis

variable {a : Analysis}

/-- What was asked before makes no difference to an answer. -/
theorem ask_askAll (h : a.Reachable fun _ _ => True) (hw : a.program.Written)
    (hd : 2 * a.program.size < a.program.config.maxDepth) (questions : List Question)
    (q : Question) :
    (q.ask.run (Question.askAll questions a)).1 =
      (q.ask.run { Question.askAll questions a with memo := ∅ }).1 := by
  have hlast := h.askAll questions
  have hp := program_askAll questions a
  generalize Question.askAll questions a = last at hlast hp ⊢
  rw [← hp] at hw hd
  obtain ⟨t, -, ht⟩ := exists_plan last.program.closed_true q trivial
  rw [← (ht ∅).1]
  show (q.ask.run { last with memo := last.memo }).1 = _
  rw [← (ht last.memo).1]
  exact Program.run_plan_agree (hlast.sound.rooted hw) hd t hlast.grown .empty

theorem ask_askAll_cycle : ∃ a,
    ofSources {} Imports.none ["local a = b; local b = a; a;"] = .ok a ∧
    a.program.Written ∧ 2 * a.program.size < a.program.config.maxDepth ∧
    ∀ (questions : List Question) (q : Question), (q.ask.run (Question.askAll questions a)).1 =
      (q.ask.run { Question.askAll questions a with memo := ∅ }).1 := by
  have hsmall : ((ofSources {} Imports.none ["local a = b; local b = a; a;"]).toOption.any
      fun a => a.program.liveUnits.all (fun u => u.arena.size ≤ u.arena.parsedSize) &&
        2 * a.program.size < a.program.config.maxDepth) = true := by decide +kernel
  obtain ⟨a, ha, hsmall⟩ := exists_ok hsmall
  obtain ⟨hsize, hd⟩ := Bool.and_eq_true_iff.mp hsmall
  have hd := of_decide_eq_true hd
  have hw : a.program.Written := by
    intro u hu id hid
    have := of_decide_eq_true (List.all_eq_true.mp hsize u hu)
    simp only [Arena.isSynthetic, decide_eq_false_iff_not]
    omega
  exact ⟨a, ha, hw, hd, ask_askAll (.ofSources ha) hw hd⟩

end Analysis

end SquirrelAnalyzer
