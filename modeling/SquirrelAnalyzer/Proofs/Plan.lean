import Mathlib.Tactic.Common
import SquirrelAnalyzer.Resolve.Answer

namespace SquirrelAnalyzer

inductive Plan (α : Type) where
  | done (a : α)
  | ask (q : Query) (b : Branch) (next : Option q.Answer → Plan α)

def Query.Holds (I : Branch → Prop) : (q : Query) → q.Answer → Prop
  | .definition, b => I b
  | .value, .node b _ call => I b ∧ ∀ c, call = some c → I c
  | .value, .nominal _ => True

theorem Query.holds_true : (q : Query) → (x : q.Answer) → q.Holds (fun _ => True) x
  | .definition, _ => trivial
  | .value, .node .. => ⟨trivial, fun _ _ => trivial⟩
  | .value, .nominal _ => trivial

namespace Plan

variable {α β : Type}

def run (ask : Ask) : Plan α → Resolving α
  | done a => pure a
  | .ask q b next => do run ask (next (← (ask q b).run))

def bind : Plan α → (α → Plan β) → Plan β
  | done a, k => k a
  | ask q b next, k => .ask q b fun answer => (next answer).bind k

def eval (known : (q : Query) → Branch → Option (Option q.Answer)) : Plan α → Option α
  | done a => some a
  | ask q b next => (known q b).bind fun answer => (next answer).eval known

def Keeps (I : Branch → Prop) (Q : α → Prop) : Plan α → Prop
  | done a => Q a
  | ask q b next =>
    I b ∧ ∀ answer, (∀ x, answer = some x → q.Holds I x) → (next answer).Keeps I Q

theorem run_bind (ask : Ask) (t : Plan α) (k : α → Plan β) :
    (t.bind k).run ask = t.run ask >>= fun a => (k a).run ask := by
  induction t with
  | done a => simp [bind, run]
  | ask q b next ih => simp [bind, run, ih]

theorem Keeps.bind {I : Branch → Prop} {Q : α → Prop} {R : β → Prop} {t : Plan α}
    {k : α → Plan β} (ht : t.Keeps I Q) (hk : ∀ a, Q a → (k a).Keeps I R) :
    (t.bind k).Keeps I R := by
  induction t with
  | done a => exact hk a ht
  | ask q b next ih => exact ⟨ht.1, fun answer ha => ih answer (ht.2 answer ha)⟩

theorem Keeps.mono {I : Branch → Prop} {Q R : α → Prop} {t : Plan α} (ht : t.Keeps I Q)
    (h : ∀ a, Q a → R a) : t.Keeps I R := by
  induction t with
  | done a => exact h a ht
  | ask q b next ih => exact ⟨ht.1, fun answer ha => ih answer (ht.2 answer ha)⟩

theorem eval_mono {known known' : (q : Query) → Branch → Option (Option q.Answer)}
    (h : ∀ q b r, known q b = some r → known' q b = some r) {t : Plan α} {a : α}
    (ht : t.eval known = some a) : t.eval known' = some a := by
  induction t with
  | done a => exact ht
  | ask q b next ih =>
    obtain ⟨r, hr, hn⟩ := Option.bind_eq_some_iff.mp ht
    simp only [eval, h q b r hr]
    exact ih r hn

end Plan

theorem Resolve.bind_ofOption_some {α β : Type} (a : α) (f : α → Resolve β) :
    (ofOption (some a) >>= f) = f a := rfl

theorem Resolve.bind_ofOption_none {α β : Type} (f : α → Resolve β) :
    (ofOption none >>= f) = failure := rfl

def Follows {α : Type} (I : Branch → Prop) (P : Prop) (F : Ask → Resolving α) (Q : α → Prop) :
    Prop :=
  ∃ t : Plan α, (∀ ask, F ask = t.run ask) ∧ (P → t.Keeps I Q)

def Finds {α : Type} (I : Branch → Prop) (P : Prop) (F : Ask → Resolve α) (Q : α → Prop) : Prop :=
  Follows I P (fun ask => (F ask).run) fun o => ∀ a, o = some a → Q a

namespace Follows

variable {α β : Type} {I : Branch → Prop} {P P' : Prop} {Q Q' : α → Prop} {R : β → Prop}

theorem pure {a : α} (h : P → Q a) : Follows I P (fun _ => Pure.pure a) Q :=
  ⟨.done a, fun _ => rfl, h⟩

theorem bind {F : Ask → Resolving α} {G : Ask → α → Resolving β} (hF : Follows I P F Q)
    (hG : ∀ a, Follows I (P ∧ Q a) (fun ask => G ask a) R) :
    Follows I P (fun ask => F ask >>= G ask) R := by
  obtain ⟨t, ht, hk⟩ := hF
  choose k hrun hkeeps using hG
  refine ⟨t.bind k, ?_, fun hP => (hk hP).bind fun a ha => hkeeps a ⟨hP, ha⟩⟩
  intro ask
  show F ask >>= G ask = _
  rw [Plan.run_bind, ht ask]
  congr 1
  funext a
  exact hrun a ask

theorem mono {F : Ask → Resolving α} (hF : Follows I P F Q) (hP : P' → P)
    (hQ : P' → ∀ a, Q a → Q' a) : Follows I P' F Q' := by
  obtain ⟨t, ht, hk⟩ := hF
  exact ⟨t, ht, fun h => (hk (hP h)).mono (hQ h)⟩

theorem of_imp {F : Ask → Resolving α} (hF : Follows I P F Q) (hP : P' → P) : Follows I P' F Q :=
  hF.mono hP fun _ _ h => h

theorem congr {F F' : Ask → Resolving α} (hF : Follows I P F Q) (h : ∀ ask, F' ask = F ask) :
    Follows I P F' Q := by
  obtain ⟨t, ht, hk⟩ := hF
  exact ⟨t, fun ask => (h ask).trans (ht ask), hk⟩

theorem ask (q : Query) {b : Branch} (h : P → I b) :
    Follows I P (fun ask => (ask q b).run) fun o => ∀ a, o = some a → q.Holds I a := by
  refine ⟨.ask q b .done, ?_, fun hP => ⟨h hP, fun _ ha => ha⟩⟩
  intro ask
  simp [Plan.run]

end Follows

namespace Finds

variable {α β : Type} {I : Branch → Prop} {P P' : Prop} {Q Q' : α → Prop} {R : β → Prop}

theorem pure {a : α} (h : P → Q a) : Finds I P (fun _ => Pure.pure a) Q := by
  refine (Follows.pure (a := some a) ?_).congr fun _ => rfl
  rintro hP _ ⟨⟩
  exact h hP

theorem failure : Finds I P (fun _ => (failure : Resolve α)) Q :=
  (Follows.pure (a := none) fun _ _ h => nomatch h).congr fun _ => rfl

theorem ofOption {o : Option α} (h : P → ∀ a, o = some a → Q a) :
    Finds I P (fun _ => Resolve.ofOption o) Q :=
  (Follows.pure (a := o) h).congr fun _ => rfl

theorem ask (q : Query) {b : Branch} (h : P → I b) :
    Finds I P (fun ask => ask q b) (q.Holds I) := Follows.ask q h

theorem bind {F : Ask → Resolve α} {G : Ask → α → Resolve β} (hF : Finds I P F Q)
    (hG : ∀ a, Finds I (P ∧ Q a) (fun ask => G ask a) R) :
    Finds I P (fun ask => F ask >>= G ask) R := by
  have h : Follows I P (fun ask => (F ask).run >>= fun o =>
      o.elim (Pure.pure none) fun a => (G ask a).run) fun o => ∀ b, o = some b → R b := by
    apply Follows.bind hF
    intro o
    cases o with
    | none => exact Follows.pure (by rintro _ _ ⟨⟩)
    | some a => exact (hG a).of_imp fun h => ⟨h.1, h.2 a rfl⟩
  exact h.congr fun ask => OptionT.run_bind (G ask)

theorem orElse {F G : Ask → Resolve α} (hF : Finds I P F Q) (hG : Finds I P G Q) :
    Finds I P (fun ask => F ask <|> G ask) Q := by
  have h : Follows I P (fun ask => (F ask).run >>= fun o =>
      o.elim (G ask).run fun a => Pure.pure (some a)) fun o => ∀ b, o = some b → Q b := by
    apply Follows.bind hF
    intro o
    cases o with
    | none => exact Follows.of_imp hG fun h => h.1
    | some a => exact Follows.pure fun h => h.2
  exact h.congr fun ask => OptionT.run_orElse (F ask) (G ask)

theorem attempt {F : Ask → Resolve α} (hF : Finds I P F Q) :
    Finds I P (fun ask => Resolve.attempt (F ask)) fun o => ∀ a, o = some a → Q a := by
  have h := Follows.bind (R := fun o : Option (Option α) => ∀ b, o = some b → ∀ a, b = some a → Q a)
    (G := fun _ o => Pure.pure (some o)) hF
    fun o => Follows.pure (by rintro ⟨_, h⟩ _ ⟨⟩; exact h)
  exact h.congr fun ask => by simp [Resolve.attempt]

theorem lift {F : Ask → Resolving α} (hF : Follows I P F Q) :
    Finds I P (fun ask => (liftM (F ask) : Resolve α)) Q := by
  have h := Follows.bind (R := fun o : Option α => ∀ b, o = some b → Q b)
    (G := fun _ a => Pure.pure (some a)) hF
    fun o => Follows.pure (by rintro ⟨_, h⟩ _ ⟨⟩; exact h)
  exact h.congr fun ask => by simp

theorem exists_plan {F : Ask → Resolve α} (hF : Finds (fun _ => True) True F Q) (ask : Ask) :
    ∃ t : Plan (Option α), (F ask).run = t.run ask := by
  obtain ⟨t, ht, -⟩ := hF
  exact ⟨t, ht ask⟩

end Finds

end SquirrelAnalyzer
