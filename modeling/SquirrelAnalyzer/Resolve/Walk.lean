import SquirrelAnalyzer.Node.RefTable
import SquirrelAnalyzer.Resolve.Value

/-!
The walk of one query through its sub-queries, and the answers remembered across queries. A query
that runs into itself, or too deep, is given up. An answer is remembered only if nothing below it
was given up, so what is remembered never depends on where a walk began.
-/

namespace SquirrelAnalyzer

inductive Query
  | definition | value
  deriving DecidableEq, Repr, Inhabited

namespace Query

abbrev Answer : Query → Type
  | definition => Branch
  | value => Value

def isIndirect : Query → Kind → Bool
  | _, .identifier | _, .memberExpression | _, .rootExpression | _, .thisExpression
  | _, .baseExpression | _, .callExpression => true
  | definition, _ => false
  | value, .variableDeclarator | value, .propertyDefinition | value, .methodDefinition
  | value, .enumMember | value, .metaProperty | value, .assignmentPattern
  | value, .assignmentExpression | value, .conditionalExpression | value, .unaryExpression => true
  | value, _ => false

end Query

structure Frame where
  query : Query
  ref : NodeRef
  deriving DecidableEq, Repr, Inhabited

structure Walk where
  /-- The frames in progress, the innermost first. -/
  visited : List Frame := []
  depth : Nat := 0
  /-- The innermost frame, or something below it, was given up. -/
  aborted : Bool := false
  deriving Repr, Inhabited

namespace Walk

def refuses (w : Walk) (limit : Nat) (f : Frame) : Bool :=
  limit ≤ w.depth || w.visited.contains f

def enter (w : Walk) (f : Frame) : Walk := ⟨f :: w.visited, w.depth + 1, false⟩

def leave (w : Walk) (f : Frame) (outer : Bool) : Walk :=
  ⟨w.visited.erase f, w.depth - 1, w.aborted || outer⟩

def abort (w : Walk) : Walk := { w with aborted := true }

theorem refuses_iff {w : Walk} {limit : Nat} {f : Frame} :
    w.refuses limit f = true ↔ limit ≤ w.depth ∨ f ∈ w.visited := by
  simp [refuses]

end Walk

structure Memo where
  definitions : RefTable (Option Branch) := ∅
  values : RefTable (Option Value) := ∅
  deriving Inhabited

namespace Memo

def empty : Memo := {}

instance : EmptyCollection Memo := ⟨empty⟩

def get? (m : Memo) : (q : Query) → NodeRef → Option (Option q.Answer)
  | .definition, ref => m.definitions.get? ref
  | .value, ref => m.values.get? ref

def insert (m : Memo) : (q : Query) → NodeRef → Option q.Answer → Memo
  | .definition, ref, answer => { m with definitions := m.definitions.insert ref answer }
  | .value, ref, answer => { m with values := m.values.insert ref answer }

def clear (m : Memo) (unit : UnitId) : Memo := ⟨m.definitions.clear unit, m.values.clear unit⟩

@[simp] theorem get?_empty (q : Query) (ref : NodeRef) : (∅ : Memo).get? q ref = none := by
  cases q <;> exact RefTable.get?_empty ref

theorem get?_insert_self (m : Memo) (q : Query) (ref : NodeRef) (answer : Option q.Answer) :
    (m.insert q ref answer).get? q ref = some answer := by
  cases q <;> simp [insert, get?, RefTable.get?_insert]

theorem get?_insert_of_ne (m : Memo) {q q' : Query} {ref ref' : NodeRef}
    (answer : Option q.Answer) (h : (⟨q', ref'⟩ : Frame) ≠ ⟨q, ref⟩) :
    (m.insert q ref answer).get? q' ref' = m.get? q' ref' := by
  cases q <;> cases q' <;> simp_all [insert, get?, RefTable.get?_insert]

end Memo

structure Progress where
  walk : Walk := {}
  memo : Memo := ∅
  deriving Inhabited

abbrev Resolving := StateM Progress

abbrev Resolve := OptionT Resolving

abbrev Ask := (q : Query) → Branch → Resolve q.Answer

namespace Resolve

variable {α : Type}

def ofOption (o : Option α) : Resolve α := OptionT.mk (pure o)

def attempt (compute : Resolve α) : Resolve (Option α) := OptionT.lift compute.run

def abort : Resolve α :=
  OptionT.mk <| modifyGet fun s => (none, { s with walk := s.walk.abort })

/-- Runs a computation as one frame of the walk, unless the walk refuses it. The flag says that
nothing in the frame was given up. -/
def guarded (limit : Nat) (f : Frame) (compute : Resolve α) : Resolving (Option α × Bool) :=
  modifyGet fun s =>
    if s.walk.refuses limit f then ((none, false), { s with walk := s.walk.abort })
    else
      let (result, t) := compute.run.run { s with walk := s.walk.enter f }
      ((result, !t.walk.aborted), { t with walk := t.walk.leave f s.walk.aborted })

def remembered (limit : Nat) (q : Query) (ref : NodeRef) (compute : Resolve q.Answer) :
    Resolve q.Answer :=
  OptionT.mk do
    match (← get).memo.get? q ref with
    | some known => return known
    | none =>
      let (result, clean) ← guarded limit ⟨q, ref⟩ compute
      if clean then
        modify fun s => { s with memo := s.memo.insert q ref result }
      return result

theorem run_guarded_of_refuses {limit : Nat} {f : Frame} {s : Progress}
    (h : s.walk.refuses limit f = true) (compute : Resolve α) :
    (guarded limit f compute).run s = ((none, false), { s with walk := s.walk.abort }) := by
  simp [guarded, StateT.run, modifyGet, MonadStateOf.modifyGet, StateT.modifyGet, h]
  rfl

theorem run_guarded {limit : Nat} {f : Frame} {s : Progress}
    (h : s.walk.refuses limit f = false) (compute : Resolve α) :
    (guarded limit f compute).run s =
      let t := (compute.run.run { s with walk := s.walk.enter f }).2
      (((compute.run.run { s with walk := s.walk.enter f }).1, !t.walk.aborted),
        { t with walk := t.walk.leave f s.walk.aborted }) := by
  simp [guarded, StateT.run, modifyGet, MonadStateOf.modifyGet, StateT.modifyGet, h]
  rfl

theorem run_remembered_of_get? {limit : Nat} {q : Query} {ref : NodeRef} {s : Progress}
    {known : Option q.Answer} (h : s.memo.get? q ref = some known) (compute : Resolve q.Answer) :
    (remembered limit q ref compute).run.run s = (known, s) := by
  simp [remembered, h]
  rfl

theorem run_remembered {limit : Nat} {q : Query} {ref : NodeRef} {s : Progress}
    (h : s.memo.get? q ref = none) (compute : Resolve q.Answer) :
    (remembered limit q ref compute).run.run s =
      let g := (guarded limit ⟨q, ref⟩ compute).run s
      (g.1.1, if g.1.2 then { g.2 with memo := g.2.memo.insert q ref g.1.1 } else g.2) := by
  have hs : (remembered limit q ref compute).run.run s =
      ((guarded limit ⟨q, ref⟩ compute >>= fun g => do
        if g.2 then
          modify fun s => { s with memo := s.memo.insert q ref g.1 }
        return g.1 : Resolving (Option q.Answer)).run s) := by
    simp [remembered, h]
  rw [hs, StateT.run_bind]
  cases hg : (guarded limit ⟨q, ref⟩ compute).run s with
  | mk g t =>
    obtain ⟨result, clean⟩ := g
    cases clean <;> rfl

end Resolve

end SquirrelAnalyzer
