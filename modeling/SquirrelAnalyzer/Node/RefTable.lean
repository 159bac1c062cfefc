import SquirrelAnalyzer.Node.Table

namespace SquirrelAnalyzer

structure RefTable (α : Type) where
  units : List (UnitId × NodeTable α) := []
  deriving Repr, Inhabited

namespace RefTable

variable {α : Type}

def empty : RefTable α := ⟨[]⟩

instance : EmptyCollection (RefTable α) := ⟨empty⟩

def find (unit : UnitId) : List (UnitId × NodeTable α) → NodeTable α
  | [] => ∅
  | (id, t) :: units => if unit = id then t else find unit units

def ofUnit (t : RefTable α) (unit : UnitId) : NodeTable α := find unit t.units

def get? (t : RefTable α) (ref : NodeRef) : Option α := (t.ofUnit ref.unit).get? ref.node

def modifyUnit (unit : UnitId) (f : NodeTable α → NodeTable α) :
    List (UnitId × NodeTable α) → List (UnitId × NodeTable α)
  | [] => [(unit, f ∅)]
  | (id, t) :: units => if unit = id then (id, f t) :: units else (id, t) :: modifyUnit unit f units

def insert (t : RefTable α) (ref : NodeRef) (value : α) : RefTable α :=
  ⟨modifyUnit ref.unit (·.insert ref.node value) t.units⟩

def clear (t : RefTable α) (unit : UnitId) : RefTable α := ⟨t.units.filter (·.1 ≠ unit)⟩

@[simp] theorem ofUnit_empty (unit : UnitId) : (∅ : RefTable α).ofUnit unit = ∅ := rfl

@[simp] theorem get?_empty (ref : NodeRef) : (∅ : RefTable α).get? ref = none := by
  simp [get?]

theorem find_modifyUnit (unit : UnitId) (f : NodeTable α → NodeTable α)
    (units : List (UnitId × NodeTable α)) (id : UnitId) : find id (modifyUnit unit f units) =
      if id = unit then f (find id units) else find id units := by
  induction units with
  | nil => simp only [modifyUnit, find]
  | cons e units ih =>
    simp only [modifyUnit, find]
    by_cases he : unit = e.1
    · simp only [he, if_true, find]
      split <;> rfl
    · simp only [he, if_false, find, ih]
      by_cases hid : id = e.1
      · simp [hid, Ne.symm he]
      · simp [hid]

theorem ofUnit_insert (t : RefTable α) (ref : NodeRef) (value : α) (unit : UnitId) :
    (t.insert ref value).ofUnit unit =
      if unit = ref.unit then (t.ofUnit unit).insert ref.node value else t.ofUnit unit :=
  find_modifyUnit ..

theorem get?_insert (t : RefTable α) (ref ref' : NodeRef) (value : α) :
    (t.insert ref value).get? ref' = if ref' = ref then some value else t.get? ref' := by
  cases ref with
  | mk unit node =>
    cases ref' with
    | mk unit' node' =>
      simp only [get?, ofUnit_insert]
      by_cases hu : unit' = unit
      · subst hu
        simp [NodeTable.get?_insert]
      · simp [hu]

theorem mem_units_modifyUnit {unit id : UnitId} {f : NodeTable α → NodeTable α}
    {units : List (UnitId × NodeTable α)} (h : id ∈ (modifyUnit unit f units).map Prod.fst) :
    id = unit ∨ id ∈ units.map Prod.fst := by
  induction units with
  | nil => exact .inl (List.mem_singleton.mp h)
  | cons e units ih =>
    unfold modifyUnit at h
    split at h
    · exact .inr h
    · rcases List.mem_cons.mp h with rfl | h
      · exact .inr List.mem_cons_self
      · exact (ih h).imp_right (List.mem_cons_of_mem _)

end RefTable

end SquirrelAnalyzer
