import SquirrelAnalyzer.Node.Id

namespace SquirrelAnalyzer

structure NodeTable (α : Type) where
  slots : Array (Option α) := #[]
  deriving Repr, Inhabited

namespace NodeTable

variable {α : Type}

def empty : NodeTable α := ⟨#[]⟩

instance : EmptyCollection (NodeTable α) := ⟨empty⟩

def get? (t : NodeTable α) (id : NodeId) : Option α := t.slots[id.index]?.join

def contains (t : NodeTable α) (id : NodeId) : Bool := (t.get? id).isSome

def grown (slots : Array (Option α)) (index : Nat) : Array (Option α) :=
  if index < slots.size then slots
  else slots ++ Array.replicate (index + 1 - slots.size) none

def insert (t : NodeTable α) (id : NodeId) (value : α) : NodeTable α :=
  ⟨(grown t.slots id.index).setIfInBounds id.index (some value)⟩

def modify (t : NodeTable α) (id : NodeId) (f : α → α) : NodeTable α :=
  ⟨t.slots.modify id.index (Option.map f)⟩

def toList (t : NodeTable α) : List (NodeId × α) :=
  t.slots.toList.zipIdx.filterMap fun (slot, index) => slot.map (⟨index⟩, ·)

def append (t : NodeTable (List α)) (id : NodeId) (value : α) : NodeTable (List α) :=
  t.insert id ((t.get? id).getD [] ++ [value])

def ofList (entries : List (NodeId × α)) : NodeTable α :=
  entries.foldl (fun t e => t.insert e.1 e.2) ∅

def group (entries : List (NodeId × α)) : NodeTable (List α) :=
  entries.foldl (fun t e => t.append e.1 e.2) ∅

@[simp] theorem get?_empty (id : NodeId) : (∅ : NodeTable α).get? id = none := by
  simp [EmptyCollection.emptyCollection, empty, get?]

theorem size_grown (slots : Array (Option α)) (index : Nat) : index < (grown slots index).size := by
  simp only [grown]
  split
  · assumption
  · simp
    omega

theorem join_getElem?_grown (slots : Array (Option α)) (index i : Nat) :
    (grown slots index)[i]?.join = slots[i]?.join := by
  simp only [grown]
  split
  · rfl
  · by_cases h : i < slots.size
    · rw [Array.getElem?_append_left h]
    · rw [Array.getElem?_append_right (Nat.le_of_not_lt h)]
      have hn : slots[i]? = none := by simpa using h
      rw [hn, Array.getElem?_replicate]
      split <;> rfl

theorem get?_insert (t : NodeTable α) (id id' : NodeId) (value : α) :
    (t.insert id value).get? id' = if id' = id then some value else t.get? id' := by
  simp only [insert, get?]
  rw [Array.getElem?_setIfInBounds]
  by_cases h : id = id'
  · subst h
    simp [size_grown]
  · have hi : id.index ≠ id'.index := fun he => h (by cases id; cases id'; simp_all)
    simp only [hi, if_false, Ne.symm h]
    exact join_getElem?_grown _ _ _

end NodeTable

end SquirrelAnalyzer
