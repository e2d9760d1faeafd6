namespace SqlFragment

structure Keyed (α : Type) where
  /-- The newest entry first. -/
  entries : List (String × α)
  deriving DecidableEq

namespace Keyed

variable {α : Type}

def empty : Keyed α := ⟨[]⟩

instance : EmptyCollection (Keyed α) := ⟨empty⟩

instance : Inhabited (Keyed α) := ⟨empty⟩

def get? (m : Keyed α) (key : String) : Option α :=
  (m.entries.find? fun entry => entry.1 == key).map (·.2)

def contains (m : Keyed α) (key : String) : Bool := m.entries.any fun entry => entry.1 == key

def erase (m : Keyed α) (key : String) : Keyed α :=
  ⟨m.entries.filter fun entry => entry.1 != key⟩

def insert (m : Keyed α) (key : String) (value : α) : Keyed α :=
  ⟨(key, value) :: (m.erase key).entries⟩

def size (m : Keyed α) : Nat := m.entries.length

@[simp] theorem get?_empty (key : String) : (empty : Keyed α).get? key = none := rfl

theorem get?_erase_self (m : Keyed α) (key : String) : (m.erase key).get? key = none := by
  simp [get?, erase]

theorem get?_erase_of_ne (m : Keyed α) {key other : String} (ne : other ≠ key) :
    (m.erase key).get? other = m.get? other := by
  simp only [get?, erase, List.find?_filter]
  congr 2
  funext entry
  by_cases same : entry.1 = other <;> simp [same, ne]

@[simp] theorem get?_insert_self (m : Keyed α) (key : String) (value : α) :
    (m.insert key value).get? key = some value := by
  simp [get?, insert]

theorem get?_insert_of_ne (m : Keyed α) (value : α) {key other : String} (ne : other ≠ key) :
    (m.insert key value).get? other = m.get? other := by
  rw [← get?_erase_of_ne m ne]
  simp [get?, insert, Ne.symm ne]

end Keyed

end SqlFragment
