import LineScript.Text.Basic

/-!
Tables from names to entries.
-/

namespace LineScript

/-- Entries by name, each name at most once, in the order of their first
definition. -/
abbrev Table (α : Type) := List (Text × α)

namespace Table

variable {α : Type}

def get? (table : Table α) (name : Text) : Option α :=
  match table with
  | [] => none
  | (key, entry) :: rest => if key = name then some entry else get? rest name

def set (table : Table α) (name : Text) (entry : α) : Table α :=
  match table with
  | [] => [(name, entry)]
  | (key, previous) :: rest =>
      if key = name then
        (name, entry) :: rest
      else
        (key, previous) :: set rest name entry

def erase (table : Table α) (name : Text) : Table α :=
  table.filter fun (key, _) => key != name

def names (table : Table α) : List Text :=
  table.map Prod.fst

@[simp] theorem get?_set_self (table : Table α) (name : Text) (entry : α) :
    (table.set name entry).get? name = some entry := by
  induction table with
  | nil => simp [set, get?]
  | cons head rest induction =>
      obtain ⟨key, previous⟩ := head
      by_cases same : key = name
      · simp [set, get?, same]
      · simp [set, get?, same, induction]

theorem get?_set_of_ne
    (table : Table α) {name other : Text} (entry : α)
    (different : other ≠ name) :
    (table.set name entry).get? other = table.get? other := by
  induction table with
  | nil => simp [set, get?, Ne.symm different]
  | cons head rest induction =>
      obtain ⟨key, previous⟩ := head
      by_cases same : key = name
      · subst same
        simp [set, get?, Ne.symm different]
      · by_cases found : key = other
        · subst found
          simp [set, get?, same]
        · simp [set, get?, same, found, induction]

/-- A definition changes what one name means and nothing else. -/
theorem get?_set (table : Table α) (name other : Text) (entry : α) :
    (table.set name entry).get? other = if other =
      name then some entry else table.get? other := by
  by_cases same : other = name
  · subst same
    simp
  · simp [same, get?_set_of_ne table entry same]

/-- A forgotten name means nothing, and every other name what it meant. -/
theorem get?_erase (table : Table α) (name other : Text) :
    (table.erase name).get? other = if other =
      name then none else table.get? other := by
  induction table with
  | nil => simp [erase, get?]
  | cons head rest induction =>
      obtain ⟨key, entry⟩ := head
      simp only [erase] at induction
      by_cases forgotten : key = name
      · subst forgotten
        by_cases same : other = key
        · subst same
          simpa [erase] using induction
        · simp [erase, get?, induction, same, Ne.symm same]
      · by_cases found : key = other
        · subst found
          simp [erase, get?, forgotten]
        · simp [erase, get?, forgotten, found, induction]

theorem mem_of_get?
    {table : Table α} {name : Text} {entry : α}
    (found : table.get? name = some entry) :
    (name, entry) ∈ table := by
  induction table with
  | nil => cases found
  | cons head rest inductionHypothesis =>
      obtain ⟨key, first⟩ := head
      rw [get?] at found
      split at found
      · next same =>
          cases found
          rw [same]
          exact List.mem_cons_self
      · exact List.mem_cons_of_mem _ (inductionHypothesis found)

theorem mem_of_mem_set
    {table : Table α} {name : Text} {entry : α} {pair : Text × α}
    (member : pair ∈ table.set name entry) :
    pair = (name, entry) ∨ pair ∈ table := by
  induction table with
  | nil => exact .inl (List.mem_singleton.mp member)
  | cons head rest inductionHypothesis =>
      obtain ⟨key, first⟩ := head
      rw [set] at member
      split at member
      · rcases List.mem_cons.mp member with new | later
        · exact .inl new
        · exact .inr (List.mem_cons_of_mem _ later)
      · rcases List.mem_cons.mp member with old | later
        · rw [old]
          exact .inr List.mem_cons_self
        · rcases inductionHypothesis later with new | old
          · exact .inl new
          · exact .inr (List.mem_cons_of_mem _ old)

end Table
end LineScript
