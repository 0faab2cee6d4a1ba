/-!
# Dictionaries

Values under names, in the order of the names by code point.
-/

namespace SqlBatch

/-- Values under names. -/
abbrev Dictionary (α : Type) := List (String × α)

namespace Dictionary

variable {α : Type}

/-- Puts a value under a name, in place of the value that is there. -/
def insert (name : String) (value : α) : Dictionary α → Dictionary α
  | [] => [(name, value)]
  | (n, v) :: entries =>
    if name < n then (name, value) :: (n, v) :: entries
    else if name = n then (name, value) :: entries
    else (n, v) :: insert name value entries

/-- The dictionary with the given entries; of two of one name the later one stays. -/
def ofList (entries : List (String × α)) : Dictionary α :=
  entries.foldl (fun d (name, value) => insert name value d) []

theorem lookup_cons (name other : String) (value : α) (d : Dictionary α) :
    List.lookup other ((name, value) :: d) =
      if other = name then some value else d.lookup other := by
  by_cases h : other = name
  · simp [h]
  · rw [List.lookup_cons, if_neg h, beq_false_of_ne h]

theorem lookup_insert (name other : String) (value : α) (d : Dictionary α) :
    (insert name value d).lookup other = if other = name then some value else d.lookup other := by
  induction d with
  | nil => exact lookup_cons name other value []
  | cons entry d ih =>
    obtain ⟨n, v⟩ := entry
    unfold insert
    split
    · exact lookup_cons name other value _
    · split
      · next heq =>
        rw [lookup_cons, lookup_cons, ← heq]
        split <;> rfl
      · next hne =>
        rw [lookup_cons, lookup_cons, ih]
        split
        · next h => simp [h, Ne.symm hne]
        · rfl

end Dictionary

end SqlBatch
