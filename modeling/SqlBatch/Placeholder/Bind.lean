import SqlBatch.Script.Statement
import SqlBatch.Value.Basic

/-!
# Binding values to statements

A batch comes with its values in one of two forms. Grouped values name the values of each statement.
Flat values are one list that is cut by the numbers of placeholders, so that each statement gets the
values after those of the statements before it.
-/

namespace SqlBatch

/-- The values of a batch, as its caller gives them. -/
inductive BindValues where
  /-- No statement has values. -/
  | none
  /-- One list of values for each statement, in order. -/
  | grouped (groups : List (List Value))
  /-- One list of values for all statements together. -/
  | flat (values : List Value)
  deriving BEq, Inhabited

/-- Whether the values have yet to be cut into groups. -/
def BindValues.isFlat : BindValues → Bool
  | flat _ => true
  | none | grouped _ => false

/-- Why values cannot be bound to the statements of a batch. -/
inductive BindError where
  /-- Flat values meet a statement of which the number of placeholders is not known. -/
  | ambiguous (statement : Nat)
  /-- The number of flat values is not the number of placeholders. -/
  | valueCount (expected actual : Nat)
  /-- The numbers of placeholders are not as many as the statements. -/
  | placeholderCounts (statements counts : Nat)
  /-- The placeholders of all statements together are too many to be counted in 64 bits. This is the
  error of a build in which sums are checked; without the checks the sum would start again at zero,
  and be compared with the number of values. -/
  | uncountable
  deriving DecidableEq, Repr

def BindError.message : BindError → String
  | ambiguous statement =>
    s!"flat bind values need placeholder counts, but statement {statement} has none"
  | valueCount expected actual => s!"expected {expected} bind values, got {actual}"
  | placeholderCounts statements counts =>
    s!"{counts} placeholder counts supplied for {statements} statements"
  | uncountable => "attempt to add with overflow"

/-- One group for each statement: the groups given for the first ones, and empty groups for the
others. -/
def padGroups : List Statement → List (List Value) → List (List Value)
  | [], _ => []
  | _ :: ss, [] => [] :: padGroups ss []
  | _ :: ss, g :: gs => g :: padGroups ss gs

/-- Cuts a list into consecutive groups of the given sizes. -/
def cutGroups : List Nat → List Value → List (List Value)
  | [], _ => []
  | n :: ns, values => values.take n :: cutGroups ns (values.drop n)

/-- The numbers of placeholders of statements, the first of which has the given index. The first
statement without one is an error. -/
def placeholderCountsFrom : Nat → List Statement → Except BindError (List Nat)
  | _, [] => .ok []
  | index, s :: ss =>
    match s.placeholderCount with
    | some n => (placeholderCountsFrom (index + 1) ss).map (n :: ·)
    | none => .error (.ambiguous index)

/-- The values of each statement, in a build in which sums are checked. -/
def BindValues.groupsFor (statements : List Statement) :
    BindValues → Except BindError (List (List Value))
  | .none => .ok (padGroups statements [])
  | .grouped groups => .ok (padGroups statements groups)
  | .flat values => do
    let counts ← placeholderCountsFrom 0 statements
    -- The zero is given, so that the sum does not depend on which others are known.
    let needed := @List.sum Nat _ ⟨0⟩ counts
    if UInt64.size ≤ needed then throw .uncountable
    else if needed = values.length then return cutGroups counts values
    else throw (.valueCount needed values.length)

theorem length_padGroups (statements : List Statement) (groups : List (List Value)) :
    (padGroups statements groups).length = statements.length := by
  fun_induction padGroups statements groups <;> simp_all

theorem length_cutGroups (counts : List Nat) (values : List Value) :
    (cutGroups counts values).length = counts.length := by
  fun_induction cutGroups counts values <;> simp_all

theorem flatten_cutGroups {counts : List Nat} {values : List Value}
    (h : values.length ≤ @List.sum Nat _ ⟨0⟩ counts) :
    (cutGroups counts values).flatten = values := by
  induction counts generalizing values with
  | nil =>
    have : values = [] := List.eq_nil_of_length_eq_zero (Nat.le_zero.1 h)
    simp [cutGroups, this]
  | cons n ns ih =>
    have : (values.drop n).length ≤ @List.sum Nat _ ⟨0⟩ ns := by
      rw [List.sum_cons] at h
      rw [List.length_drop]
      exact Nat.sub_le_iff_le_add'.2 h
    simp [cutGroups, ih this]

end SqlBatch
