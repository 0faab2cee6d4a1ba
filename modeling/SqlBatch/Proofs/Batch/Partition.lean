import Mathlib.Algebra.GroupWithZero.Nat
import SqlBatch.Proofs.Batch.Unfit

/-!
# The groups of a batch

Whatever the values of a batch look like, there is one group for each statement. Groups that are
given stay where they are. Flat values are cut at the sums of the numbers of placeholders: the group
of a statement begins where the placeholders of the statements before it end. Nothing is lost
between two groups, and no value is in both.
-/

namespace SqlBatch

/-! ### Groups at their places -/

private theorem padGroups_nil (statements : List Statement) :
    padGroups statements [] = List.replicate statements.length [] := by
  induction statements with
  | nil => rfl
  | cons s statements ih => rw [padGroups, ih, List.length_cons, List.replicate_succ]

private theorem getElem?_padGroups {statements : List Statement} (given : List (List Value))
    {i : Nat} (hi : i < statements.length) :
    (padGroups statements given)[i]? = some (given[i]?.getD []) := by
  induction statements generalizing given i with
  | nil => exact absurd hi (Nat.not_lt_zero i)
  | cons s statements ih =>
      -- The recursion runs over both lists, and the groups may be used up first.
      cases i with
      | zero => cases given <;> rfl
      | succ i =>
          have hi : i < statements.length := Nat.lt_of_succ_lt_succ hi
          cases given with
          | nil => exact ih [] hi
          | cons g given => exact ih given hi

private theorem getElem?_cutGroups {counts : List Nat} (values : List Value) {i : Nat}
    (hi : i < counts.length) : (cutGroups counts values)[i]? =
      some (values.extract (counts.take i).sum (counts.take (i + 1)).sum) := by
  induction counts generalizing values i with
  | nil => exact absurd hi (Nat.not_lt_zero i)
  | cons n counts ih =>
      rw [cutGroups]
      cases i with
      | zero => simp
      | succ i =>
          have hgroup := ih (values.drop n) (Nat.lt_of_succ_lt_succ hi)
          have hsize (k : Nat) : ((n :: counts).take (k + 1)).sum = n + (counts.take k).sum := by
            rw [List.take_succ_cons, List.sum_cons]
          rw [List.getElem?_cons_succ, hgroup, hsize, hsize, List.extract_eq_take_drop,
            List.extract_eq_take_drop, List.drop_drop, Nat.add_sub_add_left]

namespace Batch

open BindValues (groupsFor)

variable {statements : List Statement}

theorem length_of_groupsFor {binds : BindValues} {groups : List (List Value)}
    (h : groupsFor statements binds = .ok groups) : groups.length = statements.length := by
  cases binds with
  | none | grouped given =>
      cases h
      exact length_padGroups statements _
  | flat values =>
      rcases forall_or_firstAt (fun s => s.placeholderCount.isSome) statements with
        hcounted | ⟨before, s, after, rfl, hcounted, huncounted⟩
      · rw [groupsFor_flat hcounted] at h
        split at h
        · cases h
        · split at h
          · cases h
            rw [length_cutGroups, List.length_map]
          · cases h
      · rw [Option.not_isSome_iff_eq_none] at huncounted
        rw [groupsFor_flat_of_uncounted hcounted huncounted] at h
        cases h

/-- Where a statement is not counted, the first such statement is the error. -/
theorem exists_groupsFor_eq_ambiguous (h : ∃ s ∈ statements, s.placeholderCount = none)
    (values : List Value) : ∃ i s, statements[i]? = some s ∧ s.placeholderCount = none ∧
      (∀ t ∈ statements.take i, t.placeholderCount.isSome) ∧
      groupsFor statements (.flat values) = .error (.ambiguous i) := by
  rcases forall_or_firstAt (fun s => s.placeholderCount.isSome) statements with
    hcounted | ⟨before, s, after, rfl, hcounted, huncounted⟩
  · obtain ⟨s, hmem, huncounted⟩ := h
    have hsome := hcounted s hmem
    rw [huncounted] at hsome
    exact absurd hsome Bool.false_ne_true
  · rw [Option.not_isSome_iff_eq_none] at huncounted
    refine ⟨before.length, s, ?_, huncounted, ?_, ?_⟩
    · rw [List.getElem?_append_right (Nat.le_refl _), Nat.sub_self]
      rfl
    · rw [List.take_left]
      exact hcounted
    · exact groupsFor_flat_of_uncounted hcounted huncounted values

/-- **Binding partitions the values.** There are as many groups as statements, whatever the values
look like. Without values all groups are empty, and groups that are given go to the statements in
their places. Flat values need every statement to be counted, and this is looked at before the
values are: then the counts have to add up to the number of values, and each statement gets the
values between the sums of the counts before and after it. -/
theorem groupsFor_partitions (statements : List Statement) :
    let counts := statements.map fun s => s.placeholderCount.getD 0
    (∀ binds groups, groupsFor statements binds = .ok groups →
      groups.length = statements.length) ∧
    groupsFor statements .none = .ok (List.replicate statements.length []) ∧
    (∀ given, ∃ groups, groupsFor statements (.grouped given) = .ok groups ∧
      ∀ i < statements.length, groups[i]? = some (given[i]?.getD [])) ∧
    ∀ values,
      ((∃ s ∈ statements, s.placeholderCount = none) →
        ∃ i s, statements[i]? = some s ∧ s.placeholderCount = none ∧
          (∀ t ∈ statements.take i, t.placeholderCount.isSome) ∧
          groupsFor statements (.flat values) = .error (.ambiguous i)) ∧
      ((∀ s ∈ statements, s.placeholderCount.isSome) → counts.sum < 2 ^ 64 →
        (counts.sum ≠ values.length →
          groupsFor statements (.flat values) = .error (.valueCount counts.sum values.length)) ∧
        (counts.sum = values.length →
          ∃ groups, groupsFor statements (.flat values) = .ok groups ∧ groups.flatten = values ∧
            ∀ i < statements.length, groups[i]? =
              some (values.extract (counts.take i).sum (counts.take (i + 1)).sum))) := by
  intro counts
  refine ⟨fun binds groups => length_of_groupsFor, ?_, fun given => ?_, fun values => ⟨?_, ?_⟩⟩
  · rw [← padGroups_nil]
    rfl
  · exact ⟨padGroups statements given, rfl, fun i => getElem?_padGroups given⟩
  · intro huncounted
    exact exists_groupsFor_eq_ambiguous huncounted values
  · intro hcounted hcountable
    have hsum : valuesNeeded statements = counts.sum := rfl
    have hle : ¬UInt64.size ≤ counts.sum := Nat.not_le_of_lt hcountable
    have hgroups := groupsFor_flat hcounted values
    rw [hsum, if_neg hle] at hgroups
    constructor
    · intro huneven
      rw [hgroups, if_neg huneven]
    · intro heven
      rw [if_pos heven] at hgroups
      refine ⟨cutGroups counts values, hgroups, ?_, fun i hi => ?_⟩
      · apply flatten_cutGroups
        omega
      · apply getElem?_cutGroups
        rw [List.length_map]
        exact hi

/-- Statements with none, two, none and one placeholder take three values. Where the third is not
counted, it does not matter that values are missing. -/
theorem groupsFor_partitions_four :
    let counted (count : Option Nat) : Statement := { text := "SELECT", placeholderCount := count }
    let values : List Value := [.null, .bool true, .bool false]
    let even := [some 0, some 2, some 0, some 1].map counted
    let uneven := [some 0, some 2, none, some 1].map counted
    (∃ groups, groupsFor even (.flat values) = .ok groups ∧ groups.length = 4 ∧
      groups.flatten = values ∧ groups[1]? = some [.null, .bool true] ∧ groups[2]? = some []) ∧
    groupsFor even (.flat [.null]) = .error (.valueCount 3 1) ∧
    (∃ s ∈ uneven, s.placeholderCount = none) ∧
    groupsFor uneven (.flat [.null]) = .error (.ambiguous 2) := by
  intro counted values even uneven
  have hcounted : ∀ s ∈ even, s.placeholderCount.isSome := by decide
  have huncounted : ∃ s ∈ uneven, s.placeholderCount = none := by decide
  obtain ⟨hlength, -, -, hflat⟩ := groupsFor_partitions even
  obtain ⟨groups, hgroups, hflatten, hcut⟩ :=
    ((hflat values).2 hcounted (by decide)).2 (by decide)
  refine ⟨⟨groups, hgroups, hlength _ _ hgroups, hflatten, ?_, ?_⟩, ?_, huncounted, ?_⟩
  · exact hcut 1 (by decide)
  · exact hcut 2 (by decide)
  · exact ((hflat [.null]).2 hcounted (by decide)).1 (by decide)
  · obtain ⟨i, s, hs, hnone, hbefore, hambiguous⟩ :=
      ((groupsFor_partitions uneven).2.2.2 [.null]).1 huncounted
    match i with
    | 0 | 1 =>
        cases hs
        cases hnone
    | 2 => exact hambiguous
    | i + 3 =>
        have hthird := hbefore (counted none) (.tail _ (.tail _ (.head _)))
        cases hthird

end Batch

end SqlBatch
