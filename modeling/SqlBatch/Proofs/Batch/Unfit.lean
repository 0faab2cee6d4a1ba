import SqlBatch.Proofs.Batch.Sent
import SqlBatch.Proofs.Failing

/-!
# Batches that cannot be run

Nothing reaches the connection before it is known that the whole batch can be run: that its script
can be split, that the placeholders of each statement can be told, that there are as many counts as
statements, and as many flat values as placeholders. What is wrong with a batch may be as far back as
its last statement. `Unfit` says what it is, and a batch gets no values exactly if it is unfit.
-/

namespace SqlBatch

/-! ### The first statement with an error -/

namespace Script

variable {options : SplitOptions}

theorem withPlaceholdersFrom_eq_error_iff {index : Nat} {statements : List Statement}
    {e : SplitError} : withPlaceholdersFrom options index statements = .error e ↔
      FirstAt (fun s => ∃ found, Placeholders.extract options s.text = .ok found)
        (fun n s => ∃ e', Placeholders.extract options s.text = .error e' ∧
          e = e'.atStatement (index + n)) statements := by
  induction statements generalizing index with
  | nil => simp [withPlaceholdersFrom, not_firstAt_nil]
  | cons s ss ih =>
      rw [firstAt_cons, withPlaceholdersFrom]
      cases hextract : Placeholders.extract options s.text with
      | error e' => simp [@eq_comm _ e]
      | ok found =>
          have hindex (n : Nat) : index + 1 + n = index + (n + 1) := by omega
          have hrest := @ih (index + 1)
          simp only [hindex] at hrest
          rw [← hrest]
          cases withPlaceholdersFrom options (index + 1) ss <;>
            simp [bind, Except.bind, pure, Except.pure]

theorem splitWithPlaceholders_eq_error_iff {script : String} {e : SplitError} :
    splitWithPlaceholders options script = .error e ↔
      splitStatements options script = .error e ∨
        ∃ statements, splitStatements options script = .ok statements ∧
          withPlaceholdersFrom options 0 statements = .error e := by
  rw [splitWithPlaceholders]
  cases splitStatements options script <;> simp [bind, Except.bind]

end Script

private theorem placeholderCountsFrom_eq_error_iff {index : Nat} {statements : List Statement}
    {e : BindError} : placeholderCountsFrom index statements = .error e ↔
      FirstAt (fun s => s.placeholderCount.isSome)
        (fun n s => s.placeholderCount = none ∧ e = .ambiguous (index + n)) statements := by
  induction statements generalizing index with
  | nil => simp [placeholderCountsFrom, not_firstAt_nil]
  | cons s ss ih =>
      rw [firstAt_cons, placeholderCountsFrom]
      cases hcount : s.placeholderCount with
      | none => simp [@eq_comm _ e]
      | some n =>
          have hindex (n : Nat) : index + 1 + n = index + (n + 1) := by omega
          have hrest := @ih (index + 1)
          simp only [hindex] at hrest
          dsimp only
          rw [← hrest]
          cases placeholderCountsFrom (index + 1) ss <;> simp [Except.map]

namespace Batch

open Connection

/-! ### What keeps a batch from being run -/

theorem groupsFor_flat_of_uncounted {before after : List Statement} {s : Statement}
    (hcounted : ∀ t ∈ before, t.placeholderCount.isSome) (huncounted : s.placeholderCount = none)
    (given : List Value) : BindValues.groupsFor (before ++ s :: after) (.flat given) =
      .error (.ambiguous before.length) := by
  have hcounts : placeholderCountsFrom 0 (before ++ s :: after) =
      .error (.ambiguous before.length) :=
    placeholderCountsFrom_eq_error_iff.mpr
      ⟨before, s, after, rfl, hcounted, huncounted, by rw [Nat.zero_add]⟩
  rw [BindValues.groupsFor, hcounts]
  rfl

/-- What is wrong with a batch that cannot be run. -/
inductive Unfit (options : SplitOptions) : BatchInput → BindValues → InputError → Prop
  /-- The script cannot be split. -/
  | script {text : String} {binds : BindValues} {e : SplitError}
      (unsplit : Script.splitStatements options text = .error e) :
      Unfit options (.script text) binds (.split e)
  /-- The placeholders of a statement cannot be told, and those of the statements before it can. -/
  | placeholders {text : String} {given : List Value} {before after : List Statement}
      {s : Statement} {e : SplitError}
      (split : Script.splitStatements options text = .ok (before ++ s :: after))
      (told : ∀ t ∈ before, ∃ found, Placeholders.extract options t.text = .ok found)
      (untold : Placeholders.extract options s.text = .error e) :
      Unfit options (.script text) (.flat given) (.split (e.atStatement before.length))
  /-- The counts are not as many as the statements. -/
  | counts {texts : List String} {counts : List Nat} {binds : BindValues}
      (uneven : texts.length ≠ counts.length) :
      Unfit options (.counted texts counts) binds
        (.bind (.placeholderCounts texts.length counts.length))
  /-- There are flat values, and a statement whose placeholders are not counted. -/
  | ambiguous {input : BatchInput} {given : List Value} {before after : List Statement}
      {s : Statement} (resolved : input.resolve options (.flat given) = .ok (before ++ s :: after))
      (counted : ∀ t ∈ before, t.placeholderCount.isSome) (uncounted : s.placeholderCount = none) :
      Unfit options input (.flat given) (.bind (.ambiguous before.length))
  /-- The flat values are not as many as the statements need. -/
  | valueCount {input : BatchInput} {given : List Value} {statements : List Statement}
      (resolved : input.resolve options (.flat given) = .ok statements)
      (counted : ∀ s ∈ statements, s.placeholderCount.isSome)
      (countable : valuesNeeded statements < UInt64.size)
      (uneven : valuesNeeded statements ≠ given.length) :
      Unfit options input (.flat given)
        (.bind (.valueCount (valuesNeeded statements) given.length))
  /-- There are flat values, and the statements need too many to be counted in 64 bits. -/
  | uncountable {input : BatchInput} {given : List Value} {statements : List Statement}
      (resolved : input.resolve options (.flat given) = .ok statements)
      (counted : ∀ s ∈ statements, s.placeholderCount.isSome)
      (uncountable : UInt64.size ≤ valuesNeeded statements) :
      Unfit options input (.flat given) (.bind .uncountable)

variable {options : SplitOptions} {input : BatchInput} {binds : BindValues}

theorem unfit_of_resolve {e : InputError} (h : input.resolve options binds = .error e) :
    Unfit options input binds e := by
  cases input with
  | texts texts => cases h
  | statements statements => cases h
  | counted texts counts =>
      rw [BatchInput.resolve] at h
      split at h
      · cases h
      · rename_i huneven
        cases h
        exact .counts huneven
  | script text =>
      have hstatements {e : SplitError} (h : Script.splitStatements options text = .error e) :
          Unfit options (.script text) binds (.split e) := .script h
      rw [BatchInput.resolve] at h
      cases binds with
      | none | grouped groups =>
          cases hsplit : Script.splitStatements options text <;> rw [hsplit] at h <;> cases h
          exact .script hsplit
      | flat given =>
          cases hsplit : Script.splitWithPlaceholders options text <;> rw [hsplit] at h <;> cases h
          rename_i e
          rcases Script.splitWithPlaceholders_eq_error_iff.mp hsplit with
            hunsplit | ⟨statements, hstatements, hfound⟩
          · exact .script hunsplit
          · obtain ⟨before, s, after, rfl, htold, e, huntold, rfl⟩ :=
              Script.withPlaceholdersFrom_eq_error_iff.mp hfound
            rw [Nat.zero_add]
            exact .placeholders hstatements htold huntold

theorem unfit_of_groupsFor {statements : List Statement} {e : BindError}
    (hresolved : input.resolve options binds = .ok statements)
    (h : binds.groupsFor statements = .error e) : Unfit options input binds (.bind e) := by
  cases binds with
  | none | grouped groups => cases h
  | flat given =>
      rcases forall_or_firstAt (fun s => s.placeholderCount.isSome) statements with
        hcounted | ⟨before, s, after, rfl, hcounted, huncounted⟩
      · rw [groupsFor_flat hcounted] at h
        split at h
        · rename_i huncountable
          cases h
          exact .uncountable hresolved hcounted huncountable
        · rename_i hcountable
          split at h
          · cases h
          · rename_i huneven
            cases h
            exact .valueCount hresolved hcounted (Nat.lt_of_not_le hcountable) huneven
      · rw [Option.not_isSome_iff_eq_none] at huncounted
        rw [groupsFor_flat_of_uncounted hcounted huncounted] at h
        cases h
        exact .ambiguous hresolved hcounted huncounted

/-- A batch gets no values exactly if it is unfit. -/
theorem bound_eq_error_iff {e : InputError} :
    input.bound options binds = .error e ↔ Unfit options input binds e := by
  constructor
  · intro h
    rw [bound_eq] at h
    cases hresolved : input.resolve options binds with
    | error e' =>
        rw [hresolved] at h
        cases h
        exact unfit_of_resolve hresolved
    | ok statements =>
        cases hgroups : binds.groupsFor statements with
        | error e' =>
            simp only [hresolved, hgroups] at h
            cases h
            exact unfit_of_groupsFor hresolved hgroups
        | ok groups =>
            simp only [hresolved, hgroups] at h
            cases h
  · intro h
    rw [bound_eq]
    cases h with
    | @script text binds e unsplit =>
        have hresolve : (BatchInput.script text).resolve options binds = .error (.split e) := by
          have hfound := Script.splitWithPlaceholders_eq_error_iff.mpr (.inl unsplit)
          rw [BatchInput.resolve, unsplit, hfound, ite_self]
          rfl
        rw [hresolve]
    | @placeholders text given before after s e split told untold =>
        have hfound : Script.splitWithPlaceholders options text =
            .error (e.atStatement before.length) := by
          refine Script.splitWithPlaceholders_eq_error_iff.mpr (.inr ⟨_, split, ?_⟩)
          exact Script.withPlaceholdersFrom_eq_error_iff.mpr
            ⟨before, s, after, rfl, told, e, untold, by rw [Nat.zero_add]⟩
        have hresolve : (BatchInput.script text).resolve options (.flat given) =
            .error (.split (e.atStatement before.length)) := by
          rw [BatchInput.resolve, BindValues.isFlat, if_pos rfl, hfound]
          rfl
        rw [hresolve]
    | counts uneven => rw [BatchInput.resolve, if_neg uneven]
    | ambiguous resolved counted uncounted =>
        simp only [resolved, groupsFor_flat_of_uncounted counted uncounted]
    | valueCount resolved counted countable uneven =>
        simp only [resolved, groupsFor_flat counted, if_neg (Nat.not_le_of_lt countable),
          if_neg uneven]
    | uncountable resolved counted uncountable =>
        simp only [resolved, groupsFor_flat counted, if_pos uncountable]

/-! ### Calls that come to nothing -/

section

variable {σ : Type} [Connection σ] {options : BatchOptions} (attributes : Attributes)

private theorem execute_of_unfit {e : InputError} (h : Unfit options.splitter input binds e)
    (s : σ) : execute options input attributes binds s = (refused e, s) := by
  rw [execute, bound_eq_error_iff.mpr h]

private theorem execute_of_resolve_nil (hresolved : input.resolve options.splitter binds = .ok [])
    (hbinds : ∀ given, binds = .flat given → given = []) (s : σ) :
    execute options input attributes binds s = (.ok { state := .completed }, s) := by
  have hgroups : binds.groupsFor [] = .ok [] := by
    cases binds with
    | none => rfl
    | grouped groups => rfl
    | flat given =>
        obtain rfl := hbinds given rfl
        rfl
  have hbound : input.bound options.splitter binds = .ok [] := by
    rw [bound_eq, hresolved]
    dsimp only
    rw [hgroups]
    rfl
  rw [execute, hbound]

private theorem unfit_of_resolve_nil {given : List Value}
    (hresolved : input.resolve options.splitter (.flat given) = .ok []) (hgiven : given ≠ []) :
    Unfit options.splitter input (.flat given) (.bind (.valueCount 0 given.length)) := by
  refine .valueCount hresolved (fun _ hmem => absurd hmem List.not_mem_nil) (by decide) ?_
  exact fun hlength => hgiven (List.eq_nil_of_length_eq_zero hlength.symm)

private theorem exists_bound_of_fit (h : ∀ e, ¬Unfit options.splitter input binds e) :
    ∃ statements, input.bound options.splitter binds = .ok statements := by
  cases hbound : input.bound options.splitter binds with
  | error e => exact absurd (bound_eq_error_iff.mp hbound) (h e)
  | ok statements => exact ⟨statements, rfl⟩

end

/-- **Nothing touches the connection before the whole batch is known to be good.** A batch that is
unfit, wherever it is so, fails with what is wrong with it, and a batch without statements is
completed; in neither case is there a call on the connection. Only placeholders that are too many to
be counted bring the call down instead. -/
theorem execute_unfit {σ : Type} [Connection σ] (options : BatchOptions) (input : BatchInput)
    (attributes : Attributes) (binds : BindValues) (r : Recorded σ) :
    (∀ e, Unfit options.splitter input binds (.split e) →
      execute options input attributes binds r = (.failed (.split e), r) ∧
      executeSucceeded options input attributes binds r = (.failed (.split e), r)) ∧
    (∀ e, Unfit options.splitter input binds (.bind e) → e ≠ .uncountable →
      execute options input attributes binds r = (.failed (.bind e), r) ∧
      executeSucceeded options input attributes binds r = (.failed (.bind e), r)) ∧
    (Unfit options.splitter input binds (.bind .uncountable) →
      execute options input attributes binds r = (.interrupted .overflow, r) ∧
      executeSucceeded options input attributes binds r = (.interrupted .overflow, r)) ∧
    (input.resolve options.splitter binds = .ok [] →
      (∀ given, binds = .flat given → given ≠ [] →
        Unfit options.splitter input binds (.bind (.valueCount 0 given.length))) ∧
      ((∀ given, binds = .flat given → given = []) →
        execute options input attributes binds r = (.ok { state := .completed }, r) ∧
        executeSucceeded options input attributes binds r = (.ok true, r))) ∧
    ((execute options input attributes binds r).2 ≠ r →
      (∀ e, ¬Unfit options.splitter input binds e) ∧
      ∃ first rest, input.bound options.splitter binds = .ok (first :: rest)) := by
  have hrefused {e : InputError} (h : Unfit options.splitter input binds e) :
      execute options input attributes binds r = (refused e, r) := execute_of_unfit attributes h r
  refine ⟨fun e h => ?_, fun e h hcountable => ?_, fun h => ?_, fun hresolved => ⟨?_, ?_⟩, ?_⟩
  · have hexecute := hrefused h
    refine ⟨hexecute, ?_⟩
    rw [executeSucceeded, hexecute]
    rfl
  · have hexecute : execute options input attributes binds r = (.failed (.bind e), r) := by
      rw [hrefused h, refused]
      exact hcountable
    refine ⟨hexecute, ?_⟩
    rw [executeSucceeded, hexecute]
    rfl
  · have hexecute := hrefused h
    refine ⟨hexecute, ?_⟩
    rw [executeSucceeded, hexecute]
    rfl
  · rintro given rfl hgiven
    exact unfit_of_resolve_nil hresolved hgiven
  · intro hbinds
    have hexecute := execute_of_resolve_nil attributes hresolved hbinds r
    refine ⟨hexecute, ?_⟩
    rw [executeSucceeded, hexecute]
    rfl
  · intro htouched
    have hfit : ∀ e, ¬Unfit options.splitter input binds e := by
      intro e h
      rw [hrefused h] at htouched
      exact htouched rfl
    obtain ⟨statements, hbound⟩ := exists_bound_of_fit hfit
    cases statements with
    | nil =>
        rw [execute, hbound] at htouched
        exact absurd rfl htouched
    | cons first rest => exact ⟨hfit, first, rest, hbound⟩

/-- The last statement of a script has placeholders of two styles. Without any statement, there are
still flat values. -/
theorem execute_unfit_last :
    let r : Recorded Scripted.State := ⟨{}, []⟩
    execute {} (.script "DELETE ?; SELECT ?, $1") {} (.flat [.null]) r =
      (.failed (.split (.mixedPlaceholders 1 .positional .numbered)), r) ∧
    execute {} (.script "-- nothing") {} (.flat [.null]) r = (.failed (.bind (.valueCount 0 1)), r) ∧
    executeSucceeded {} (.script "-- nothing") {} .none r = (.ok true, r) ∧
    ∃ first rest, (BatchInput.script "DELETE ?").bound {} (.flat [.null]) =
      .ok (first :: rest) := by
  intro r
  have hsplit : Script.splitStatements {} "DELETE ?; SELECT ?, $1" =
      .ok ([{ text := "DELETE ?", terminator := some ";" }] ++ [{ text := "SELECT ?, $1" }]) := rfl
  have hmixed : Unfit {} (.script "DELETE ?; SELECT ?, $1") (.flat [.null])
      (.split (.mixedPlaceholders 1 .positional .numbered)) := by
    refine .placeholders (e := .mixedPlaceholders 0 .positional .numbered) hsplit ?_ rfl
    exact List.forall_mem_singleton.mpr ⟨_, rfl⟩
  obtain ⟨hunsplit, -, -, -, -⟩ :=
    execute_unfit {} (.script "DELETE ?; SELECT ?, $1") {} (.flat [.null]) r
  obtain ⟨-, hunbound, -, hempty, -⟩ := execute_unfit {} (.script "-- nothing") {} (.flat [.null]) r
  obtain ⟨-, -, -, hnone, -⟩ := execute_unfit {} (.script "-- nothing") {} .none r
  obtain ⟨-, -, -, -, htouched⟩ := execute_unfit {} (.script "DELETE ?") {} (.flat [.null]) r
  refine ⟨(hunsplit _ hmixed).1, ?_, ?_, ?_⟩
  · exact (hunbound _ ((hempty rfl).1 _ rfl (by decide)) (by decide)).1
  · exact ((hnone rfl).2 fun given h => by cases h).2
  · exact (htouched fun h => absurd (congrArg (fun r => r.log.length) h) (by decide)).2

/-- Two counts that are too many together bring the call down, where the values are not as many as
the counts say. -/
theorem execute_unfit_uncountable :
    let r : Recorded Scripted.State := ⟨{}, []⟩
    let input : BatchInput := .counted ["SELECT ?", "SELECT ?"] [18446744073709551615, 1]
    Unfit {} input (.flat []) (.bind .uncountable) ∧
    18446744073709551615 + 1 ≠ ([] : List Value).length ∧
    execute {} input {} (.flat []) r = (.interrupted .overflow, r) ∧
    ∀ e, (execute {} input {} (.flat []) r).1 ≠ .failed e := by
  intro r input
  have hrefused : Unfit {} input (.flat []) (.bind .uncountable) := bound_eq_error_iff.mp rfl
  have hexecute : execute {} input {} (.flat []) r = (.interrupted .overflow, r) := rfl
  refine ⟨hrefused, by decide, hexecute, fun e h => ?_⟩
  rw [hexecute] at h
  cases h

end Batch

end SqlBatch
