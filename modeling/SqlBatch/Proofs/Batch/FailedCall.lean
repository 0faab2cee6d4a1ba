import SqlBatch.Batch.Execute
import SqlBatch.Proofs.Embedded.Client

/-!
# The call behind a failure

Where a batch ends with a statement that failed, its failure tells of a single call: that of the
statement, on the connection as the calls before it have left it. These are the calls that open a
transaction, if the batch has one of its own, and the statements that come before. What is said of
the failure is read off the connection as soon as that call is back, before anything is undone.
-/

namespace SqlBatch

namespace Batch

open Connection

variable {σ : Type} [Connection σ]

def failure? : Reply BatchError BatchResult → Option StatementFailure
  | .ok result => result.failure
  | .failed e => e.failure?
  | .interrupted _ => none

/-- The calls that a batch makes before its statements. -/
def opening : Bool → List Call
  | true => [.setAutoCommit transactionSettings.autoCommit,
      .setStrictError transactionSettings.strictError, .begin]
  | false => []

def statementCalls (attributes : Attributes) (statements : List BoundStatement) : List Call :=
  statements.map fun (statement, values) => .execute statement.text attributes values

/-- A failure tells of the call of one of the statements, behind the calls of those before it. The
first of the statements has the given index. -/
inductive FailedCall (attributes : Attributes) (index : Nat) (s : σ) :
    List BoundStatement → StatementFailure → Prop
  | mk {done : List BoundStatement} {statement : Statement} {values : List Value}
      {e : ConnectionError} {after : σ} (rest : List BoundStatement)
      (failed : Connection.execute statement.text attributes values
        (Call.performAll (statementCalls attributes done) s) = (.failed e, after)) :
      FailedCall attributes index s (done ++ (statement, values) :: rest)
        (failureOf (index + done.length) statement.text e after)

variable {attributes : Attributes} {statements : List BoundStatement} {failure : StatementFailure}
  {s : σ}

theorem FailedCall.cons {index : Nat} {statement : Statement} {values : List Value}
    (h : FailedCall attributes (index + 1)
      (Connection.execute statement.text attributes values s).2 statements failure) :
    FailedCall attributes index s ((statement, values) :: statements) failure := by
  obtain @⟨done, failing, bound, e, after, rest, hfailed⟩ := h
  have hindex : index + 1 + done.length = index + ((statement, values) :: done).length := by
    rw [List.length_cons]
    omega
  rw [hindex, ← List.cons_append]
  exact .mk rest hfailed

private theorem Run.eq_failed_of_after {outcome : StatementOutcome} {others : Run}
    {outcomes : List StatementOutcome} (h : others.after outcome = .failed outcomes failure) :
    ∃ outcomes, others = .failed outcomes failure := by
  cases others with
  | finished | interrupted => cases h
  | failed outcomes failure =>
      cases h
      exact ⟨outcomes, rfl⟩

theorem failedCall_of_run {index : Nat} {outcomes : List StatementOutcome}
    (h : (run attributes index statements s).1 = .failed outcomes failure) :
    FailedCall attributes index s statements failure := by
  induction statements generalizing index s outcomes with
  | nil => cases h
  | cons statement rest ih =>
      obtain ⟨statement, values⟩ := statement
      rcases hexecute : Connection.execute statement.text attributes values s with
        ⟨result | e | i, s'⟩ <;>
        simp only [run, hexecute] at h
      · obtain ⟨outcomes, hrest⟩ := Run.eq_failed_of_after h
        refine .cons ?_
        rw [hexecute]
        exact ih hrest
      · cases h
        show FailedCall attributes index s ([] ++ (statement, values) :: rest) _
        exact .mk rest hexecute
      · cases h

private theorem failedCall_of_inTransaction
    (h : failure? (inTransaction attributes statements s).1.1 = some failure) :
    FailedCall attributes 0 (Call.begin.perform s).2 statements failure := by
  change FailedCall attributes 0 (begin s).2 statements failure
  rw [inTransaction] at h
  rcases hbegin : begin s with ⟨⟨⟩ | e | i, s'⟩ <;> rw [hbegin] at h <;> dsimp only at h
  · rcases hrun : run attributes 0 statements s' with ⟨outcomes | ⟨outcomes, told⟩ | i, s''⟩ <;>
      rw [hrun] at h <;> dsimp only at h
    · rcases hcommit : commit s'' with ⟨⟨⟩ | e | i, t⟩ <;> rw [hcommit] at h <;> dsimp only at h
      · cases h
      · rcases hrollback : rollback t with ⟨⟨⟩ | e | i, u⟩ <;> rw [hrollback] at h <;> cases h
      · cases h
    · have hcall : FailedCall attributes 0 s' statements told := failedCall_of_run (by rw [hrun])
      rcases hrollback : rollback s'' with ⟨⟨⟩ | e | i, t⟩ <;> rw [hrollback] at h <;> cases h <;>
        exact hcall
    · cases h
  · cases h
  · cases h

private theorem failedCall_of_executeTransactional
    (h : failure? (executeTransactional attributes statements s).1 = some failure) :
    FailedCall attributes 0 (Call.performAll (opening true) s) statements failure := by
  rw [executeTransactional, SettingsGuard.during, SettingsGuard.apply, applySettings] at h
  change FailedCall attributes 0 (Call.begin.perform (setStrictError transactionSettings.strictError
    (setAutoCommit transactionSettings.autoCommit s).2)).2 statements failure
  rcases hset : setAutoCommit transactionSettings.autoCommit s with ⟨e | ⟨⟩, s'⟩ <;>
    rw [hset] at h
  · cases h
  · exact failedCall_of_inTransaction h

private theorem failedCall_of_executeSequential
    (h : failure? (executeSequential attributes statements s).1 = some failure) :
    FailedCall attributes 0 s statements failure := by
  rw [executeSequential] at h
  rcases hrun : run attributes 0 statements s with ⟨outcomes | ⟨outcomes, told⟩ | i, s'⟩ <;>
    rw [hrun] at h <;> dsimp only at h
  · cases h
  · have hcall : FailedCall attributes 0 s statements told := failedCall_of_run (by rw [hrun])
    split at h <;> cases h <;> exact hcall
  · cases h

/-- **A batch fails with the failure of one of its calls**, be it in a transaction of its own or not.
-/
theorem failedCall_of_execute {options : BatchOptions} {input : BatchInput} {binds : BindValues}
    (h : failure? (Batch.execute options input attributes binds s).1 = some failure) :
    ∃ statements, input.bound options.splitter binds = .ok statements ∧ FailedCall attributes 0
      (Call.performAll (opening options.rollback) s) statements failure := by
  rw [Batch.execute] at h
  split at h
  · rename_i e hbound
    cases e with
    | split e => cases h
    | bind e => cases e <;> cases h
  · cases h
  · rename_i statements hne hbound
    refine ⟨statements, hbound, ?_⟩
    cases hrollback : options.rollback with
    | true =>
        rw [hrollback, if_pos rfl] at h
        exact failedCall_of_executeTransactional h
    | false =>
        rw [hrollback, if_neg Bool.false_ne_true] at h
        exact failedCall_of_executeSequential h

end Batch

end SqlBatch
