import SqlBatch.Batch.Execute
import SqlBatch.Proofs.Connection.Recorded
import SqlBatch.Proofs.Connection.Scope

/-!
# What a batch calls and what it answers

The course of a batch is what its connection sees of it, beside the answer: a list of calls that
the statements fix up to what each call comes to. A batch gets through all its statements, or it
halts at the first of them that does not succeed. In a transaction there are a begin before the
statements and a commit or a rollback after them, and an abort where one of those leaves the
transaction open.

That a batch on a connection whose calls are noted keeps to a course is shown statement by
statement. The notes change nothing of what the batch does.
-/

namespace SqlBatch

open Connection

namespace Batch

/-! ### Statements that run -/

/-- What statements that all succeeded gave, each with the state of the connection after it. -/
structure Succeeded (σ : Type) (statements : List BoundStatement) where
  answers : List (StatementResult × σ)
  complete : answers.length = statements.length

namespace Succeeded

variable {σ : Type} {statements : List BoundStatement}

def log (all : Succeeded σ statements) (attributes : Attributes) : List (Entry σ) :=
  List.zipWith (fun (statement, values) (result, after) =>
    .execute statement.text attributes values (.ok result) after) statements all.answers

def outcomes (all : Succeeded σ statements) (index : Nat) : List StatementOutcome :=
  ((statements.zip all.answers).zipIdx index).map fun (((statement, _), result, _), i) =>
    ⟨i, statement.text, result⟩

def none : Succeeded σ [] := ⟨[], rfl⟩

def cons (statement : BoundStatement) (result : StatementResult) (after : σ)
    (all : Succeeded σ statements) : Succeeded σ (statement :: statements) :=
  ⟨(result, after) :: all.answers, congrArg (· + 1) all.complete⟩

end Succeeded

/-- Statements up to the first that does not succeed. -/
structure Halted (σ : Type) (statements : List BoundStatement) where
  done : List BoundStatement
  statement : Statement
  values : List Value
  rest : List BoundStatement
  statements_eq : statements = done ++ (statement, values) :: rest
  succeeded : Succeeded σ done
  /-- The state of the connection after the call that did not succeed. -/
  after : σ

namespace Halted

variable {σ : Type} {statements : List BoundStatement}

def log (halt : Halted σ statements) (attributes : Attributes)
    (reply : Reply ConnectionError StatementResult) : List (Entry σ) :=
  halt.succeeded.log attributes ++
    [.execute halt.statement.text attributes halt.values reply halt.after]

/-- The failure of the statement that failed; its index comes after those of the others. -/
def failure [Connection σ] (halt : Halted σ statements) (index : Nat) (e : ConnectionError) :
    StatementFailure :=
  failureOf (index + halt.done.length) halt.statement.text e halt.after

def atFirst (statement : Statement) (values : List Value) (rest : List BoundStatement)
    (after : σ) : Halted σ ((statement, values) :: rest) :=
  ⟨[], statement, values, rest, rfl, .none, after⟩

def cons (statement : BoundStatement) (result : StatementResult) (after : σ)
    (halt : Halted σ statements) : Halted σ (statement :: statements) :=
  { halt with
    done := statement :: halt.done
    statements_eq := congrArg (statement :: ·) halt.statements_eq
    succeeded := halt.succeeded.cons statement result after }

end Halted

variable {σ : Type} [Connection σ]

/-- What a run through statements calls, how it ends, and the state in which it leaves the
connection. -/
inductive Progress (attributes : Attributes) (index : Nat) (statements : List BoundStatement) :
    List (Entry σ) → Run → σ → Prop
  | finished (all : Succeeded σ statements) (after : σ) :
      Progress attributes index statements (all.log attributes) (.finished (all.outcomes index))
        after
  | failed (halt : Halted σ statements) (e : ConnectionError) :
      Progress attributes index statements (halt.log attributes (.failed e))
        (.failed (halt.succeeded.outcomes index) (halt.failure index e)) halt.after
  | interrupted (halt : Halted σ statements) (i : Interruption) :
      Progress attributes index statements (halt.log attributes (.interrupted i)) (.interrupted i)
        halt.after

theorem Progress.cons {attributes : Attributes} {index : Nat} {statements : List BoundStatement}
    {log : List (Entry σ)} {run : Run} {s : σ}
    (h : Progress attributes (index + 1) statements log run s) (statement : Statement)
    (values : List Value) (result : StatementResult) (after : σ) :
    Progress attributes index ((statement, values) :: statements)
      (.execute statement.text attributes values (.ok result) after :: log)
      (run.after ⟨index, statement.text, result⟩) s := by
  cases h with
  | finished all => exact .finished (all.cons (statement, values) result after) s
  | failed halt e =>
      have hfailure : halt.failure (index + 1) e =
          (halt.cons (statement, values) result after).failure index e := by
        simp only [Halted.failure, Halted.cons, List.length_cons, Nat.add_right_comm index 1,
          Nat.add_assoc]
      rw [hfailure]
      exact .failed (halt.cons (statement, values) result after) e
  | interrupted halt i => exact .interrupted (halt.cons (statement, values) result after) i

/-- A run through statements executes each in turn, up to the first that does not succeed. -/
theorem run_progress (attributes : Attributes) (statements : List BoundStatement) (index : Nat)
    (r : Recorded σ) :
    ∃ log, Progress attributes index statements log (run attributes index statements r.inner).1
        (run attributes index statements r.inner).2 ∧
      run attributes index statements r = ((run attributes index statements r.inner).1,
        ⟨(run attributes index statements r.inner).2, r.log ++ log⟩) := by
  induction statements generalizing index r with
  | nil => exact ⟨[], .finished .none r.inner, by rw [List.append_nil]; rfl⟩
  | cons statement rest ih =>
      obtain ⟨statement, values⟩ := statement
      rcases h : Connection.execute statement.text attributes values r.inner with
        ⟨result | e | i, s⟩ <;> simp only [run, h, r.execute_eq h]
      · obtain ⟨log, hprogress, hrun⟩ := ih (index + 1)
          ⟨s, r.log ++ [.execute statement.text attributes values (.ok result) s]⟩
        exact ⟨_, hprogress.cons statement values result s, by simp [hrun]⟩
      · exact ⟨_, .failed (.atFirst statement values rest s) e, rfl⟩
      · exact ⟨_, .interrupted (.atFirst statement values rest s) i, rfl⟩

/-! ### Transactions -/

/-- What a batch calls after all its statements succeeded, and what it then answers, in full and in
short. The error of a commit is the answer even if the rollback fails as well. -/
inductive Closing (outcomes : List StatementOutcome) :
    List (Entry σ) → Reply BatchError BatchResult → Reply BatchError Bool → Prop
  | committed : Closing outcomes [.commit (.ok ())]
      (.ok { outcomes, state := .committed }) (.ok true)
  | rolledBack (e : ConnectionError) :
      Closing outcomes [.commit (.failed e), .rollback (.ok ())]
        (.failed (.connection e)) (.failed (.connection e))
  | aborted (e e' : ConnectionError) (aborted : Except ConnectionError Unit) :
      Closing outcomes [.commit (.failed e), .rollback (.failed e'), .abort aborted]
        (.failed (.connection e)) (.failed (.connection e))
  | rollbackInterrupted (e : ConnectionError) (i : Interruption)
      (aborted : Except ConnectionError Unit) :
      Closing outcomes [.commit (.failed e), .rollback (.interrupted i), .abort aborted]
        (.interrupted i) (.interrupted i)
  | interrupted (i : Interruption) (aborted : Except ConnectionError Unit) :
      Closing outcomes [.commit (.interrupted i), .abort aborted] (.interrupted i) (.interrupted i)

/-- What a batch calls after a statement failed, and what it then answers. -/
inductive Undoing (failure : StatementFailure) :
    List (Entry σ) → Reply BatchError BatchResult → Reply BatchError Bool → Prop
  | rolledBack : Undoing failure [.rollback (.ok ())]
      (.ok { state := .rolledBack, failure := some failure }) (.ok false)
  | aborted (e : ConnectionError) (aborted : Except ConnectionError Unit) :
      Undoing failure [.rollback (.failed e), .abort aborted]
        (.failed (.rollback failure e)) (.ok false)
  | interrupted (i : Interruption) (aborted : Except ConnectionError Unit) :
      Undoing failure [.rollback (.interrupted i), .abort aborted] (.interrupted i) (.interrupted i)

inductive Transacted (attributes : Attributes) (statements : List BoundStatement) :
    List (Entry σ) → Reply BatchError BatchResult → Reply BatchError Bool → Prop
  | refused (e : ConnectionError) : Transacted attributes statements [.begin (.failed e)]
      (.failed (.connection e)) (.failed (.connection e))
  | beginInterrupted (i : Interruption) :
      Transacted attributes statements [.begin (.interrupted i)] (.interrupted i) (.interrupted i)
  | succeeded (all : Succeeded σ statements) {calls : List (Entry σ)}
      {reply : Reply BatchError BatchResult} {short : Reply BatchError Bool}
      (closing : Closing (all.outcomes 0) calls reply short) :
      Transacted attributes statements (.begin (.ok ()) :: (all.log attributes ++ calls)) reply
        short
  | failed (halt : Halted σ statements) (e : ConnectionError) {calls : List (Entry σ)}
      {reply : Reply BatchError BatchResult} {short : Reply BatchError Bool}
      (undoing : Undoing (halt.failure 0 e) calls reply short) :
      Transacted attributes statements
        (.begin (.ok ()) :: (halt.log attributes (.failed e) ++ calls)) reply short
  | interrupted (halt : Halted σ statements) (i : Interruption)
      (aborted : Except ConnectionError Unit) :
      Transacted attributes statements
        (.begin (.ok ()) :: (halt.log attributes (.interrupted i) ++ [.abort aborted]))
        (.interrupted i) (.interrupted i)

/-- The abort with which the release of a guard begins that knows of an open transaction. -/
def abortion : Bool → Except ConnectionError Unit → List (Entry σ)
  | true, aborted => [.abort aborted]
  | false, _ => []

omit [Connection σ] in
theorem exists_log_iff {α : Type} {P : List (Entry σ) → Prop} {before log : List (Entry σ)} {a : α}
    {s : σ} : (∃ log', P log' ∧
      (a, (⟨s, before ++ log⟩ : Recorded σ)) = (a, ⟨s, before ++ log'⟩)) ↔ P log := by
  simp

theorem inTransaction_course (attributes : Attributes) (statements : List BoundStatement)
    (r : Recorded σ) :
    ∃ short log,
      (∀ aborted, Transacted attributes statements
        (log ++ abortion (inTransaction attributes statements r.inner).1.2 aborted)
        (inTransaction attributes statements r.inner).1.1 short) ∧
      inTransaction attributes statements r = ((inTransaction attributes statements r.inner).1,
        ⟨(inTransaction attributes statements r.inner).2, r.log ++ log⟩) := by
  rcases hbegin : begin r.inner with ⟨⟨⟩ | e | i, s⟩ <;>
    simp only [inTransaction, hbegin, r.begin_eq hbegin]
  · obtain ⟨log, hprogress, hrun⟩ :=
      run_progress attributes statements 0 ⟨s, r.log ++ [.begin (.ok ())]⟩
    simp only at hprogress hrun
    rcases hran : run attributes 0 statements s with ⟨ran, s'⟩
    rw [hrun, hran]
    rw [hran] at hprogress
    cases hprogress with
    | finished all =>
        rcases hcommit : commit s' with ⟨⟨⟩ | e | i, t⟩ <;>
          simp only [hcommit, Recorded.commit_eq ⟨s', _⟩ hcommit]
        · simp only [exists_log_iff, abortion, List.append_assoc, List.cons_append,
            List.nil_append, List.append_nil]
          exact ⟨_, fun _ => .succeeded all .committed⟩
        · rcases hrollback : rollback t with ⟨⟨⟩ | e' | i, u⟩ <;>
            simp only [Recorded.rollback_eq ⟨t, _⟩ hrollback, exists_log_iff, abortion,
              List.append_assoc, List.cons_append, List.nil_append, List.append_nil]
          · exact ⟨_, fun _ => .succeeded all (.rolledBack e)⟩
          · exact ⟨_, fun aborted => .succeeded all (.aborted e e' aborted)⟩
          · exact ⟨_, fun aborted => .succeeded all (.rollbackInterrupted e i aborted)⟩
        · simp only [exists_log_iff, abortion, List.append_assoc, List.cons_append,
            List.nil_append]
          exact ⟨_, fun aborted => .succeeded all (.interrupted i aborted)⟩
    | failed halt e =>
        rcases hrollback : rollback halt.after with ⟨⟨⟩ | e' | i, t⟩ <;>
          simp only [hrollback, Recorded.rollback_eq ⟨halt.after, _⟩ hrollback, exists_log_iff,
            abortion,
            List.append_assoc, List.cons_append, List.nil_append, List.append_nil]
        · exact ⟨_, fun _ => .failed halt e .rolledBack⟩
        · exact ⟨_, fun aborted => .failed halt e (.aborted e' aborted)⟩
        · exact ⟨_, fun aborted => .failed halt e (.interrupted i aborted)⟩
    | interrupted halt i =>
        simp only [exists_log_iff, abortion, List.append_assoc, List.cons_append, List.nil_append]
        exact ⟨_, fun aborted => .interrupted halt i aborted⟩
  · exact ⟨_, [.begin (.failed e)], fun _ => .refused e, rfl⟩
  · exact ⟨_, [.begin (.interrupted i)], fun _ => .beginInterrupted i, rfl⟩

def settingsCalls (new : ConnectionSettings) : List (Entry σ) :=
  [.autoCommit new.autoCommit (.ok ()), .strictError new.strictError]

theorem applySettings_eq (new : ConnectionSettings) {r : Recorded σ}
    (hswitch : (setAutoCommit new.autoCommit r.inner).1 = .ok ()) :
    (applySettings new r.inner).1 = .ok () ∧ applySettings new r =
      (.ok (), ⟨(applySettings new r.inner).2, r.log ++ settingsCalls new⟩) := by
  rcases hset : setAutoCommit new.autoCommit r.inner with ⟨result, s⟩
  obtain rfl : result = .ok () := by rwa [hset] at hswitch
  refine ⟨by simp only [applySettings, hset], ?_⟩
  simp only [applySettings, hset, r.setAutoCommit_eq hset, Recorded.setStrictError_eq,
    List.append_assoc, settingsCalls, List.cons_append, List.nil_append]

private theorem release_eq (guard : SettingsGuard) {r : Recorded σ}
    (hswitch : (setAutoCommit guard.saved.autoCommit
      (if guard.transactionOpen then (abort r.inner).2 else r.inner)).1 = .ok ()) :
    guard.release r = ⟨guard.release r.inner, r.log ++
      (abortion guard.transactionOpen (abort r.inner).1 ++ settingsCalls guard.saved)⟩ := by
  rcases habort : abort r.inner with ⟨aborted, s⟩
  rw [habort] at hswitch
  cases hopen : guard.transactionOpen with
  | false =>
      rw [hopen, if_neg Bool.false_ne_true] at hswitch
      simp only [SettingsGuard.release, hopen, Bool.false_eq_true, if_false,
        (applySettings_eq guard.saved hswitch).2, abortion, List.nil_append]
  | true =>
      rw [hopen, if_pos rfl] at hswitch
      have hback := (applySettings_eq guard.saved (r := ⟨s, r.log ++ [.abort aborted]⟩) hswitch).2
      simp only [SettingsGuard.release, hopen, if_true, habort, r.abort_eq habort, hback, abortion,
        List.append_assoc]

theorem executeTransactional_course {attributes : Attributes} {statements : List BoundStatement}
    {r : Recorded σ} (hswitch : (setAutoCommit false r.inner).1 = .ok ())
    (hrestore : (setAutoCommit (autoCommit r.inner) (SettingsGuard.restoring transactionSettings
      (inTransaction attributes statements) r.inner)).1 = .ok ()) :
    ∃ short calls,
      Transacted attributes statements calls (executeTransactional attributes statements r.inner).1
        short ∧
      executeTransactional attributes statements r =
        ((executeTransactional attributes statements r.inner).1,
          ⟨(executeTransactional attributes statements r.inner).2,
            r.log ++ (settingsCalls transactionSettings ++ calls ++
              settingsCalls (settings r.inner))⟩) := by
  obtain ⟨hok, hset⟩ := applySettings_eq transactionSettings hswitch
  rcases hplain : applySettings transactionSettings r.inner with ⟨result, s⟩
  rw [hplain] at hok hset
  obtain rfl : result = .ok () := hok
  obtain ⟨short, calls, hcourse, hbody⟩ := inTransaction_course attributes statements
    ⟨s, r.log ++ settingsCalls transactionSettings⟩
  simp only at hcourse hbody
  rcases hinner : inTransaction attributes statements s with ⟨⟨reply, transactionOpen⟩, s'⟩
  rw [hinner] at hcourse hbody
  simp only [SettingsGuard.restoring, hplain, hinner] at hrestore
  refine ⟨short, calls ++ abortion transactionOpen (abort s').1, ?_, ?_⟩
  · simp only [executeTransactional, SettingsGuard.during, SettingsGuard.apply, hplain, hinner]
    exact hcourse (abort s').1
  · have hrelease := release_eq ⟨settings r.inner, transactionOpen⟩
      (r := ⟨s', r.log ++ settingsCalls transactionSettings ++ calls⟩) hrestore
    simp only [List.append_assoc] at hbody hrelease ⊢
    have hsaved : settings r = settings r.inner := rfl
    simp only [executeTransactional, SettingsGuard.during, SettingsGuard.apply, hplain, hset,
      hinner, hbody, hsaved, hrelease]

/-! ### Batches -/

inductive Sequential (attributes : Attributes) (statements : List BoundStatement) :
    List (Entry σ) → Reply BatchError BatchResult → Reply BatchError Bool → Prop
  | completed (all : Succeeded σ statements) :
      Sequential attributes statements (all.log attributes)
        (.ok { outcomes := all.outcomes 0, state := .completed }) (.ok true)
  | stopped (halt : Halted σ statements) (e : ConnectionError)
      (lenient : strictError halt.after = false) :
      Sequential attributes statements (halt.log attributes (.failed e))
        (.ok { outcomes := halt.succeeded.outcomes 0, state := .stopped,
               failure := some (halt.failure 0 e) }) (.ok false)
  | raised (halt : Halted σ statements) (e : ConnectionError)
      (strict : strictError halt.after = true) :
      Sequential attributes statements (halt.log attributes (.failed e))
        (.failed (.statement (halt.failure 0 e))) (.ok false)
  | interrupted (halt : Halted σ statements) (i : Interruption) :
      Sequential attributes statements (halt.log attributes (.interrupted i)) (.interrupted i)
        (.interrupted i)

theorem executeSequential_course (attributes : Attributes) (statements : List BoundStatement)
    (r : Recorded σ) :
    ∃ short log,
      Sequential attributes statements log (executeSequential attributes statements r.inner).1
        short ∧
      executeSequential attributes statements r =
        ((executeSequential attributes statements r.inner).1,
          ⟨(executeSequential attributes statements r.inner).2, r.log ++ log⟩) := by
  obtain ⟨log, hprogress, hrun⟩ := run_progress attributes statements 0 r
  rcases hran : run attributes 0 statements r.inner with ⟨ran, s⟩
  rw [hran] at hprogress hrun
  cases hprogress with
  | finished all =>
      simp only [executeSequential, hran, hrun]
      exact ⟨_, _, .completed all, rfl⟩
  | failed halt e =>
      have hasked (log : List (Entry σ)) :
          strictError (⟨halt.after, log⟩ : Recorded σ) = strictError halt.after := rfl
      simp only [executeSequential, hran, hrun, hasked]
      cases hstrict : strictError halt.after with
      | false => exact ⟨_, _, .stopped halt e hstrict, rfl⟩
      | true => exact ⟨_, _, .raised halt e hstrict, rfl⟩
  | interrupted halt i =>
      simp only [executeSequential, hran, hrun]
      exact ⟨_, _, .interrupted halt i, rfl⟩

/-- The course of a batch of statements on a connection with the given settings. -/
def Course (rollback : Bool) (saved : ConnectionSettings) (attributes : Attributes)
    (statements : List BoundStatement) (log : List (Entry σ)) (reply : Reply BatchError BatchResult)
    (short : Reply BatchError Bool) : Prop :=
  if rollback then
    ∃ calls, Transacted attributes statements calls reply short ∧
      log = settingsCalls transactionSettings ++ calls ++ settingsCalls saved
  else Sequential attributes statements log reply short

theorem executeSucceeded_eq {rollback : Bool} {saved : ConnectionSettings} {attributes : Attributes}
    {statements : List BoundStatement} {log : List (Entry σ)} {reply : Reply BatchError BatchResult}
    {short : Reply BatchError Bool}
    (h : Course rollback saved attributes statements log reply short) {τ : Type} [Connection τ]
    {options : BatchOptions} {input : BatchInput} {binds : BindValues} {s s' : τ}
    (hexecute : execute options input attributes binds s = (reply, s')) :
    executeSucceeded options input attributes binds s = (short, s') := by
  unfold executeSucceeded
  rw [hexecute]
  cases rollback with
  | false => cases h <;> rfl
  | true =>
      obtain ⟨calls, h, -⟩ := h
      cases h with
      | refused e => rfl
      | beginInterrupted i => rfl
      | succeeded all closing => cases closing <;> rfl
      | failed halt e undoing => cases undoing <;> rfl
      | interrupted halt i aborted => rfl

/-- **A batch keeps to its course.** The connection sees the statements of the batch in order, each
once and with its own values, up to the first that does not succeed, and around them the calls of a
transaction if the batch has one of its own; the answer says what came of them. -/
theorem execute_course (options : BatchOptions) (input : BatchInput) (attributes : Attributes)
    (binds : BindValues) {statements : List BoundStatement}
    (hbound : input.bound options.splitter binds = .ok statements) (hne : statements ≠ [])
    (s : σ) (hswitch : options.rollback = true → (setAutoCommit false s).1 = .ok () ∧
      (setAutoCommit (autoCommit s) (SettingsGuard.restoring transactionSettings
        (inTransaction attributes statements) s)).1 = .ok ()) :
    ∃ log,
      Course options.rollback (settings s) attributes statements log
        (execute options input attributes binds s).1
        (executeSucceeded options input attributes binds s).1 ∧
      execute options input attributes binds (⟨s, []⟩ : Recorded σ) =
        ((execute options input attributes binds s).1,
          ⟨(execute options input attributes binds s).2, log⟩) ∧
      executeSucceeded options input attributes binds (⟨s, []⟩ : Recorded σ) =
        ((executeSucceeded options input attributes binds s).1,
          ⟨(executeSucceeded options input attributes binds s).2, log⟩) := by
  have hexecute {τ : Type} [Connection τ] (t : τ) : execute options input attributes binds t =
      if options.rollback then executeTransactional attributes statements t
      else executeSequential attributes statements t := by
    obtain ⟨first, rest, rfl⟩ := List.exists_cons_of_ne_nil hne
    simp only [execute, hbound]
  have hcourse : ∃ short log,
      Course options.rollback (settings s) attributes statements log
        (execute options input attributes binds s).1 short ∧
      execute options input attributes binds (⟨s, []⟩ : Recorded σ) =
        ((execute options input attributes binds s).1,
          ⟨(execute options input attributes binds s).2, log⟩) := by
    rw [hexecute, hexecute]
    cases hrollback : options.rollback with
    | false => exact executeSequential_course attributes statements ⟨s, []⟩
    | true =>
        obtain ⟨hoff, hback⟩ := hswitch hrollback
        obtain ⟨short, calls, htransacted, hlog⟩ :=
          executeTransactional_course (r := ⟨s, []⟩) hoff hback
        exact ⟨short, _, ⟨calls, htransacted, rfl⟩, hlog⟩
  obtain ⟨short, log, hcourse, hlog⟩ := hcourse
  rw [executeSucceeded_eq hcourse rfl, executeSucceeded_eq hcourse hlog]
  exact ⟨log, hcourse, hlog, rfl⟩

/-- A connection that knows no `SELEC` and refuses to roll back. -/
def unwilling : Scripted.State where
  script := { rules := [⟨"SELEC ", .fail ⟨.query, "syntax error"⟩ none⟩], refused := [.rollback] }

/-- Of three statements the second fails, and so does the rollback: the third is not executed, and
the transaction is aborted. -/
theorem execute_course_unwilling :
    let e : ConnectionError := ⟨.query, "syntax error"⟩
    let refusal : ConnectionError := ⟨.transaction, "rollback refused"⟩
    let input : BatchInput := .texts ["INSERT INTO t", "SELEC 1", "DELETE t"]
    let statements : List BoundStatement :=
      [(.ofText "INSERT INTO t", []), (.ofText "SELEC 1", []), (.ofText "DELETE t", [])]
    ∃ log s₁ s₂,
      Course true ⟨true, false⟩ {} statements log
        (.failed (.rollback ⟨1, "SELEC 1", { message := e.message }⟩ refusal)) (.ok false) ∧
      (execute {} input {} .none (⟨unwilling, []⟩ : Recorded Scripted.State)).2.log = log ∧
      log = [.autoCommit false (.ok ()), .strictError true, .begin (.ok ()),
        .execute "INSERT INTO t" {} [] (.ok (.affected 1)) s₁,
        .execute "SELEC 1" {} [] (.failed e) s₂, .rollback (.failed refusal), .abort (.ok ()),
        .autoCommit true (.ok ()), .strictError false] := by
  intro e refusal input statements
  have hbound : input.bound {} .none = .ok statements := rfl
  obtain ⟨log, hcourse, hlog, -⟩ := execute_course {} input {} .none hbound (List.cons_ne_nil _ _)
    unwilling fun _ => ⟨rfl, by rfl⟩
  have hlog' := congrArg (·.2.log) hlog
  exact ⟨log, _, _, hcourse, hlog', hlog'.symm.trans rfl⟩

end Batch

end SqlBatch
