import SqlBatch.Proofs.Batch.FailedCall
import SqlBatch.Proofs.Embedded.Transactions

/-!
# What is said of a failure

What the database said of a failure does not come with the reply to a call: it is remembered by the
connection, which is asked for it afterwards. So it could be left over from a statement that failed
long before. That it never is follows from what a single call does. A statement that fails has one
of three causes, and leaves behind what the database said of that cause, or nothing where the
database was not asked; a statement that succeeds leaves nothing; and no other call changes what is
remembered.
-/

namespace SqlBatch

namespace Embedded

/-! ### Why statements fail -/

/-- Why a statement fails. -/
inductive Cause where
  /-- The connection is closed. -/
  | closed
  /-- The transaction that the statement needs cannot be opened. -/
  | opening (e : DatabaseError)
  /-- The database does not run the statement. -/
  | statement (e : DatabaseError)

namespace Cause

def error : Cause → ConnectionError
  | closed => Handle.closedError
  | opening e => ⟨.transaction, s!"Failed to begin transaction: {(Handle.infoOf e).text}"⟩
  | statement e => ⟨.query, s!"Failed to execute statement: {e.text}"⟩

/-- What the database says, if it was asked. -/
def detail? : Cause → Option ErrorInfo
  | closed => none
  | opening e | statement e => some (Handle.infoOf e)

/-- What a failure tells of its cause: what the database says, or else the text of the error, which
has no code. -/
def info : Cause → ErrorInfo
  | closed => { message := Handle.closedError.message }
  | opening e | statement e => Handle.infoOf e

private theorem getD_detail? (cause : Cause) :
    cause.detail?.getD { message := cause.error.message } = cause.info := by
  cases cause <;> rfl

end Cause

namespace Client

variable {ε : Type} [Engine ε]

/-- A statement fails for a cause. What is remembered of earlier ones has no part in it. -/
inductive Fails (c : Client ε) (sql : String) (attributes : Attributes) (values : List Value) :
    Cause → Prop
  | closed (closed : c.session = none) : Fails c sql attributes values .closed
  | opening {s s' : ε} {e : DatabaseError} (session : c.session = some s)
      (manual : c.settings.autoCommit = false) (idle : Engine.inTransaction s = false)
      (refused : Engine.begin s = (.error e, s')) : Fails c sql attributes values (.opening e)
  | statement {s s' : ε} {e : DatabaseError} (runs : c.RunsIn s)
      (failed : Engine.run sql values (Handle.rowLimit? attributes) s = (.error e, s')) :
      Fails c sql attributes values (.statement e)

/-- What comes of a statement: the reply, and what the connection remembers behind it. -/
inductive Answers (c : Client ε) (sql : String) (attributes : Attributes) (values : List Value) :
    Reply ConnectionError StatementResult → Option ErrorInfo → Prop
  | succeeded {s s' : ε} {result : StatementResult} (runs : c.RunsIn s)
      (ran : Engine.run sql values (Handle.rowLimit? attributes) s = (.ok result, s')) :
      Answers c sql attributes values (.ok result) none
  | failed {cause : Cause} (fails : c.Fails sql attributes values cause) :
      Answers c sql attributes values (.failed cause.error) cause.detail?

variable (c : Client ε) (sql : String) (attributes : Attributes) (values : List Value)

variable {c sql attributes values} in
private theorem Answers.detail_eq_none {result : StatementResult} {detail : Option ErrorInfo}
    (h : c.Answers sql attributes values (.ok result) detail) : detail = none := by
  cases h with
  | succeeded runs ran => rfl

theorem answers_of_runsIn {s : ε} (hruns : c.RunsIn s) {fresh : Client ε}
    (hfresh : fresh.lastError = none) :
    c.Answers sql attributes values
      (.ofExcept (fresh.runIn s sql (Handle.rowLimit? attributes) values).1)
      (fresh.runIn s sql (Handle.rowLimit? attributes) values).2.lastError := by
  rw [runIn]
  rcases hrun : Engine.run sql values (Handle.rowLimit? attributes) s with ⟨e | result, s'⟩
  · exact .failed (.statement hruns hrun)
  · dsimp only
    rw [hfresh]
    exact .succeeded hruns hrun

/-- A statement leaves behind what the database said of it, and of no other. -/
theorem execute_answers : c.Answers sql attributes values
    (Connection.execute sql attributes values c).1
    (Connection.errorInfo (Connection.execute sql attributes values c).2) := by
  change c.Answers sql attributes values (.ofExcept (c.execute sql attributes values).1)
    (c.execute sql attributes values).2.lastError
  rw [execute]
  dsimp only
  split
  · rename_i hsession
    exact .failed (.closed hsession)
  · rename_i s hsession
    split
    · rename_i hready
      have hruns : c.RunsIn s := .ready hsession (Bool.or_eq_true_iff.mp hready)
      exact answers_of_runsIn c sql attributes values hruns rfl
    · rename_i hmanual
      obtain ⟨hmanual, hidle⟩ := Bool.or_eq_false_iff.mp (Bool.eq_false_iff.mpr hmanual)
      rcases hbegin : Engine.begin s with ⟨e | ⟨⟩, s'⟩
      · exact .failed (.opening hsession hmanual hidle hbegin)
      · have hruns : c.RunsIn s' := .opened hsession hmanual hidle hbegin
        exact answers_of_runsIn c sql attributes values hruns rfl

theorem finish_lastError (name : String) (command : ε → Except DatabaseError Unit × ε) :
    (c.finish name command).2.lastError = c.lastError := by
  unfold finish
  split
  · rfl
  · split
    · rfl
    · split <;> rfl

private theorem begin_lastError : c.begin.2.lastError = c.lastError := by
  unfold begin
  split
  · rfl
  · split
    · rfl
    · split <;> rfl

private theorem setAutoCommit_lastError (on : Bool) :
    (c.setAutoCommit on).2.lastError = c.lastError := by
  cases on with
  | false => rfl
  | true =>
      have hcommit := c.finish_lastError "COMMIT" Engine.commit
      rw [setAutoCommit, if_pos rfl, commit]
      rcases hdone : c.finish "COMMIT" Engine.commit with ⟨e | ⟨⟩, c'⟩ <;>
        rw [hdone] at hcommit <;> exact hcommit

private theorem perform_lastError {call : Call} (h : call.isStatement = false) :
    (call.perform c).2.lastError = c.lastError := by
  cases call with
  | execute => cases h
  | begin => exact c.begin_lastError
  | commit => exact c.finish_lastError "COMMIT" Engine.commit
  | rollback | abort => exact c.finish_lastError "ROLLBACK" Engine.rollback
  | setAutoCommit on => exact c.setAutoCommit_lastError on
  | setStrictError on => rfl

end Client

/-! ### Connections that are clients -/

/-- A connection that does what its client does, as far as statements and what is remembered of them
are concerned. -/
structure Wrapping (σ ε : Type) [Connection σ] [Engine ε] where
  client : σ → Client ε
  execute_eq (sql : String) (attributes : Attributes) (values : List Value) (s : σ) :
    Connection.execute sql attributes values (client s) =
      ((Connection.execute sql attributes values s).1,
        client (Connection.execute sql attributes values s).2)
  perform_eq (call : Call) (s : σ) : (call.perform (client s)).2 = client (call.perform s).2
  close_eq (s : σ) : (Connection.close (client s)).2 = client (Connection.close s).2
  errorInfo_eq (s : σ) : Connection.errorInfo s = (client s).lastError

namespace Wrapping

variable {σ ε : Type} [Connection σ] [Engine ε] (w : Wrapping σ ε)

theorem execute_answers (s : σ) (sql : String) (attributes : Attributes) (values : List Value) :
    (w.client s).Answers sql attributes values (Connection.execute sql attributes values s).1
      (Connection.errorInfo (Connection.execute sql attributes values s).2) := by
  have hanswers := (w.client s).execute_answers sql attributes values
  rw [w.execute_eq] at hanswers
  rw [w.errorInfo_eq]
  exact hanswers

private theorem exists_cause {s after : σ} {sql : String} {attributes : Attributes}
    {values : List Value} {e : ConnectionError}
    (hfailed : Connection.execute sql attributes values s = (.failed e, after)) :
    ∃ cause : Cause, (w.client s).Fails sql attributes values cause ∧ e = cause.error ∧
      Connection.errorInfo after = cause.detail? := by
  have hanswers := w.execute_answers s sql attributes values
  rw [hfailed] at hanswers
  generalize Connection.errorInfo after = detail at hanswers
  cases hanswers with
  | failed fails => exact ⟨_, fails, rfl, rfl⟩

end Wrapping

def Client.wrapping {ε : Type} [Engine ε] : Wrapping (Client ε) ε where
  client := id
  execute_eq _ _ _ _ := rfl
  perform_eq _ _ := rfl
  close_eq _ := rfl
  errorInfo_eq _ := rfl

/-- A connection of this library has the file besides. -/
def Handle.wrapping : Wrapping Handle Session where
  client := Handle.client
  execute_eq sql attributes values h := by
    change Client.reply (h.client.execute sql attributes values) = _
    rw [client_execute]
    rfl
  perform_eq call h := by rw [client_perform]
  close_eq _ := rfl
  errorInfo_eq _ := rfl

/-! ### Operations -/

/-- What is done with a connection. -/
inductive Operation where
  | call (call : Call)
  | batch (options : BatchOptions) (input : BatchInput) (attributes : Attributes)
      (binds : BindValues)
  | close

namespace Operation

variable {σ : Type} [Connection σ]

def perform : Operation → σ → σ
  | .call made, s => (made.perform s).2
  | .batch options input attributes binds, s => (Batch.execute options input attributes binds s).2
  | .close, s => (Connection.close s).2

def performAll : List Operation → σ → σ
  | [], s => s
  | operation :: operations, s => performAll operations (operation.perform s)

def runsStatements : Operation → Bool
  | .call made => made.isStatement
  | .batch .. => true
  | .close => false

private theorem performAll_append (before after : List Operation) (s : σ) :
    performAll (before ++ after) s = performAll after (performAll before s) := by
  induction before generalizing s with
  | nil => rfl
  | cons operation before ih => exact ih (operation.perform s)

variable {ε : Type} [Engine ε] (w : Wrapping σ ε)

include w

theorem errorInfo_perform {operation : Operation} (h : operation.runsStatements = false) (s : σ) :
    Connection.errorInfo (operation.perform s) = Connection.errorInfo s := by
  rw [w.errorInfo_eq, w.errorInfo_eq]
  cases operation with
  | call made =>
      change (w.client (made.perform s).2).lastError = _
      rw [← w.perform_eq]
      exact (w.client s).perform_lastError h
  | batch => cases h
  | close =>
      change (w.client (Connection.close s).2).lastError = _
      rw [← w.close_eq]
      rfl

private theorem errorInfo_performAll {operations : List Operation}
    (h : ∀ operation ∈ operations, operation.runsStatements = false) (s : σ) :
    Connection.errorInfo (performAll operations s) = Connection.errorInfo s := by
  induction operations generalizing s with
  | nil => rfl
  | cons operation operations ih =>
      obtain ⟨hfirst, hrest⟩ := List.forall_mem_cons.mp h
      rw [performAll, ih hrest, errorInfo_perform w hfirst]

end Operation

/-- **A failure tells of its own call**, whatever was done with the connection before. -/
theorem failures_tell_of_their_own_call {σ ε : Type} [Connection σ] [Engine ε] (w : Wrapping σ ε)
    (history : List Operation) (start : σ) :
    let c := Operation.performAll history start
    -- What a batch says of a statement that failed is what the database said of that call, or else
    -- the error of that call.
    (∀ options input attributes binds failure,
      Batch.failure? (Batch.execute options input attributes binds c).1 = some failure →
      ∃ done statement values rest cause,
        input.bound options.splitter binds = .ok (done ++ (statement, values) :: rest) ∧
        let before := Call.performAll (Batch.statementCalls attributes done)
          (Call.performAll (Batch.opening options.rollback) c)
        (Connection.execute statement.text attributes values before).1 = .failed cause.error ∧
        (w.client before).Fails statement.text attributes values cause ∧
        failure = ⟨done.length, statement.text, cause.info⟩) ∧
    -- A statement leaves behind what the database said of it, and nothing if it succeeded.
    (∀ sql attributes values, (w.client c).Answers sql attributes values
      (Connection.execute sql attributes values c).1
      (Connection.errorInfo (Connection.execute sql attributes values c).2)) ∧
    (∀ sql attributes values result,
      (Connection.execute sql attributes values c).1 = .ok result →
      Connection.errorInfo (Connection.execute sql attributes values c).2 = none) ∧
    -- Where no statement is run, what is remembered stays.
    (∀ operation : Operation, operation.runsStatements = false →
      Connection.errorInfo (operation.perform c) = Connection.errorInfo c) ∧
    -- So it is always of the last statement that something is remembered.
    ∀ before sql attributes values after,
      history = before ++ .call (.execute sql attributes values) :: after →
      (∀ operation ∈ after, operation.runsStatements = false) →
      (w.client (Operation.performAll before start)).Answers sql attributes values
        (Connection.execute sql attributes values (Operation.performAll before start)).1
        (Connection.errorInfo c) := by
  intro c
  refine ⟨?_, w.execute_answers c, ?_, fun operation h => operation.errorInfo_perform w h c, ?_⟩
  · intro options input attributes binds failure hfailure
    obtain ⟨statements, hbound, hcall⟩ := Batch.failedCall_of_execute hfailure
    obtain @⟨done, statement, values, e, after, rest, hfailed⟩ := hcall
    obtain ⟨cause, hfails, rfl, hdetail⟩ := w.exists_cause hfailed
    refine ⟨done, statement, values, rest, cause, hbound, ?_, hfails, ?_⟩
    · rw [hfailed]
    · rw [Batch.failureOf, hdetail, cause.getD_detail?, Nat.zero_add]
  · intro sql attributes values result hok
    have hanswers := w.execute_answers c sql attributes values
    rw [hok] at hanswers
    exact hanswers.detail_eq_none
  · rintro before sql attributes values after rfl hafter
    have hlast := Operation.errorInfo_performAll w hafter
      (Connection.execute sql attributes values (Operation.performAll before start)).2
    have hc : c = Operation.performAll after
        (Connection.execute sql attributes values (Operation.performAll before start)).2 :=
      Operation.performAll_append before _ start
    rw [hc, hlast]
    exact w.execute_answers _ sql attributes values

/-- A statement that fails on a closed connection tells of that, although what is remembered is still
that a table was missing. -/
theorem failures_tell_of_their_own_call_closed :
    let history : List Operation := [.call (.execute "INSERT INTO missing VALUES (1)" {} []),
      .call .begin, .call .rollback, .close]
    let c := Operation.performAll history ({} : Handle)
    let closed : ErrorInfo := { message := "Connection error: SQLite connection is closed" }
    Connection.errorInfo c = some ⟨some "1", "no such table: missing"⟩ ∧
    Batch.failure? (Batch.execute { rollback := false }
      (.script "CREATE TABLE t (a); DELETE FROM t") {} .none c).1 =
        some ⟨0, "CREATE TABLE t (a)", closed⟩ ∧
    ∃ values cause, c.client.Fails "CREATE TABLE t (a)" {} values cause ∧ cause.info = closed := by
  intro history c closed
  have hfailure : Batch.failure? (Batch.execute { rollback := false }
      (.script "CREATE TABLE t (a); DELETE FROM t") {} .none c).1 =
        some ⟨0, "CREATE TABLE t (a)", closed⟩ := by decide +kernel
  refine ⟨by decide +kernel, hfailure, ?_⟩
  obtain ⟨done, statement, values, rest, cause, -, -, hfails, htold⟩ :=
    (failures_tell_of_their_own_call Handle.wrapping history {}).1 _ _ _ _ _ hfailure
  rw [StatementFailure.mk.injEq] at htold
  obtain ⟨hdone, htext, hinfo⟩ := htold
  obtain rfl : done = [] := List.eq_nil_of_length_eq_zero hdone.symm
  rw [← htext] at hfails
  exact ⟨values, cause, hfails, hinfo.symm⟩

end Embedded

end SqlBatch
