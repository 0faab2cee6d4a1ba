import SqlBatch.Batch.Options
import SqlBatch.Batch.Result
import SqlBatch.Connection.Guard

/-!
# Running batches

The statements of a batch run one after another until one fails. In a transaction of its own a batch
is done as a whole or not at all; without one, statements are committed as the connection's settings
say. Nothing reaches the connection before all statements are known and have their values.
-/

namespace SqlBatch

namespace Batch

open Connection

variable {σ : Type} [Connection σ]

abbrev BoundStatement := Statement × List Value

/-- How a run through statements ends. -/
inductive Run where
  | finished (outcomes : List StatementOutcome)
  /-- The statements before the failing one, and the failure. -/
  | failed (outcomes : List StatementOutcome) (failure : StatementFailure)
  | interrupted (i : Interruption)

def Run.after (outcome : StatementOutcome) : Run → Run
  | finished outcomes => finished (outcome :: outcomes)
  | failed outcomes failure => failed (outcome :: outcomes) failure
  | interrupted i => interrupted i

/-- The failure of a statement, with what the connection remembers of it or else the text of the
error. -/
def failureOf (index : Nat) (sql : String) (e : ConnectionError) (s : σ) : StatementFailure :=
  ⟨index, sql, (errorInfo s).getD { message := e.message }⟩

/-- Runs statements, the first of which has the given index, up to the first that fails. -/
def run (attributes : Attributes) : Nat → List BoundStatement → σ → Run × σ
  | _, [], s => (.finished [], s)
  | index, (statement, values) :: rest, s =>
    match execute statement.text attributes values s with
    | (.ok result, s) =>
      match run attributes (index + 1) rest s with
      | (others, s) => (others.after ⟨index, statement.text, result⟩, s)
    | (.failed e, s) => (.failed [] (failureOf index statement.text e s), s)
    | (.interrupted i, s) => (.interrupted i, s)

/-- Opens a transaction, runs statements in it, and commits it or rolls it back. Beside the reply
stands whether the transaction is left open. -/
def inTransaction (attributes : Attributes) (statements : List BoundStatement) (s : σ) :
    (Reply BatchError BatchResult × Bool) × σ :=
  match begin s with
  | (.failed e, s) => ((.failed (.connection e), false), s)
  | (.interrupted i, s) => ((.interrupted i, false), s)
  | (.ok (), s) =>
    match run attributes 0 statements s with
    | (.interrupted i, s) => ((.interrupted i, true), s)
    | (.failed _ failure, s) =>
      match rollback s with
      | (.ok (), s) => ((.ok { state := .rolledBack, failure := some failure }, false), s)
      | (.failed e, s) => ((.failed (.rollback failure e), true), s)
      | (.interrupted i, s) => ((.interrupted i, true), s)
    | (.finished outcomes, s) =>
      match commit s with
      | (.ok (), s) => ((.ok { outcomes, state := .committed }, false), s)
      | (.interrupted i, s) => ((.interrupted i, true), s)
      | (.failed e, s) =>
        -- The error of the commit is reported, whatever comes of the rollback.
        match rollback s with
        | (.ok (), s) => ((.failed (.connection e), false), s)
        | (.failed _, s) => ((.failed (.connection e), true), s)
        | (.interrupted i, s) => ((.interrupted i, true), s)

/-- The settings under which a transaction of a batch runs. -/
def transactionSettings : ConnectionSettings := { autoCommit := false, strictError := true }

def executeTransactional (attributes : Attributes) (statements : List BoundStatement) (s : σ) :
    Reply BatchError BatchResult × σ :=
  match SettingsGuard.during transactionSettings (inTransaction attributes statements) s with
  | (.ok reply, s) => (reply, s)
  | (.error e, s) => (.failed (.connection e), s)

def executeSequential (attributes : Attributes) (statements : List BoundStatement) (s : σ) :
    Reply BatchError BatchResult × σ :=
  match run attributes 0 statements s with
  | (.finished outcomes, s) => (.ok { outcomes, state := .completed }, s)
  | (.interrupted i, s) => (.interrupted i, s)
  | (.failed outcomes failure, s) =>
    if strictError s then (.failed (.statement failure), s)
    else (.ok { outcomes, state := .stopped, failure := some failure }, s)

/-- What comes of a batch that cannot be run: its error. Placeholders that are too many to be
counted bring the call down. -/
def refused {α : Type} : InputError → Reply BatchError α
  | .split e => .failed (.split e)
  | .bind .uncountable => .interrupted .overflow
  | .bind e => .failed (.bind e)

def execute (options : BatchOptions) (input : BatchInput) (attributes : Attributes)
    (binds : BindValues) (s : σ) : Reply BatchError BatchResult × σ :=
  match input.bound options.splitter binds with
  | .error e => (refused e, s)
  | .ok [] => (.ok { state := .completed }, s)
  | .ok statements =>
    if options.rollback then executeTransactional attributes statements s
    else executeSequential attributes statements s

/-- Runs a batch and tells only whether all its statements succeeded. -/
def executeSucceeded (options : BatchOptions) (input : BatchInput) (attributes : Attributes)
    (binds : BindValues) (s : σ) : Reply BatchError Bool × σ :=
  match execute options input attributes binds s with
  | (.ok result, s) => (.ok result.succeeded, s)
  | (.failed e, s) => (if e.isExecutionFailure then .ok false else .failed e, s)
  | (.interrupted i, s) => (.interrupted i, s)

def describe (options : BatchOptions) (s : σ) : String :=
  Text.record "BatchExecutor"
    [("driver", Text.quoted (driverName s)), ("options", options.describe)]

end Batch

end SqlBatch
