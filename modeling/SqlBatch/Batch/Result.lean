import SqlBatch.Batch.Input
import SqlBatch.Connection.Basic

/-!
# Results of batches
-/

namespace SqlBatch

/-- A statement that failed: its place in the batch, its text, and what the database said. -/
structure StatementFailure where
  index : Nat
  sql : String
  info : ErrorInfo
  deriving DecidableEq, Repr

def StatementFailure.message (failure : StatementFailure) : String :=
  s!"statement {failure.index} failed: {failure.info.text}"

/-- Why a batch gives no result. -/
inductive BatchError where
  | split (e : SplitError)
  | bind (e : BindError)
  /-- A statement failed on a connection that raises such failures. -/
  | statement (failure : StatementFailure)
  /-- A statement failed, and its transaction could not be rolled back. -/
  | rollback (failure : StatementFailure) (source : ConnectionError)
  /-- The settings could not be changed, or the transaction could not be opened or committed. -/
  | connection (source : ConnectionError)
  deriving DecidableEq, Repr

namespace BatchError

def message : BatchError → String
  | split e => e.message
  | bind e => e.message
  | statement failure => failure.message
  | rollback failure source => s!"rollback after {failure.message} failed: {source.message}"
  | connection source => s!"connection error: {source.message}"

def failure? : BatchError → Option StatementFailure
  | statement failure | rollback failure _ => some failure
  | split _ | bind _ | connection _ => none

def isExecutionFailure (e : BatchError) : Bool := e.failure?.isSome

end BatchError

/-- How a batch ended. -/
inductive BatchState where
  /-- All statements succeeded, and their transaction was committed. -/
  | committed
  /-- A statement failed, and the transaction was rolled back. -/
  | rolledBack
  /-- All statements succeeded without a transaction of the batch. -/
  | completed
  /-- A statement failed without a transaction of the batch; those before it stay done. -/
  | stopped
  deriving DecidableEq, Repr

def BatchState.name : BatchState → String
  | committed => "Committed"
  | rolledBack => "RolledBack"
  | completed => "Completed"
  | stopped => "StoppedOnFailure"

/-- A statement that succeeded: its place in the batch, its text, and what it gave. -/
structure StatementOutcome where
  index : Nat
  sql : String
  result : StatementResult
  deriving BEq

/-- The result of a batch: the statements that succeeded and were not undone, how it ended, and the
statement that stopped it. -/
structure BatchResult where
  outcomes : List StatementOutcome := []
  state : BatchState
  failure : Option StatementFailure := none
  deriving BEq

namespace BatchResult

def succeeded (result : BatchResult) : Bool :=
  result.state = .committed || result.state = .completed

/-- The number of rows that the statements changed in all, unless it does not fit into 64 bits. -/
def totalAffected? (result : BatchResult) : Option Nat :=
  let total := @List.sum Nat _ ⟨0⟩ (result.outcomes.map (·.result.affectedRows.toNat))
  if total < UInt64.size then some total else none

end BatchResult

end SqlBatch
