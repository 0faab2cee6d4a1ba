import SqlBatch.Connection.Attributes
import SqlBatch.Connection.Failure
import SqlBatch.Connection.Result
import SqlBatch.Connection.Settings

/-!
# Connections

A connection is a state with calls on it. Most calls take their time: they may never come back, and
then whoever waits for them is cut off where it stands, with the state as the call left it.
-/

namespace SqlBatch

/-- Why a call never comes back. -/
inductive Interruption where
  /-- The call was given up while it was waiting. -/
  | abandoned
  /-- The connection itself broke down. -/
  | panicked (message : String)
  deriving DecidableEq, Repr

/-- A sum that does not fit into 64 bits brings a call down, in a build in which sums are checked.
Without the checks it would start again at zero. -/
def Interruption.overflow : Interruption := panicked "attempt to add with overflow"

/-- What a call comes to: an answer, an error, or nothing at all. -/
inductive Reply (ε α : Type) where
  | ok (a : α)
  | failed (e : ε)
  | interrupted (i : Interruption)

def Reply.ofExcept {ε α : Type} : Except ε α → Reply ε α
  | .ok a => .ok a
  | .error e => .failed e

/-- A connection to a database. A call that opens a transaction where one is open does nothing, nor
does a call that ends one where none is. -/
class Connection (σ : Type) where
  /-- The kind of database behind the connection. -/
  driverName : σ → String
  /-- Runs one statement with its attributes and its values. -/
  execute : String → Attributes → List Value → σ → Reply ConnectionError StatementResult × σ
  /-- Opens a transaction. -/
  begin : σ → Reply ConnectionError Unit × σ
  /-- Makes the changes of the open transaction lasting. -/
  commit : σ → Reply ConnectionError Unit × σ
  /-- Undoes the changes of the open transaction. -/
  rollback : σ → Reply ConnectionError Unit × σ
  /-- Undoes the changes of the open transaction without waiting. -/
  abort : σ → Except ConnectionError Unit × σ
  autoCommit : σ → Bool
  /-- Switches automatic commits; to switch them on commits the open transaction. -/
  setAutoCommit : Bool → σ → Except ConnectionError Unit × σ
  strictError : σ → Bool
  setStrictError : Bool → σ → σ
  /-- What the database said of the most recent failure. -/
  errorInfo : σ → Option ErrorInfo
  close : σ → Reply ConnectionError Unit × σ
  isClosed : σ → Bool

namespace Connection

variable {σ : Type} [Connection σ]

def settings (s : σ) : ConnectionSettings := ⟨autoCommit s, strictError s⟩

/-- Changes both settings, automatic commits first. If those cannot be switched, the other setting
stays as it is. -/
def applySettings (new : ConnectionSettings) (s : σ) : Except ConnectionError Unit × σ :=
  match setAutoCommit new.autoCommit s with
  | (.error e, s) => (.error e, s)
  | (.ok (), s) => (.ok (), setStrictError new.strictError s)

end Connection

end SqlBatch
