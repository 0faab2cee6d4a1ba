import SqlBatch.Connection.Basic

/-!
# Settings for a time

A guard remembers the settings of a connection while others are in effect, and brings them back when
it is released. A transaction that is still open then is aborted first, because to switch automatic
commits on would commit it.
-/

namespace SqlBatch

/-- The settings to bring back, and whether a transaction is open that must not outlive the guard.
-/
structure SettingsGuard where
  saved : ConnectionSettings
  transactionOpen : Bool := false
  deriving DecidableEq, Repr

namespace SettingsGuard

open Connection

variable {σ : Type} [Connection σ]

/-- Brings the settings back. Errors are passed over, because nobody is left to hear of them. -/
def release (guard : SettingsGuard) (s : σ) : σ :=
  let s := if guard.transactionOpen then (abort s).2 else s
  (applySettings guard.saved s).2

/-- Puts settings into effect until the guard is released. If that fails, the guard is released at
once. -/
def apply (new : ConnectionSettings) (s : σ) : Except ConnectionError SettingsGuard × σ :=
  let guard : SettingsGuard := { saved := settings s }
  match applySettings new s with
  | (.error e, s) => (.error e, guard.release s)
  | (.ok (), s) => (.ok guard, s)

/-- Runs a body under settings of its own. The body tells whether it leaves a transaction open. -/
def during {α : Type} (new : ConnectionSettings) (body : σ → (α × Bool) × σ) (s : σ) :
    Except ConnectionError α × σ :=
  match apply new s with
  | (.error e, s) => (.error e, s)
  | (.ok guard, s) =>
    match body s with
    | ((a, transactionOpen), s) => (.ok a, { guard with transactionOpen }.release s)

def describe (guard : SettingsGuard) (driver : String) : String :=
  Text.record "SettingsGuard" [("driver", Text.quoted driver), ("saved", guard.saved.describe),
    ("transaction_open", Text.truth guard.transactionOpen)]

end SettingsGuard

end SqlBatch
