import SqlBatch.Connection.Guard

/-!
# What a connection owes to its transactions

The data behind a connection is seen as a ledger: the effects that are lasting, and the effects that
wait in the open transaction, if one is open. A connection keeps the contract when each of its calls
does to the ledger what its name says, or nothing at all when the call fails or never comes back. A
statement may leave a transaction open that was opened for it even if it fails.

The contract is said of the states that satisfy an invariant of the connection, so that a connection
may rely on what its own calls never bring about.
-/

namespace SqlBatch

/-- The lasting effects, and those that wait in the open transaction. -/
structure Ledger (ε : Type) where
  durable : List ε
  transaction : Option (List ε)

namespace Ledger

variable {ε : Type}

def pending (l : Ledger ε) : List ε := l.transaction.getD []

def opened (l : Ledger ε) : Ledger ε := ⟨l.durable, some l.pending⟩

/-- What was waiting lasts, and no transaction is open. -/
def committed (l : Ledger ε) : Ledger ε := ⟨l.durable ++ l.pending, none⟩

/-- What was waiting is gone, and no transaction is open. -/
def undone (l : Ledger ε) : Ledger ε := ⟨l.durable, none⟩

/-- A statement has taken effect: at once under automatic commits outside a transaction, and
otherwise in a transaction. -/
def recorded (autoCommit : Bool) (effect : ε) (l : Ledger ε) : Ledger ε :=
  if autoCommit && l.transaction.isNone then ⟨l.durable ++ [effect], none⟩
  else ⟨l.durable, some (l.pending ++ [effect])⟩

/-- What a call does to the ledger: its change if it succeeds, and nothing otherwise. -/
def after {E α : Type} (change : Ledger ε → Ledger ε) (r : Reply E α) (l : Ledger ε) : Ledger ε :=
  match r with
  | .ok _ => change l
  | .failed _ | .interrupted _ => l

/-- The same effects are lasting and the same are waiting, and no transaction was closed. -/
structure Unharmed (l l' : Ledger ε) : Prop where
  durable : l'.durable = l.durable
  pending : l'.pending = l.pending
  stillOpen : l.transaction.isSome → l'.transaction.isSome

@[simp] theorem after_ok {E α : Type} (change : Ledger ε → Ledger ε) (a : α) (l : Ledger ε) :
    after change (.ok a : Reply E α) l = change l := rfl

@[simp] theorem after_failed {E α : Type} (change : Ledger ε → Ledger ε) (e : E) (l : Ledger ε) :
    after change (.failed e : Reply E α) l = l := rfl

@[simp] theorem after_interrupted {E α : Type} (change : Ledger ε → Ledger ε) (i : Interruption)
    (l : Ledger ε) : after change (.interrupted i : Reply E α) l = l := rfl

theorem recorded_of_open (autoCommit : Bool) (effect : ε) {l : Ledger ε} {waiting : List ε}
    (h : l.transaction = some waiting) :
    l.recorded autoCommit effect = ⟨l.durable, some (waiting ++ [effect])⟩ := by
  simp [recorded, pending, h]

theorem committed_of_closed {l : Ledger ε} (h : l.transaction = none) : l.committed = l := by
  obtain ⟨durable, transaction⟩ := l
  subst h
  simp [committed, pending]

theorem Unharmed.of_eq {l l' : Ledger ε} (h : l' = l) : Unharmed l l' := by
  subst h
  exact ⟨rfl, rfl, id⟩

theorem Unharmed.transaction_eq {l l' : Ledger ε} (h : Unharmed l l') {waiting : List ε}
    (hopen : l.transaction = some waiting) : l'.transaction = some waiting := by
  obtain ⟨waiting', hopen'⟩ := Option.isSome_iff_exists.mp (h.stillOpen (by simp [hopen]))
  have hpending : l'.transaction.getD [] = l.transaction.getD [] := h.pending
  rw [hopen, hopen'] at hpending
  exact hopen'.trans (congrArg some hpending)

end Ledger

/-- How the data behind a connection is seen: its ledger, and the effect of a statement. -/
structure LedgerView (σ ε : Type) where
  ledger : σ → Ledger ε
  effect : String → Attributes → List Value → ε

open Connection in
/-- The calls of a connection do to its ledger what they say. -/
structure TransactionContract {σ ε : Type} [Connection σ] (view : LedgerView σ ε)
    (Valid : σ → Prop) : Prop where
  execute_valid {s : σ} (sql : String) (attributes : Attributes) (values : List Value) :
    Valid s → Valid (execute sql attributes values s).2
  execute_ok {s s' : σ} {sql : String} {attributes : Attributes} {values : List Value}
    {result : StatementResult} : Valid s → execute sql attributes values s = (.ok result, s') →
      view.ledger s' =
        (view.ledger s).recorded (autoCommit s) (view.effect sql attributes values)
  execute_failed {s s' : σ} {sql : String} {attributes : Attributes} {values : List Value}
    {e : ConnectionError} : Valid s → execute sql attributes values s = (.failed e, s') →
      (view.ledger s).Unharmed (view.ledger s')
  execute_interrupted {s s' : σ} {sql : String} {attributes : Attributes} {values : List Value}
    {i : Interruption} : Valid s → execute sql attributes values s = (.interrupted i, s') →
      (view.ledger s).Unharmed (view.ledger s')
  begin_valid {s : σ} : Valid s → Valid (begin s).2
  begin_ledger {s : σ} :
    Valid s → view.ledger (begin s).2 = (view.ledger s).after Ledger.opened (begin s).1
  commit_valid {s : σ} : Valid s → Valid (commit s).2
  commit_ledger {s : σ} :
    Valid s → view.ledger (commit s).2 = (view.ledger s).after Ledger.committed (commit s).1
  rollback_valid {s : σ} : Valid s → Valid (rollback s).2
  rollback_ledger {s : σ} :
    Valid s → view.ledger (rollback s).2 = (view.ledger s).after Ledger.undone (rollback s).1
  abort_valid {s : σ} : Valid s → Valid (abort s).2
  abort_ledger {s : σ} :
    Valid s → view.ledger (abort s).2 = (view.ledger s).after Ledger.undone (.ofExcept (abort s).1)
  setAutoCommit_valid {s : σ} (on : Bool) : Valid s → Valid (setAutoCommit on s).2
  setAutoCommit_ledger {s : σ} (on : Bool) :
    Valid s → view.ledger (setAutoCommit on s).2 =
      (view.ledger s).after (if on then Ledger.committed else id) (.ofExcept (setAutoCommit on s).1)
  setStrictError_valid {s : σ} (on : Bool) : Valid s → Valid (setStrictError on s)
  setStrictError_ledger {s : σ} (on : Bool) :
    Valid s → view.ledger (setStrictError on s) = view.ledger s

namespace TransactionContract

open Connection

variable {σ ε : Type} [Connection σ] {view : LedgerView σ ε} {Valid : σ → Prop}

theorem applySettings_valid (contract : TransactionContract view Valid) (new : ConnectionSettings)
    {s : σ} (hs : Valid s) : Valid (applySettings new s).2 := by
  have hvalid := contract.setAutoCommit_valid new.autoCommit hs
  unfold applySettings
  rcases h : setAutoCommit new.autoCommit s with ⟨e | ⟨⟩, s'⟩
  · simpa [h] using hvalid
  · rw [h] at hvalid
    exact contract.setStrictError_valid new.strictError hvalid

/-- A change of settings commits what waits if it switches automatic commits on, and does nothing
else to the ledger. -/
theorem applySettings_ledger_eq (contract : TransactionContract view Valid)
    (new : ConnectionSettings) {s : σ} (hs : Valid s) :
    view.ledger (applySettings new s).2 =
      (view.ledger s).after (if new.autoCommit then Ledger.committed else id)
        (.ofExcept (setAutoCommit new.autoCommit s).1) := by
  have hvalid := contract.setAutoCommit_valid new.autoCommit hs
  have hledger := contract.setAutoCommit_ledger new.autoCommit hs
  unfold applySettings
  rcases h : setAutoCommit new.autoCommit s with ⟨e | ⟨⟩, s'⟩ <;> rw [h] at hvalid hledger
  · exact hledger
  · exact (contract.setStrictError_ledger new.strictError hvalid).trans hledger

theorem applySettings_ledger (contract : TransactionContract view Valid) (new : ConnectionSettings)
    {s : σ} (hs : Valid s) (hclosed : (view.ledger s).transaction = none) :
    view.ledger (applySettings new s).2 = view.ledger s := by
  have hchange : (if new.autoCommit then Ledger.committed else id) (view.ledger s) =
      view.ledger s := by
    split
    · exact Ledger.committed_of_closed hclosed
    · rfl
  rw [contract.applySettings_ledger_eq new hs]
  cases (setAutoCommit new.autoCommit s).1 with
  | error e => rfl
  | ok => exact hchange

end TransactionContract

end SqlBatch
