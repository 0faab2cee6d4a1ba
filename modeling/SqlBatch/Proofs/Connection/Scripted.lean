import SqlBatch.Connection.Scripted
import SqlBatch.Proofs.Connection.Contract

/-!
# The scripted connection keeps the contract

A script may refuse any control call. What is refused is written into the log and changes nothing
else, so the ledger of the connection is what the contract says after every call. That a transaction
can always be aborted is no part of the contract, and is asked of a script where it is needed.
-/

namespace SqlBatch

namespace Scripted.State

open Connection

/-- The ledger of a scripted connection holds the texts of its statements. -/
def view : LedgerView State String where
  ledger s := ⟨s.durable, if s.inTransaction then some s.pending else none⟩
  effect sql _ _ := sql

/-- Nothing waits outside a transaction, and a transaction can always be aborted. -/
def Sound (s : State) : Prop :=
  (s.inTransaction = false → s.pending = []) ∧ Control.abort ∉ s.script.refused

/-- Nothing waits outside a transaction, and the script is an allowed one. -/
def Tidy (allowed : Script → Prop) (s : State) : Prop :=
  (s.inTransaction = false → s.pending = []) ∧ allowed s.script

variable {allowed : Script → Prop}

theorem pending_ledger {s : State} (hs : s.Tidy allowed) :
    (view.ledger s).pending = s.pending := by
  cases h : s.inTransaction with
  | false => simp [view, Ledger.pending, h, hs.1 h]
  | true => simp [view, Ledger.pending, h]

private theorem begun_ledger {s : State} (hs : s.Tidy allowed) :
    view.ledger { s with inTransaction := true } = (view.ledger s).opened := by
  rw [Ledger.opened, pending_ledger hs]
  rfl

theorem committed_ledger {s : State} (hs : s.Tidy allowed) :
    view.ledger s.committed = (view.ledger s).committed := by
  rw [Ledger.committed, pending_ledger hs]
  rfl

theorem undone_ledger {s : State} (_ : s.Tidy allowed) :
    view.ledger s.undone = (view.ledger s).undone := rfl

private theorem begun_tidy {s : State} (hs : s.Tidy allowed) :
    Tidy allowed { s with inTransaction := true } :=
  ⟨fun h => Bool.noConfusion h, hs.2⟩

private theorem committed_tidy {s : State} (hs : s.Tidy allowed) : s.committed.Tidy allowed :=
  ⟨fun _ => rfl, hs.2⟩

theorem undone_tidy {s : State} (hs : s.Tidy allowed) : s.undone.Tidy allowed :=
  ⟨fun _ => rfl, hs.2⟩

private theorem recorded_ledger (sql : String) {s : State} (hs : s.Tidy allowed) :
    view.ledger (s.recorded sql) = (view.ledger s).recorded s.settings.autoCommit sql := by
  have hpending := pending_ledger hs
  cases ha : s.settings.autoCommit <;> cases ht : s.inTransaction <;>
    simp_all [view, State.recorded, Ledger.recorded]

theorem recorded_tidy (sql : String) {s : State} (hs : s.Tidy allowed) :
    (s.recorded sql).Tidy allowed := by
  obtain ⟨hpending, hscript⟩ := hs
  unfold State.recorded
  split
  · exact ⟨hpending, hscript⟩
  · exact ⟨by simp, hscript⟩

private theorem switched_ledger (on : Bool) {s : State} (hs : s.Tidy allowed) :
    view.ledger
        { (if on && s.inTransaction then s.committed else s) with settings.autoCommit := on }
      = (if on then Ledger.committed else id) (view.ledger s) := by
  cases on with
  | false => rfl
  | true =>
      cases h : s.inTransaction with
      | false => exact (Ledger.committed_of_closed (by simp [view, h])).symm
      | true => exact committed_ledger hs

private theorem switched_tidy (on : Bool) {s : State} (hs : s.Tidy allowed) :
    Tidy allowed
      { (if on && s.inTransaction then s.committed else s) with settings.autoCommit := on } := by
  split
  · exact ⟨fun _ => rfl, hs.2⟩
  · exact hs

theorem control_ledger (call : Control) {change : State → State}
    {f : Ledger String → Ledger String}
    (hchange : ∀ {s}, Tidy allowed s → view.ledger (change s) = f (view.ledger s)) {s : State}
    (hs : s.Tidy allowed) :
    view.ledger (s.control call change).2
      = (view.ledger s).after f (.ofExcept (s.control call change).1) := by
  unfold State.control
  split
  · rfl
  · exact hchange hs

theorem control_tidy (call : Control) {change : State → State}
    (hchange : ∀ {s}, Tidy allowed s → Tidy allowed (change s)) {s : State}
    (hs : s.Tidy allowed) : (s.control call change).2.Tidy allowed := by
  unfold State.control
  split
  · exact hs
  · exact hchange hs

private theorem execute_tidy (sql : String) (attributes : Attributes) (values : List Value)
    {s : State} (hs : s.Tidy allowed) : (State.execute sql attributes values s).2.Tidy allowed := by
  unfold State.execute
  dsimp only
  split
  · exact hs
  · exact hs
  · exact hs
  · exact recorded_tidy sql hs
  · exact recorded_tidy sql hs
  · exact recorded_tidy sql hs

private theorem execute_ledger_of_ok {sql : String} {attributes : Attributes} {values : List Value}
    {result : StatementResult} {s s' : State} (hs : s.Tidy allowed)
    (h : State.execute sql attributes values s = (.ok result, s')) :
    view.ledger s' = (view.ledger s).recorded s.settings.autoCommit sql := by
  unfold State.execute at h
  dsimp only at h
  split at h <;> cases h
  all_goals exact recorded_ledger sql hs

theorem execute_ledger_of_not_ok {sql : String} {attributes : Attributes} {values : List Value}
    {r : Reply ConnectionError StatementResult} {s s' : State} (hr : ∀ result, r ≠ .ok result)
    (h : State.execute sql attributes values s = (r, s')) : view.ledger s' = view.ledger s := by
  unfold State.execute at h
  dsimp only at h
  split at h <;> cases h
  · rfl
  · rfl
  · rfl
  all_goals exact absurd rfl (hr _)

/-- The scripted connection keeps the contract whatever calls its script refuses. -/
theorem contractOf (allowed : Script → Prop) :
    TransactionContract view (Tidy allowed) where
  execute_valid sql attributes values hs := execute_tidy sql attributes values hs
  execute_ok hs h := execute_ledger_of_ok hs h
  execute_failed _ h := .of_eq (execute_ledger_of_not_ok (by simp) h)
  execute_interrupted _ h := .of_eq (execute_ledger_of_not_ok (by simp) h)
  begin_valid := control_tidy .begin begun_tidy
  begin_ledger := control_ledger .begin begun_ledger
  commit_valid := control_tidy .commit committed_tidy
  commit_ledger := control_ledger .commit committed_ledger
  rollback_valid := control_tidy .rollback undone_tidy
  rollback_ledger := control_ledger .rollback undone_ledger
  abort_valid := control_tidy .abort undone_tidy
  abort_ledger := control_ledger .abort undone_ledger
  setAutoCommit_valid on := control_tidy _ (switched_tidy on)
  setAutoCommit_ledger on := control_ledger _ (switched_ledger on)
  setStrictError_valid _ hs := hs
  setStrictError_ledger _ _ := rfl

theorem contract : TransactionContract view Sound :=
  contractOf fun script => Control.abort ∉ script.refused

theorem abort_ok {s : State} (hs : s.Sound) : (Connection.abort s).1 = .ok () := by
  change (s.control .abort State.undone).1 = .ok ()
  rw [State.control, if_neg hs.2]

end Scripted.State

end SqlBatch
