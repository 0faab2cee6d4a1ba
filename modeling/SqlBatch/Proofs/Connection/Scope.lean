import SqlBatch.Proofs.Connection.Scripted

/-!
# Settings for a time come back

A guard brings the settings back as one call that switches automatic commits and one that sets the
other setting. Both overwrite what they find, so it does not matter what happened to the settings in
between: to switch automatic commits has to succeed when the guard is released, and nothing else.

If the guard knows of an open transaction, it aborts it first. When that succeeds, the switch finds
nothing to commit.
-/

namespace SqlBatch

open Connection

/-- The calls of a connection do to its settings what they say. -/
structure SettingsContract (σ : Type) [Connection σ] : Prop where
  setAutoCommit_ok {s s' : σ} {on : Bool} : setAutoCommit on s = (.ok (), s') → autoCommit s' = on
  setStrictError_settings (on : Bool) (s : σ) :
    settings (setStrictError on s) = { settings s with strictError := on }
  execute_settings (sql : String) (attributes : Attributes) (values : List Value) (s : σ) :
    settings (execute sql attributes values s).2 = settings s

variable {σ : Type} [Connection σ]

private theorem SettingsContract.applySettings_settings (laws : SettingsContract σ)
    (new : ConnectionSettings) {s : σ} (h : (setAutoCommit new.autoCommit s).1 = .ok ()) :
    settings (applySettings new s).2 = new := by
  rcases hset : setAutoCommit new.autoCommit s with ⟨e | ⟨⟩, s'⟩
  · rw [hset] at h
    cases h
  · have hauto : (settings s').autoCommit = new.autoCommit := laws.setAutoCommit_ok hset
    simp only [applySettings, hset, laws.setStrictError_settings, hauto]

namespace SettingsGuard

/-! ### Released guards -/

/-- The state in which a guard brings the settings back: right after they could not be changed, or
after the body and the abort of what it leaves open. -/
def restoring {α : Type} (new : ConnectionSettings) (body : σ → (α × Bool) × σ) (s : σ) : σ :=
  match applySettings new s with
  | (.error _, s) => s
  | (.ok (), s) =>
    match body s with
    | ((_, transactionOpen), s) => if transactionOpen then (abort s).2 else s

theorem during_eq_applySettings {α : Type} (new : ConnectionSettings)
    (body : σ → (α × Bool) × σ) (s : σ) :
    (during new body s).2 = (applySettings (settings s) (restoring new body s)).2 := by
  rcases happly : applySettings new s with ⟨e | ⟨⟩, s'⟩ <;>
    simp only [during, apply, restoring, happly, release]
  rfl

/-- Whatever the body does, guards of its own included, the settings are the earlier ones again. -/
theorem during_settings (laws : SettingsContract σ) {α : Type} (new : ConnectionSettings)
    (body : σ → (α × Bool) × σ) (s : σ)
    (hrestore : (setAutoCommit (autoCommit s) (restoring new body s)).1 = .ok ()) :
    settings (during new body s).2 = settings s := by
  rw [during_eq_applySettings]
  exact laws.applySettings_settings (settings s) hrestore

variable {ε : Type} {view : LedgerView σ ε} {Valid : σ → Prop}

theorem release_ledger_of_open (contract : TransactionContract view Valid) {guard : SettingsGuard}
    (hopen : guard.transactionOpen = true) {s : σ} (hs : Valid s)
    (habort : (abort s).1 = .ok ()) : view.ledger (guard.release s) = (view.ledger s).undone := by
  have hundone : view.ledger (abort s).2 = (view.ledger s).undone := by
    rw [contract.abort_ledger hs, habort]
    rfl
  have hclosed : (view.ledger (abort s).2).transaction = none := by
    rw [hundone]
    rfl
  rw [release, if_pos hopen,
    contract.applySettings_ledger guard.saved (contract.abort_valid hs) hclosed, hundone]

end SettingsGuard

/-! ### The scripted connection -/

namespace Scripted.State

private theorem control_eq_ok {call : Control} {change : State → State} {s s' : State}
    (h : s.control call change = (.ok (), s')) : s' = change (s.logged (.control call)) := by
  unfold State.control at h
  split at h
  · cases h
  · exact (Prod.mk.inj h).2.symm

/-- The scripted connection does to its settings what is said, whatever calls its script refuses. -/
theorem settingsContract : SettingsContract State where
  setAutoCommit_ok {s s' on} h := by
    change s.setAutoCommit on = _ at h
    unfold State.setAutoCommit at h
    rw [control_eq_ok h]
    rfl
  setStrictError_settings _ _ := rfl
  execute_settings sql attributes values s := by
    have hrecorded (s : State) : settings (s.recorded sql) = settings s := by
      unfold State.recorded
      split <;> rfl
    change settings (State.execute sql attributes values s).2 = _
    unfold State.execute
    dsimp only
    split <;> first | rfl | exact hrecorded _

end Scripted.State

end SqlBatch
