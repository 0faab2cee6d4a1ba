import SqlBatch.Proofs.Batch.Atomic

/-!
# Batches leave the settings as they found them

A batch in a transaction runs under a guard, so its settings come back on every way out, a call cut
off included. A batch without a transaction changes no settings at all, because its statements do
not. A batch that cannot be run never touches the connection.
-/

namespace SqlBatch

open Connection

variable {σ : Type} [Connection σ]

namespace Batch

private theorem run_settings (laws : SettingsContract σ) (attributes : Attributes)
    (statements : List BoundStatement) (index : Nat) (s : σ) :
    settings (run attributes index statements s).2 = settings s := by
  induction statements generalizing index s with
  | nil => rfl
  | cons statement rest ih =>
      obtain ⟨statement, values⟩ := statement
      have hexecute := laws.execute_settings statement.text attributes values s
      rcases h : Connection.execute statement.text attributes values s with ⟨result | e | i, s'⟩ <;>
        simp only [run, h] at hexecute ⊢
      · exact (ih (index + 1) s').trans hexecute
      · exact hexecute
      · exact hexecute

private theorem executeSequential_settings (laws : SettingsContract σ) (attributes : Attributes)
    (statements : List BoundStatement) (s : σ) :
    settings (executeSequential attributes statements s).2 = settings s := by
  have hrun := run_settings laws attributes statements 0 s
  unfold executeSequential
  split
  · rename_i h
    rwa [h] at hrun
  · rename_i h
    rwa [h] at hrun
  · rename_i h
    rw [h] at hrun
    split <;> exact hrun

theorem executeTransactional_snd (attributes : Attributes) (statements : List BoundStatement)
    (s : σ) : (executeTransactional attributes statements s).2 =
      (SettingsGuard.during transactionSettings (inTransaction attributes statements) s).2 := by
  unfold executeTransactional
  split <;> rename_i h <;> rw [h]

theorem execute_settings (laws : SettingsContract σ) (options : BatchOptions) (input : BatchInput)
    (attributes : Attributes) (binds : BindValues) (s : σ)
    (hrestore : ∀ statements, input.bound options.splitter binds = .ok statements →
      statements ≠ [] → options.rollback = true →
      (setAutoCommit (autoCommit s) (SettingsGuard.restoring transactionSettings
        (inTransaction attributes statements) s)).1 = .ok ()) :
    settings (execute options input attributes binds s).2 = settings s := by
  unfold execute
  split
  · rfl
  · rfl
  · rename_i statements hne hbound
    split
    · rename_i hrollback
      rw [executeTransactional_snd]
      exact SettingsGuard.during_settings laws _ _ s (hrestore statements hbound hne hrollback)
    · exact executeSequential_settings laws attributes statements s

variable {ε : Type} {view : LedgerView σ ε} {Valid : σ → Prop}

/-- **Settings are scoped.** Whatever runs under a guard, the settings afterwards are those before,
as long as the switch that brings them back succeeds; so it is when they cannot be changed in the
first place. What waits in a transaction that the guard knows of is then gone, if it can be aborted.
Hence a batch leaves the settings as it found them, in either mode, whichever calls fail and
whichever never come back. -/
theorem settings_scoped (laws : SettingsContract σ) (contract : TransactionContract view Valid)
    (s : σ) :
    (∀ (α : Type) (new : ConnectionSettings) (body : σ → (α × Bool) × σ),
      (setAutoCommit (autoCommit s) (SettingsGuard.restoring new body s)).1 = .ok () →
      settings (SettingsGuard.during new body s).2 = settings s) ∧
    (∀ (α : Type) (new : ConnectionSettings) (body : σ → (α × Bool) × σ) (guard : SettingsGuard)
      (a : α) (s₁ s₂ : σ), SettingsGuard.apply new s = (.ok guard, s₁) →
      body s₁ = ((a, true), s₂) → Valid s₂ → (abort s₂).1 = .ok () →
      view.ledger (SettingsGuard.during new body s).2 = (view.ledger s₂).undone) ∧
    ∀ (options : BatchOptions) (input : BatchInput) (attributes : Attributes) (binds : BindValues),
      (∀ statements, input.bound options.splitter binds = .ok statements → statements ≠ [] →
        options.rollback = true →
        (setAutoCommit (autoCommit s) (SettingsGuard.restoring transactionSettings
          (inTransaction attributes statements) s)).1 = .ok ()) →
      settings (execute options input attributes binds s).2 = settings s := by
  refine ⟨fun α new body => SettingsGuard.during_settings laws new body s, ?_,
    fun options input attributes binds => execute_settings laws options input attributes binds s⟩
  intro α new body guard a s₁ s₂ happly hbody hs habort
  simp only [SettingsGuard.during, happly, hbody]
  exact SettingsGuard.release_ledger_of_open contract rfl hs habort

/-- Under a guard that switches automatic commits off, an update under a guard of its own that
switches them on, and then an insertion that is left waiting: only the update lasts. A connection
that refuses to switch automatic commits off runs no batch, and keeps its settings as well. -/
theorem settings_scoped_nested :
    let s : Scripted.State := { settings := ⟨true, true⟩ }
    let off : ConnectionSettings := ⟨false, false⟩
    let update (s : Scripted.State) := (((), false), (Connection.execute "UPDATE t" {} [] s).2)
    let body (s : Scripted.State) := (((), true),
      (Connection.execute "INSERT INTO t" {} [] (SettingsGuard.during ⟨true, false⟩ update s).2).2)
    let deaf : Scripted.State := { script := { refused := [.autoCommitOff] } }
    SettingsContract Scripted.State ∧
      TransactionContract Scripted.State.view Scripted.State.Sound ∧
      settings (SettingsGuard.during off body s).2 = ⟨true, true⟩ ∧
      Scripted.State.view.ledger (SettingsGuard.during off body s).2 = ⟨["UPDATE t"], none⟩ ∧
      (execute {} (.texts ["INSERT INTO t"]) {} .none deaf).1 =
        .failed (.connection ⟨.transaction, "auto_commit_off refused"⟩) ∧
      settings (execute {} (.texts ["INSERT INTO t"]) {} .none deaf).2 = settings deaf := by
  intro s off update body deaf
  obtain ⟨hsettings, hledger, -⟩ :=
    settings_scoped Scripted.State.settingsContract Scripted.State.contract s
  obtain ⟨-, -, hbatch⟩ :=
    settings_scoped Scripted.State.settingsContract Scripted.State.contract deaf
  refine ⟨Scripted.State.settingsContract, Scripted.State.contract, hsettings Unit off body rfl,
    hledger Unit off body _ () _ _ rfl rfl ⟨fun h => ?_, List.not_mem_nil⟩ rfl, rfl,
    hbatch {} (.texts ["INSERT INTO t"]) {} .none fun _ hbound _ _ => ?_⟩
  · cases h
  · cases hbound
    rfl

end Batch

end SqlBatch
