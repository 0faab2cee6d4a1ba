import SqlBatch.Batch.Execute

/-!
# Batches on connections that do the same

A batch knows its connection by the calls that it makes. Where two connections answer each call
alike, and the states they leave answer alike again, a batch on one is the same batch on the other.
-/

namespace SqlBatch

/-- A connection seen as another one, which answers each call of a batch in the same way. -/
structure Mirror (σ τ : Type) [Connection σ] [Connection τ] where
  map : σ → τ
  execute_map (sql : String) (attributes : Attributes) (values : List Value) (s : σ) :
    Connection.execute sql attributes values (map s) =
      (Connection.execute sql attributes values s).map id map
  begin_map (s : σ) : Connection.begin (map s) = (Connection.begin s).map id map
  commit_map (s : σ) : Connection.commit (map s) = (Connection.commit s).map id map
  rollback_map (s : σ) : Connection.rollback (map s) = (Connection.rollback s).map id map
  abort_map (s : σ) : Connection.abort (map s) = (Connection.abort s).map id map
  setAutoCommit_map (on : Bool) (s : σ) :
    Connection.setAutoCommit on (map s) = (Connection.setAutoCommit on s).map id map
  setStrictError_map (on : Bool) (s : σ) :
    Connection.setStrictError on (map s) = map (Connection.setStrictError on s)
  settings_map (s : σ) : Connection.settings (map s) = Connection.settings s
  errorInfo_map (s : σ) : Connection.errorInfo (map s) = Connection.errorInfo s

namespace Mirror

open Batch Connection

variable {σ τ : Type} [Connection σ] [Connection τ] (m : Mirror σ τ)

/-! ### Settings for a time -/

theorem applySettings_map (new : ConnectionSettings) (s : σ) :
    applySettings new (m.map s) = (applySettings new s).map id m.map := by
  rw [applySettings, applySettings, m.setAutoCommit_map]
  rcases setAutoCommit new.autoCommit s with ⟨e | ⟨⟩, s'⟩
  · rfl
  · dsimp only [Prod.map, id]
    rw [m.setStrictError_map]

theorem release_map (guard : SettingsGuard) (s : σ) :
    guard.release (m.map s) = m.map (guard.release s) := by
  rw [SettingsGuard.release, SettingsGuard.release, m.abort_map]
  split
  · exact congrArg Prod.snd (m.applySettings_map guard.saved (abort s).2)
  · exact congrArg Prod.snd (m.applySettings_map guard.saved s)

private theorem during_map {α : Type} (new : ConnectionSettings) {body : σ → (α × Bool) × σ}
    {body' : τ → (α × Bool) × τ} (hbody : ∀ s, body' (m.map s) = (body s).map id m.map) (s : σ) :
    SettingsGuard.during new body' (m.map s) = (SettingsGuard.during new body s).map id m.map := by
  rw [SettingsGuard.during, SettingsGuard.during, SettingsGuard.apply, SettingsGuard.apply,
    m.applySettings_map, m.settings_map]
  rcases applySettings new s with ⟨e | ⟨⟩, s'⟩ <;> dsimp only [Prod.map, id]
  · rw [m.release_map]
  · rw [hbody]
    rcases body s' with ⟨⟨a, transactionOpen⟩, s''⟩
    dsimp only [Prod.map, id]
    rw [m.release_map]

/-! ### Batches -/

theorem run_map (attributes : Attributes) (statements : List BoundStatement) (index : Nat) (s : σ) :
    run attributes index statements (m.map s) =
      (run attributes index statements s).map id m.map := by
  induction statements generalizing index s with
  | nil => rfl
  | cons statement rest ih =>
      obtain ⟨statement, values⟩ := statement
      rw [run, run, m.execute_map]
      rcases execute statement.text attributes values s with ⟨result | e | i, s'⟩ <;>
        dsimp only [Prod.map, id]
      · rw [ih]
        rfl
      · rw [failureOf, m.errorInfo_map]
        rfl

private theorem inTransaction_map (attributes : Attributes) (statements : List BoundStatement)
    (s : σ) :
    inTransaction attributes statements (m.map s) =
      (inTransaction attributes statements s).map id m.map := by
  rw [inTransaction, inTransaction, m.begin_map]
  rcases begin s with ⟨⟨⟩ | e | i, s₁⟩ <;> dsimp only [Prod.map, id]
  rw [m.run_map]
  rcases run attributes 0 statements s₁ with ⟨outcomes | ⟨outcomes, failure⟩ | i, s₂⟩ <;>
    dsimp only [Prod.map, id]
  · rw [m.commit_map]
    rcases commit s₂ with ⟨⟨⟩ | e | i, s₃⟩ <;> dsimp only [Prod.map, id]
    rw [m.rollback_map]
    rcases rollback s₃ with ⟨⟨⟩ | e' | i, s₄⟩ <;> rfl
  · rw [m.rollback_map]
    rcases rollback s₂ with ⟨⟨⟩ | e | i, s₃⟩ <;> rfl

private theorem executeTransactional_map (attributes : Attributes)
    (statements : List BoundStatement) (s : σ) :
    executeTransactional attributes statements (m.map s) =
      (executeTransactional attributes statements s).map id m.map := by
  rw [executeTransactional, executeTransactional,
    m.during_map _ (m.inTransaction_map attributes statements)]
  rcases SettingsGuard.during transactionSettings (inTransaction attributes statements) s with
    ⟨e | reply, s'⟩ <;> rfl

private theorem executeSequential_map (attributes : Attributes) (statements : List BoundStatement)
    (s : σ) : executeSequential attributes statements (m.map s) =
      (executeSequential attributes statements s).map id m.map := by
  rw [executeSequential, executeSequential, m.run_map]
  rcases run attributes 0 statements s with ⟨outcomes | ⟨outcomes, failure⟩ | i, s'⟩ <;>
    dsimp only [Prod.map, id]
  have hstrict : strictError (m.map s') = strictError s' :=
    congrArg ConnectionSettings.strictError (m.settings_map s')
  rw [hstrict]
  split <;> rfl

/-- A batch on the other connection is the same batch. -/
theorem execute_map_batch (options : BatchOptions) (input : BatchInput) (attributes : Attributes)
    (binds : BindValues) (s : σ) : Batch.execute options input attributes binds (m.map s) =
      (Batch.execute options input attributes binds s).map id m.map := by
  rw [Batch.execute, Batch.execute]
  split
  · rfl
  · rfl
  · split
    · exact m.executeTransactional_map attributes _ s
    · exact m.executeSequential_map attributes _ s

theorem execute_map_reply (options : BatchOptions) (input : BatchInput) (attributes : Attributes)
    (binds : BindValues) (s : σ) : (Batch.execute options input attributes binds (m.map s)).1 =
      (Batch.execute options input attributes binds s).1 := by
  rw [m.execute_map_batch]
  rfl

theorem execute_map_settings (options : BatchOptions) (input : BatchInput)
    (attributes : Attributes) (binds : BindValues) (s : σ) :
    settings (Batch.execute options input attributes binds (m.map s)).2 =
      settings (Batch.execute options input attributes binds s).2 := by
  rw [m.execute_map_batch]
  exact m.settings_map _

end Mirror

end SqlBatch
