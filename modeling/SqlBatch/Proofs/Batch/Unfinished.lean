import SqlBatch.Proofs.Batch.Scope

/-!
# What a batch leaves that is not committed

A batch that is not committed makes nothing lasting itself, but two things about its transaction are
not in its hands. The transaction may have been open before, because to open one where one is open
does nothing. Then a rollback undoes it as a whole, with what its caller had waiting there. And the
transaction may resist: if neither the batch can roll it back nor the guard abort it, a beginning of
the batch still waits when the guard brings the settings back, and to switch automatic commits on
commits it.
-/

namespace SqlBatch

variable {σ ε : Type} {view : LedgerView σ ε} {Valid : σ → Prop}

open Connection

variable [Connection σ]

namespace Batch

/-- What becomes of the ledger while a batch runs that is not committed, and what its guard is told:
the transaction was never opened, or it is undone, or it is open with a beginning of the batch. -/
inductive Leaves (before : Ledger ε) (effects : List ε) :
    Reply BatchError BatchResult → Bool → Ledger ε → Prop
  | unopened {reply : Reply BatchError BatchResult} (unfinished : ∀ result, reply ≠ .ok result) :
      Leaves before effects reply false before
  | undone (reply : Reply BatchError BatchResult) : Leaves before effects reply false before.undone
  | waiting {reply : Reply BatchError BatchResult} {done : List ε}
      (unfinished : ∀ result, reply ≠ .ok result) (begun : done <+: effects) :
      Leaves before effects reply true ⟨before.durable, some (before.pending ++ done)⟩

private theorem Leaves.undone_of_ok {before after : Ledger ε} {effects : List ε}
    {result : BatchResult} {flag : Bool} (h : Leaves before effects (.ok result) flag after) :
    flag = false ∧ after = before.undone := by
  cases h with
  | unopened unfinished => exact absurd rfl (unfinished result)
  | undone => exact ⟨rfl, rfl⟩
  | waiting unfinished => exact absurd rfl (unfinished result)

theorem Leaves.beginning {before after : Ledger ε} {effects : List ε}
    {reply : Reply BatchError BatchResult} {flag : Bool}
    (h : Leaves before effects reply flag after)
    (hidle : before.transaction = none) :
    after.durable = before.durable ∧ after.pending <+: effects ∧
      (flag = false → after.pending = []) := by
  have hpending : before.pending = [] := by
    rw [Ledger.pending, hidle]
    rfl
  cases h with
  | unopened =>
      rw [hpending]
      exact ⟨rfl, List.nil_prefix, fun _ => rfl⟩
  | undone => exact ⟨rfl, List.nil_prefix, fun _ => rfl⟩
  | waiting _ begun =>
      rw [hpending]
      exact ⟨rfl, begun, fun h => Bool.noConfusion h⟩

theorem leaves_of_rollback (contract : TransactionContract view Valid) {before : Ledger ε}
    {done effects : List ε} (hbegun : done <+: effects) {s s' : σ}
    {r : Reply ConnectionError Unit} (hs : Valid s)
    (hledger : view.ledger s = ⟨before.durable, some (before.pending ++ done)⟩)
    (h : rollback s = (r, s')) {reply : Reply BatchError BatchResult} {flag : Bool}
    (hflag : flag = false ↔ r = .ok ()) (hreply : flag = true → ∀ result, reply ≠ .ok result) :
    Valid s' ∧ Leaves before effects reply flag (view.ledger s') := by
  have hvalid := contract.rollback_valid hs
  have hrollback := contract.rollback_ledger hs
  rw [h, hledger] at hrollback
  rw [h] at hvalid
  refine ⟨hvalid, ?_⟩
  rw [hrollback]
  cases flag with
  | false =>
      rw [hflag.mp rfl]
      exact .undone reply
  | true =>
      cases r with
      | ok => exact absurd (hflag.mpr rfl) (by simp)
      | failed e => exact .waiting (hreply rfl) hbegun
      | interrupted i => exact .waiting (hreply rfl) hbegun

theorem inTransaction_leaves (contract : TransactionContract view Valid) (attributes : Attributes)
    (statements : List BoundStatement) {s : σ} (hs : Valid s)
    (hreply : ¬ Committed (inTransaction attributes statements s).1.1) :
    Valid (inTransaction attributes statements s).2 ∧
      Leaves (view.ledger s) (view.effects attributes statements)
        (inTransaction attributes statements s).1.1 (inTransaction attributes statements s).1.2
        (view.ledger (inTransaction attributes statements s).2) := by
  have hvalid := contract.begin_valid hs
  have hbegin := contract.begin_ledger hs
  rcases h : begin s with ⟨⟨⟩ | e | i, s₁⟩ <;>
    simp only [inTransaction, h] at hvalid hbegin hreply ⊢
  · rw [Ledger.after_ok, Ledger.opened] at hbegin
    obtain ⟨hvalid, hwaits⟩ := run_waits contract attributes statements 0 hvalid
      (congrArg Ledger.transaction hbegin)
    obtain ⟨done, hbegun, htransaction⟩ := hwaits.begun
    have hdurable := hwaits.durable.trans (congrArg Ledger.durable hbegin)
    rcases hrun : run attributes 0 statements s₁ with ⟨outcomes | ⟨outcomes, failure⟩ | i, s₂⟩ <;>
      simp only [hrun] at hvalid htransaction hdurable hreply ⊢
    all_goals
      have hledger : view.ledger s₂ =
          ⟨(view.ledger s).durable, some ((view.ledger s).pending ++ done)⟩ := by
        rw [← hdurable, ← htransaction]
    · have hvalid₃ := contract.commit_valid hvalid
      have hcommit := contract.commit_ledger hvalid
      rcases hc : commit s₂ with ⟨⟨⟩ | e | i, s₃⟩ <;>
        simp only [hc] at hvalid₃ hcommit hreply ⊢
      · exact absurd ⟨_, rfl, rfl⟩ hreply
      · rw [Ledger.after_failed, hledger] at hcommit
        rcases hr : rollback s₃ with ⟨⟨⟩ | e' | i, s₄⟩
        · exact leaves_of_rollback contract hbegun hvalid₃ hcommit hr (by simp) (by simp)
        · exact leaves_of_rollback contract hbegun hvalid₃ hcommit hr (by simp) (by simp)
        · exact leaves_of_rollback contract hbegun hvalid₃ hcommit hr (by simp) (by simp)
      · rw [Ledger.after_interrupted, hledger] at hcommit
        rw [hcommit]
        exact ⟨hvalid₃, .waiting (by simp) hbegun⟩
    · rcases hr : rollback s₂ with ⟨⟨⟩ | e | i, s₃⟩
      · exact leaves_of_rollback contract hbegun hvalid hledger hr (by simp) (by simp)
      · exact leaves_of_rollback contract hbegun hvalid hledger hr (by simp) (by simp)
      · exact leaves_of_rollback contract hbegun hvalid hledger hr (by simp) (by simp)
    · rw [hledger]
      exact ⟨hvalid, .waiting (by simp) hbegun⟩
  · rw [Ledger.after_failed] at hbegin
    rw [hbegin]
    exact ⟨hvalid, .unopened (by simp)⟩
  · rw [Ledger.after_interrupted] at hbegin
    rw [hbegin]
    exact ⟨hvalid, .unopened (by simp)⟩

theorem transactionSettings_ledger (contract : TransactionContract view Valid) {s : σ}
    (hs : Valid s) : view.ledger (applySettings transactionSettings s).2 = view.ledger s := by
  rw [contract.applySettings_ledger_eq transactionSettings hs]
  cases (setAutoCommit transactionSettings.autoCommit s).1 <;> rfl

theorem executeTransactional_fst_of_applySettings {attributes : Attributes}
    {statements : List BoundStatement} {s s₁ : σ}
    (h : applySettings transactionSettings s = (.ok (), s₁)) :
    (executeTransactional attributes statements s).1 =
      (inTransaction attributes statements s₁).1.1 := by
  simp only [executeTransactional, SettingsGuard.during, SettingsGuard.apply, h]

/-! ### Batches that were rolled back -/

private theorem executeSequential_ne_rolledBack (attributes : Attributes)
    (statements : List BoundStatement) {s : σ} {result : BatchResult}
    (h : (executeSequential attributes statements s).1 = .ok result) :
    result.state ≠ .rolledBack := by
  unfold executeSequential at h
  split at h
  · cases h
    simp
  · cases h
  · split at h
    · cases h
    · cases h
      simp

theorem executeTransactional_rolledBack (contract : TransactionContract view Valid)
    (attributes : Attributes) (statements : List BoundStatement) {s : σ} (hs : Valid s)
    {result : BatchResult} (h : (executeTransactional attributes statements s).1 = .ok result)
    (hstate : result.state = .rolledBack) :
    view.ledger (executeTransactional attributes statements s).2 = (view.ledger s).undone := by
  have hvalid := contract.applySettings_valid transactionSettings hs
  have hledger := transactionSettings_ledger contract hs
  rw [executeTransactional_snd]
  rcases happly : applySettings transactionSettings s with ⟨e | ⟨⟩, s₁⟩ <;>
    rw [happly] at hvalid hledger
  · simp [executeTransactional, SettingsGuard.during, SettingsGuard.apply, happly] at h
  · rw [executeTransactional_fst_of_applySettings happly] at h
    have hreply : ¬ Committed (inTransaction attributes statements s₁).1.1 := by
      rintro ⟨result', hresult, hcommitted⟩
      cases h.symm.trans hresult
      rw [hstate] at hcommitted
      cases hcommitted
    obtain ⟨hvalid, hleaves⟩ := inTransaction_leaves contract attributes statements hvalid hreply
    rw [h] at hleaves
    obtain ⟨hflag, hundone⟩ := hleaves.undone_of_ok
    -- Nothing is open, so the settings come back without a commit.
    have hclosed : (view.ledger (inTransaction attributes statements s₁).2).transaction = none := by
      rw [hundone]
      rfl
    simp only [SettingsGuard.during, SettingsGuard.apply, happly, SettingsGuard.release, hflag,
      Bool.false_eq_true, if_false]
    rw [contract.applySettings_ledger _ hvalid hclosed, hundone, hledger]

/-- **A batch that was rolled back undoes the whole transaction in which it ran.** What was lasting
stays as it was. If a transaction was open when the batch started, what waited there is gone with
the batch, and no transaction is open afterwards. -/
theorem execute_rolledBack_undoes (contract : TransactionContract view Valid)
    (options : BatchOptions) (input : BatchInput) (attributes : Attributes) (binds : BindValues)
    {s : σ} (hs : Valid s) {result : BatchResult}
    (hok : (execute options input attributes binds s).1 = .ok result)
    (hstate : result.state = .rolledBack) :
    (view.ledger (execute options input attributes binds s).2).durable = (view.ledger s).durable ∧
      (view.ledger (execute options input attributes binds s).2).transaction = none ∧
      (view.ledger (execute options input attributes binds s).2).pending = [] := by
  have hundone : view.ledger (execute options input attributes binds s).2 =
      (view.ledger s).undone := by
    unfold execute at hok ⊢
    rcases hbound : input.bound options.splitter binds with e | ⟨_ | ⟨first, rest⟩⟩ <;>
      simp only [hbound] at hok ⊢
    · cases e with
      | split e => cases hok
      | bind e => cases e <;> cases hok
    · cases hok
      cases hstate
    · split at hok
      · rename_i hrollback
        rw [if_pos hrollback]
        exact executeTransactional_rolledBack contract attributes (first :: rest) hs hok hstate
      · exact absurd hstate (executeSequential_ne_rolledBack attributes (first :: rest) hok)
  rw [hundone]
  exact ⟨rfl, rfl, rfl⟩

/-- A caller opens a transaction and inserts a row, and then runs a batch whose second statement
fails. Only what was lasting before is left. -/
theorem execute_rolledBack_undoes_begun :
    let fresh : Scripted.State :=
      { script := { rules := [⟨"missing", .fail ⟨.query, "mock failure"⟩ none⟩] }
        durable := ["DELETE FROM t"] }
    let s := (Connection.execute "INSERT INTO t VALUES (1)" {} [] (begin fresh).2).2
    let input : BatchInput := .texts ["INSERT INTO t VALUES (2)", "INSERT INTO missing VALUES (3)"]
    TransactionContract Scripted.State.view Scripted.State.Sound ∧ s.Sound ∧
      Scripted.State.view.ledger s = ⟨["DELETE FROM t"], some ["INSERT INTO t VALUES (1)"]⟩ ∧
      (∃ failure, (execute {} input {} .none s).1 =
        .ok { state := .rolledBack, failure := some failure }) ∧
      (Scripted.State.view.ledger (execute {} input {} .none s).2).durable = ["DELETE FROM t"] ∧
      (Scripted.State.view.ledger (execute {} input {} .none s).2).transaction = none ∧
      (Scripted.State.view.ledger (execute {} input {} .none s).2).pending = [] := by
  intro fresh s input
  have hs : s.Sound := ⟨fun h => Bool.noConfusion h, List.not_mem_nil⟩
  exact ⟨Scripted.State.contract, hs, rfl, ⟨_, rfl⟩,
    execute_rolledBack_undoes Scripted.State.contract {} input {} .none hs rfl rfl⟩

/-- So a rolled-back batch does not undo only itself: an insertion that waits with automatic commits
switched off is neither waiting nor lasting after a batch that fails. -/
theorem execute_rolledBack_discards :
    let s : Scripted.State :=
      { script := { rules := [⟨"missing", .fail ⟨.query, "mock failure"⟩ none⟩] }
        settings := { autoCommit := false }
        inTransaction := true
        pending := ["INSERT INTO t VALUES (1)"] }
    let input : BatchInput := .texts ["INSERT INTO missing VALUES (2)"]
    TransactionContract Scripted.State.view Scripted.State.Sound ∧ s.Sound ∧
      (Scripted.State.view.ledger s).transaction = some ["INSERT INTO t VALUES (1)"] ∧
      (∃ failure, (execute {} input {} .none s).1 =
        .ok { state := .rolledBack, failure := some failure }) ∧
      "INSERT INTO t VALUES (1)" ∉
        (Scripted.State.view.ledger (execute {} input {} .none s).2).durable ∧
      "INSERT INTO t VALUES (1)" ∉
        (Scripted.State.view.ledger (execute {} input {} .none s).2).pending :=
  ⟨Scripted.State.contract, ⟨fun h => Bool.noConfusion h, List.not_mem_nil⟩, rfl, ⟨_, rfl⟩,
    List.not_mem_nil, List.not_mem_nil⟩

/-! ### Batches that were not committed -/

/-- What waits when the guard brings the settings back is a beginning of the batch, and nothing at
all if the transaction was never left open or could be aborted. -/
theorem restoring_ledger (contract : TransactionContract view Valid) (attributes : Attributes)
    (statements : List BoundStatement) {s : σ} (hs : Valid s)
    (hidle : (view.ledger s).transaction = none)
    (hreply : ¬ Committed (executeTransactional attributes statements s).1) :
    let u := SettingsGuard.restoring transactionSettings (inTransaction attributes statements) s
    Valid u ∧ (view.ledger u).durable = (view.ledger s).durable ∧
      (view.ledger u).pending <+: view.effects attributes statements ∧
      ((view.ledger u).pending ≠ [] → ∃ s₁ reply t e,
        applySettings transactionSettings s = (.ok (), s₁) ∧
        inTransaction attributes statements s₁ = ((reply, true), t) ∧
        abort t = (.error e, u)) := by
  have hvalid := contract.applySettings_valid transactionSettings hs
  have hledger := transactionSettings_ledger contract hs
  rcases happly : applySettings transactionSettings s with ⟨e | ⟨⟩, s₁⟩ <;>
    rw [happly] at hvalid hledger <;> simp only [SettingsGuard.restoring, happly]
  · rw [hledger, Ledger.pending, hidle]
    exact ⟨hvalid, rfl, List.nil_prefix, fun h => absurd rfl h⟩
  · rw [executeTransactional_fst_of_applySettings happly] at hreply
    rw [← hledger] at hidle ⊢
    obtain ⟨hvalid, hleaves⟩ := inTransaction_leaves contract attributes statements hvalid hreply
    rcases hbody : inTransaction attributes statements s₁ with ⟨⟨reply, flag⟩, t⟩
    rw [hbody] at hvalid hleaves
    obtain ⟨hdurable, hbegun, hnothing⟩ := hleaves.beginning hidle
    cases flag with
    | false => exact ⟨hvalid, hdurable, hbegun, fun h => absurd (hnothing rfl) h⟩
    | true =>
        have habort := contract.abort_ledger hvalid
        rw [if_pos rfl]
        rcases h : abort t with ⟨e | ⟨⟩, u⟩ <;> rw [h] at habort
        · rw [show view.ledger u = view.ledger t from habort]
          exact ⟨h ▸ contract.abort_valid hvalid, hdurable, hbegun,
            fun _ => ⟨s₁, reply, t, e, rfl, hbody, h⟩⟩
        · rw [show view.ledger u = (view.ledger t).undone from habort]
          exact ⟨h ▸ contract.abort_valid hvalid, hdurable, List.nil_prefix, fun h => absurd rfl h⟩

/-- **What a batch leaves that is not committed is decided when the settings come back.** Nothing of
it is lasting before. A beginning of it may wait then, but only if its transaction was left open and
could not be aborted either; and what waits becomes lasting exactly if automatic commits are
switched back on. -/
theorem execute_not_committed (contract : TransactionContract view Valid) (options : BatchOptions)
    (input : BatchInput) (attributes : Attributes) (binds : BindValues)
    {statements : List BoundStatement} (hrollback : options.rollback = true)
    (hbound : input.bound options.splitter binds = .ok statements) (hne : statements ≠ []) {s : σ}
    (hs : Valid s) (hidle : (view.ledger s).transaction = none)
    (hreply : ¬ Committed (execute options input attributes binds s).1) :
    let u := SettingsGuard.restoring transactionSettings (inTransaction attributes statements) s
    (view.ledger u).durable = (view.ledger s).durable ∧
      (view.ledger u).pending <+: view.effects attributes statements ∧
      ((view.ledger u).pending ≠ [] → ∃ s₁ reply t e,
        applySettings transactionSettings s = (.ok (), s₁) ∧
        inTransaction attributes statements s₁ = ((reply, true), t) ∧
        abort t = (.error e, u)) ∧
      view.ledger (execute options input attributes binds s).2 =
        (view.ledger u).after (if autoCommit s then Ledger.committed else id)
          (.ofExcept (setAutoCommit (autoCommit s) u).1) := by
  intro u
  rw [execute_eq_executeTransactional hrollback hbound hne s] at hreply ⊢
  obtain ⟨hvalid, hdurable, hbegun, hstuck⟩ :=
    restoring_ledger contract attributes statements hs hidle hreply
  refine ⟨hdurable, hbegun, hstuck, ?_⟩
  rw [executeTransactional_snd, SettingsGuard.during_eq_applySettings,
    contract.applySettings_ledger_eq (settings s) hvalid]
  rfl

/-- Two insertions on a connection without automatic commits that refuses to commit, to roll back
and to abort: both wait, and neither lasts. -/
theorem execute_not_committed_manual :
    let s : Scripted.State :=
      { script := { refused := [.commit, .rollback, .abort] }, settings := { autoCommit := false } }
    let input : BatchInput := .texts ["INSERT INTO t VALUES (1)", "INSERT INTO t VALUES (2)"]
    TransactionContract Scripted.State.view (Scripted.State.Tidy fun _ => True) ∧
      s.Tidy (fun _ => True) ∧ (Scripted.State.view.ledger s).transaction = none ∧
      (execute {} input {} .none s).1 =
        .failed (.connection ⟨.transaction, "commit refused"⟩) ∧
      Scripted.State.view.ledger (execute {} input {} .none s).2 =
        ⟨[], some ["INSERT INTO t VALUES (1)", "INSERT INTO t VALUES (2)"]⟩ := by
  intro s input
  have contract := Scripted.State.contractOf fun _ => True
  have hs : s.Tidy fun _ => True := ⟨fun _ => rfl, trivial⟩
  have hreply : (execute {} input {} .none s).1 =
      .failed (.connection ⟨.transaction, "commit refused"⟩) := rfl
  obtain ⟨-, -, -, hledger⟩ := execute_not_committed contract {} input {} .none rfl rfl
    (List.cons_ne_nil _ _) hs rfl (by rw [hreply]; exact not_committed_failed _)
  exact ⟨contract, hs, rfl, hreply, hledger.trans rfl⟩

/-- So to bring the settings back may commit a part of a batch: the second of two insertions fails,
the transaction can neither be rolled back nor be aborted, and the first insertion lasts. -/
theorem execute_not_committed_durable :
    let s : Scripted.State :=
      { script :=
          { rules := [⟨"missing", .fail ⟨.query, "mock failure"⟩ none⟩]
            refused := [.rollback, .abort] } }
    let input : BatchInput := .texts ["INSERT INTO t VALUES (1)", "INSERT INTO missing VALUES (2)"]
    TransactionContract Scripted.State.view (Scripted.State.Tidy fun _ => True) ∧
      s.Tidy (fun _ => True) ∧ Scripted.State.view.ledger s = ⟨[], none⟩ ∧
      ¬ Committed (execute {} input {} .none s).1 ∧
      (Scripted.State.view.ledger (execute {} input {} .none s).2).durable =
        ["INSERT INTO t VALUES (1)"] :=
  ⟨Scripted.State.contractOf fun _ => True, ⟨fun _ => rfl, trivial⟩, rfl, not_committed_failed _,
    rfl⟩

end Batch

end SqlBatch
