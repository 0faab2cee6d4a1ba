import SqlBatch.Batch.Execute
import SqlBatch.Proofs.Connection.Scope

/-!
# Batches in a transaction are done as a whole or not at all

On a connection that keeps the contract and can abort, a batch in a transaction of its own has all
its effects last, in their order, exactly when it reports that it was committed. On every other way
out, a call cut off included, nothing of it lasts, and on every way out no transaction is open and
nothing waits.

The guard is what makes this so. As long as its flag is set when the transaction may be open,
releasing it undoes what is left, and then to switch automatic commits back on has nothing to
commit.
-/

namespace SqlBatch

variable {σ ε : Type} {view : LedgerView σ ε} {Valid : σ → Prop}

def LedgerView.effects (view : LedgerView σ ε) (attributes : Attributes)
    (statements : List (Statement × List Value)) : List ε :=
  statements.map fun (statement, values) => view.effect statement.text attributes values

namespace Batch

/-! ### What a batch says and what it leaves -/

def Committed (reply : Reply BatchError BatchResult) : Prop :=
  ∃ result, reply = .ok result ∧ result.state = .committed

/-- The ways out of a batch in a transaction. -/
inductive Exit : Reply BatchError BatchResult → Prop
  | committed (outcomes : List StatementOutcome) : Exit (.ok { outcomes, state := .committed })
  | rolledBack (failure : StatementFailure) :
      Exit (.ok { state := .rolledBack, failure := some failure })
  | rollbackFailed (failure : StatementFailure) (source : ConnectionError) :
      Exit (.failed (.rollback failure source))
  /-- The settings could not be changed, or the transaction could not be opened or committed. -/
  | connection (source : ConnectionError) : Exit (.failed (.connection source))
  /-- A call never came back. -/
  | interrupted (i : Interruption) : Exit (.interrupted i)

theorem not_committed_failed (e : BatchError) : ¬ Committed (.failed e) := by
  rintro ⟨result, h, _⟩
  cases h

theorem not_committed_interrupted (i : Interruption) : ¬ Committed (.interrupted i) := by
  rintro ⟨result, h, _⟩
  cases h

private theorem not_committed_rolledBack (failure : StatementFailure) :
    ¬ Committed (.ok { state := .rolledBack, failure := some failure }) := by
  rintro ⟨result, h, hstate⟩
  cases h
  cases hstate

/-- What a run through statements leaves of the transaction in which it started: still open, nothing
of it lasting yet, and the effects of the first statements waiting in their order, or of all of them
if no statement failed. -/
structure Waits (view : LedgerView σ ε) (before : Ledger ε) (waiting effects : List ε) (r : Run)
    (s : σ) : Prop where
  durable : (view.ledger s).durable = before.durable
  begun : ∃ done, done <+: effects ∧ (view.ledger s).transaction = some (waiting ++ done)
  finished : ∀ outcomes, r = .finished outcomes →
    (view.ledger s).transaction = some (waiting ++ effects)

theorem Waits.of_unharmed {before : Ledger ε} {waiting effects : List ε} {r : Run} {s : σ}
    (h : before.Unharmed (view.ledger s)) (hopen : before.transaction = some waiting)
    (hr : ∀ outcomes, r ≠ .finished outcomes) : Waits view before waiting effects r s where
  durable := h.durable
  begun := ⟨[], List.nil_prefix, by rw [List.append_nil, h.transaction_eq hopen]⟩
  finished outcomes hrun := absurd hrun (hr outcomes)

/-- What a batch leaves behind: a reply that agrees with what has become lasting, and a transaction
that is open only where the flag says so. -/
structure Settled (view : LedgerView σ ε) (before effects : List ε)
    (reply : Reply BatchError BatchResult) (flag : Bool) (s : σ) : Prop where
  exit : Exit reply
  closed : flag = false → (view.ledger s).transaction = none
  lasting : Committed reply → (view.ledger s).durable = before ++ effects
  nothing : ¬ Committed reply → (view.ledger s).durable = before

theorem Settled.of_not_committed {before effects : List ε} {reply : Reply BatchError BatchResult}
    {flag : Bool} {s : σ} (hexit : Exit reply) (hreply : ¬ Committed reply)
    (hclosed : flag = false → (view.ledger s).transaction = none)
    (hdurable : (view.ledger s).durable = before) : Settled view before effects reply flag s :=
  ⟨hexit, hclosed, fun h => absurd h hreply, fun _ => hdurable⟩

end Batch

/-! ### Guards -/

open Connection

variable [Connection σ]

namespace SettingsGuard

theorem release_ledger (contract : TransactionContract view Valid)
    (aborts : ∀ s, Valid s → (abort s).1 = .ok ()) (guard : SettingsGuard) {s : σ} (hs : Valid s)
    (hflag : guard.transactionOpen = false → (view.ledger s).transaction = none) :
    view.ledger (guard.release s) = (view.ledger s).undone := by
  cases hopen : guard.transactionOpen with
  | false =>
      have hclosed := hflag hopen
      simp only [release, hopen]
      rw [if_neg Bool.false_ne_true, contract.applySettings_ledger guard.saved hs hclosed,
        Ledger.undone, ← hclosed]
  | true => exact release_ledger_of_open contract hopen hs (aborts s hs)

private theorem apply_ledger (contract : TransactionContract view Valid)
    (aborts : ∀ s, Valid s → (abort s).1 = .ok ()) (new : ConnectionSettings) {s : σ} (hs : Valid s)
    (hclosed : (view.ledger s).transaction = none) :
    view.ledger (apply new s).2 = view.ledger s := by
  have hvalid := contract.applySettings_valid new hs
  have hledger := contract.applySettings_ledger new hs hclosed
  rcases h : applySettings new s with ⟨e | ⟨⟩, s'⟩ <;> simp only [apply, h] at hvalid hledger ⊢
  · rw [release_ledger contract aborts _ hvalid fun _ => hledger ▸ hclosed, hledger, Ledger.undone,
      ← hclosed]
  · exact hledger

private theorem apply_valid (contract : TransactionContract view Valid) {new : ConnectionSettings}
    {guard : SettingsGuard} {s s' : σ} (hs : Valid s) (h : apply new s = (.ok guard, s')) :
    Valid s' := by
  have hvalid := contract.applySettings_valid new hs
  rcases hsettings : applySettings new s with ⟨e | ⟨⟩, t⟩ <;>
    simp only [apply, hsettings, Prod.mk.injEq, reduceCtorEq, false_and] at h hvalid
  exact h.2 ▸ hvalid

end SettingsGuard

/-! ### Batches -/

namespace Batch

private theorem Run.after_eq_finished {outcome : StatementOutcome} {run : Run}
    {outcomes : List StatementOutcome} (h : run.after outcome = .finished outcomes) :
    ∃ others, run = .finished others := by
  cases run with
  | finished others => exact ⟨others, rfl⟩
  | failed others failure => cases h
  | interrupted i => cases h

/-- Statements that run in an open transaction wait there, and nothing becomes lasting meanwhile. -/
theorem run_waits (contract : TransactionContract view Valid) (attributes : Attributes)
    (statements : List BoundStatement) (index : Nat) {s : σ} {waiting : List ε} (hs : Valid s)
    (hopen : (view.ledger s).transaction = some waiting) :
    Valid (run attributes index statements s).2 ∧
      Waits view (view.ledger s) waiting (view.effects attributes statements)
        (run attributes index statements s).1 (run attributes index statements s).2 := by
  induction statements generalizing index s waiting with
  | nil =>
      rw [run]
      exact ⟨hs, rfl, ⟨[], List.nil_prefix, by rw [List.append_nil, hopen]⟩,
        fun _ _ => by simpa [LedgerView.effects] using hopen⟩
  | cons statement rest ih =>
      obtain ⟨statement, values⟩ := statement
      have hvalid := contract.execute_valid statement.text attributes values hs
      rcases h : Connection.execute statement.text attributes values s with ⟨result | e | i, s'⟩ <;>
        simp only [run, h] at hvalid ⊢
      · have hledger := contract.execute_ok hs h
        rw [Ledger.recorded_of_open _ _ hopen] at hledger
        obtain ⟨hvalid', hwaits⟩ := ih (index + 1) hvalid (congrArg Ledger.transaction hledger)
        obtain ⟨done, hdone, hbegun⟩ := hwaits.begun
        rw [List.append_assoc] at hbegun
        refine ⟨hvalid', hwaits.durable.trans (by rw [hledger]),
          ⟨_, List.cons_prefix_cons.mpr ⟨rfl, hdone⟩, hbegun⟩, ?_⟩
        intro outcomes hrun
        obtain ⟨others, hothers⟩ := Run.after_eq_finished hrun
        rw [hwaits.finished others hothers, List.append_assoc]
        rfl
      · exact ⟨hvalid, .of_unharmed (contract.execute_failed hs h) hopen (by simp)⟩
      · exact ⟨hvalid, .of_unharmed (contract.execute_interrupted hs h) hopen (by simp)⟩

/-- After a rollback, whether it succeeds or not, nothing more is lasting than before; and the flag
that it succeeded tells that no transaction is open. -/
theorem rollback_settled (contract : TransactionContract view Valid) {effects : List ε} {s s' : σ}
    {r : Reply ConnectionError Unit} (hs : Valid s) (h : rollback s = (r, s'))
    {reply : Reply BatchError BatchResult} {flag : Bool} (hexit : Exit reply)
    (hreply : ¬ Committed reply) (hflag : flag = false → r = .ok ()) :
    Valid s' ∧ Settled view (view.ledger s).durable effects reply flag s' := by
  have hvalid := contract.rollback_valid hs
  have hledger := contract.rollback_ledger hs
  rw [h] at hvalid hledger
  refine ⟨hvalid, .of_not_committed hexit hreply (fun hf => ?_) ?_⟩
  · rw [hledger, hflag hf]
    rfl
  · rw [hledger]
    cases r <;> rfl

/-- The transaction of a batch settles what is lasting before the guard is released. -/
theorem inTransaction_settled (contract : TransactionContract view Valid) (attributes : Attributes)
    (statements : List BoundStatement) {s : σ} (hs : Valid s)
    (hclosed : (view.ledger s).transaction = none) :
    Valid (inTransaction attributes statements s).2 ∧
      Settled view (view.ledger s).durable (view.effects attributes statements)
        (inTransaction attributes statements s).1.1 (inTransaction attributes statements s).1.2
        (inTransaction attributes statements s).2 := by
  have hvalid := contract.begin_valid hs
  have hbegin := contract.begin_ledger hs
  rcases h : begin s with ⟨⟨⟩ | e | i, s₁⟩ <;> simp only [inTransaction, h] at hvalid hbegin ⊢
  · have hopen : (view.ledger s₁).transaction = some [] := by
      rw [hbegin, Ledger.after_ok, Ledger.opened, Ledger.pending, hclosed]
      rfl
    have hdurable : (view.ledger s₁).durable = (view.ledger s).durable := by
      rw [hbegin]
      rfl
    obtain ⟨hvalid, hwaits⟩ := run_waits contract attributes statements 0 hvalid hopen
    rcases hrun : run attributes 0 statements s₁ with ⟨outcomes | ⟨outcomes, failure⟩ | i, s₂⟩ <;>
      simp only [hrun] at hvalid hwaits ⊢ <;>
      rw [← hdurable, ← hwaits.durable]
    · -- All statements succeeded, and the commit decides.
      have hvalid₃ := contract.commit_valid hvalid
      have hcommit := contract.commit_ledger hvalid
      rcases hc : commit s₂ with ⟨⟨⟩ | e | i, s₃⟩ <;> simp only [hc] at hvalid₃ hcommit ⊢
      · have hpending : (view.ledger s₂).pending = view.effects attributes statements := by
          rw [Ledger.pending, hwaits.finished outcomes rfl]
          rfl
        rw [Ledger.after_ok, Ledger.committed, hpending] at hcommit
        exact ⟨hvalid₃, .committed outcomes, fun _ => by rw [hcommit], fun _ => by rw [hcommit],
          fun hnot => absurd ⟨_, rfl, rfl⟩ hnot⟩
      · rw [Ledger.after_failed] at hcommit
        rw [← hcommit]
        rcases hr : rollback s₃ with ⟨⟨⟩ | e' | i, s₄⟩
        · exact rollback_settled contract hvalid₃ hr (.connection e) (not_committed_failed _)
            fun _ => rfl
        · exact rollback_settled contract hvalid₃ hr (.connection e) (not_committed_failed _)
            (by simp)
        · exact rollback_settled contract hvalid₃ hr (.interrupted i) (not_committed_interrupted i)
            (by simp)
      · rw [Ledger.after_interrupted] at hcommit
        exact ⟨hvalid₃, .of_not_committed (.interrupted i) (not_committed_interrupted i) (by simp)
          (by rw [hcommit])⟩
    · -- A statement failed, and the transaction is rolled back.
      rcases hr : rollback s₂ with ⟨⟨⟩ | e | i, s₃⟩
      · exact rollback_settled contract hvalid hr (.rolledBack failure)
          (not_committed_rolledBack failure) fun _ => rfl
      · exact rollback_settled contract hvalid hr (.rollbackFailed failure e)
          (not_committed_failed _) (by simp)
      · exact rollback_settled contract hvalid hr (.interrupted i) (not_committed_interrupted i)
          (by simp)
    · exact ⟨hvalid, .of_not_committed (.interrupted i) (not_committed_interrupted i) (by simp) rfl⟩
  · rw [Ledger.after_failed] at hbegin
    exact ⟨hvalid, .of_not_committed (.connection e) (not_committed_failed _)
      (fun _ => hbegin ▸ hclosed) (by rw [hbegin])⟩
  · rw [Ledger.after_interrupted] at hbegin
    exact ⟨hvalid, .of_not_committed (.interrupted i) (not_committed_interrupted i)
      (fun _ => hbegin ▸ hclosed) (by rw [hbegin])⟩

theorem executeTransactional_settled (contract : TransactionContract view Valid)
    (aborts : ∀ s, Valid s → (abort s).1 = .ok ()) (attributes : Attributes)
    (statements : List BoundStatement) {s : σ} (hs : Valid s)
    (hclosed : (view.ledger s).transaction = none) :
    Settled view (view.ledger s).durable (view.effects attributes statements)
      (executeTransactional attributes statements s).1 false
      (executeTransactional attributes statements s).2 := by
  have happly := SettingsGuard.apply_ledger contract aborts transactionSettings hs hclosed
  rcases h : SettingsGuard.apply transactionSettings s with ⟨e | guard, s₁⟩ <;>
    simp only [executeTransactional, SettingsGuard.during, h] at happly ⊢
  · exact .of_not_committed (.connection e) (not_committed_failed _) (fun _ => happly ▸ hclosed)
      (by rw [happly])
  · have hvalid := SettingsGuard.apply_valid contract hs h
    rw [← happly] at hclosed ⊢
    obtain ⟨hvalid, hsettled⟩ := inTransaction_settled contract attributes statements hvalid hclosed
    have hrelease := SettingsGuard.release_ledger contract aborts
      { guard with transactionOpen := (inTransaction attributes statements s₁).1.2 } hvalid
      hsettled.closed
    exact ⟨hsettled.exit, fun _ => by rw [hrelease, Ledger.undone],
      fun hc => by rw [hrelease]; exact hsettled.lasting hc,
      fun hc => by rw [hrelease]; exact hsettled.nothing hc⟩

theorem execute_eq_executeTransactional {options : BatchOptions} {input : BatchInput}
    {attributes : Attributes} {binds : BindValues} {statements : List BoundStatement}
    (hrollback : options.rollback = true)
    (hbound : input.bound options.splitter binds = .ok statements) (hne : statements ≠ []) (s : σ) :
    execute options input attributes binds s = executeTransactional attributes statements s := by
  obtain ⟨first, rest, rfl⟩ := List.exists_cons_of_ne_nil hne
  simp only [execute, hbound, if_pos hrollback]

/-- **A batch in a transaction is durable as a whole exactly when it is committed.** On every other
way out it leaves nothing lasting, and on no way out does it leave a transaction open or anything
waiting in one. -/
theorem execute_all_or_nothing (contract : TransactionContract view Valid)
    (aborts : ∀ s, Valid s → (abort s).1 = .ok ()) (options : BatchOptions) (input : BatchInput)
    (attributes : Attributes) (binds : BindValues) {statements : List BoundStatement}
    (hrollback : options.rollback = true)
    (hbound : input.bound options.splitter binds = .ok statements) (hne : statements ≠ [])
    {s : σ} (hs : Valid s) (hidle : (view.ledger s).transaction = none) :
    Exit (execute options input attributes binds s).1 ∧
      ((view.ledger (execute options input attributes binds s).2).durable =
          (view.ledger s).durable ++ view.effects attributes statements ↔
        Committed (execute options input attributes binds s).1) ∧
      (¬ Committed (execute options input attributes binds s).1 →
        (view.ledger (execute options input attributes binds s).2).durable =
          (view.ledger s).durable) ∧
      (view.ledger (execute options input attributes binds s).2).transaction = none ∧
      (view.ledger (execute options input attributes binds s).2).pending = [] := by
  rw [execute_eq_executeTransactional hrollback hbound hne s]
  have h := executeTransactional_settled contract aborts attributes statements hs hidle
  refine ⟨h.exit, ⟨fun hall => ?_, h.lasting⟩, h.nothing, h.closed rfl, ?_⟩
  · refine Classical.byContradiction fun hnot => ?_
    rw [h.nothing hnot] at hall
    have hempty : view.effects attributes statements = [] := List.self_eq_append_right.mp hall
    exact hne (List.map_eq_nil_iff.mp hempty)
  · rw [Ledger.pending, h.closed rfl]
    rfl

/-- Two insertions on a connection that refuses to commit and to roll back: nothing is left of
them. -/
theorem execute_all_or_nothing_refused :
    let s : Scripted.State :=
      { script := { refused := [.commit, .rollback] }, durable := ["DELETE FROM t"] }
    let input : BatchInput := .texts ["INSERT INTO t VALUES (1)", "INSERT INTO t VALUES (2)"]
    TransactionContract Scripted.State.view Scripted.State.Sound ∧
      (∀ s : Scripted.State, s.Sound → (abort s).1 = .ok ()) ∧ s.Sound ∧
      (Scripted.State.view.ledger s).transaction = none ∧
      (execute {} input {} .none s).1 =
        .failed (.connection ⟨.transaction, "commit refused"⟩) ∧
      (Scripted.State.view.ledger (execute {} input {} .none s).2).durable = ["DELETE FROM t"] ∧
      (Scripted.State.view.ledger (execute {} input {} .none s).2).transaction = none := by
  intro s input
  have hs : s.Sound := ⟨fun _ => rfl, by decide⟩
  have hreply : (execute {} input {} .none s).1 =
      .failed (.connection ⟨.transaction, "commit refused"⟩) := rfl
  obtain ⟨-, -, hnothing, hclosed, -⟩ := execute_all_or_nothing Scripted.State.contract
    (fun _ => Scripted.State.abort_ok) {} input {} .none rfl rfl (List.cons_ne_nil _ _) hs rfl
  refine ⟨Scripted.State.contract, fun _ => Scripted.State.abort_ok, hs, rfl, hreply,
    hnothing ?_, hclosed⟩
  rw [hreply]
  exact not_committed_failed _

end Batch

end SqlBatch
