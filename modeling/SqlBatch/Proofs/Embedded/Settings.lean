import SqlBatch.Proofs.Batch.Mirrored
import SqlBatch.Proofs.Batch.Scope
import SqlBatch.Proofs.Embedded.Transactions

/-!
# Settings of the embedded database after a batch

To switch automatic commits on, a connection commits the open transaction, and that is the only call
of a batch's guard that can fail. What the body of a batch leaves decides whether it does: a body
that tells the guard of no transaction leaves none open, and where it tells of one, the guard has it
rolled back first. So the switch fails on an open connection only if the database has refused to roll
the transaction back, and then refuses to commit it as well.

Without a session the switch fails even though there is nothing to commit. A batch on a closed
connection is refused only after automatic commits were switched off, which does succeed, so a
connection that had them on never gets them back.
-/

namespace SqlBatch

namespace Embedded

namespace Client

open Batch Connection

variable {ε δ : Type} [Engine ε] {c : Client ε} {s : ε}

/-! ### What the body of a batch leaves alone -/

def frame (c : Client ε) : Bool × ConnectionSettings := (c.session.isSome, c.settings)

private theorem begin_frame (c : Client ε) : c.begin.2.frame = c.frame := by
  unfold begin
  split
  · rfl
  · rename_i s hsession
    split
    · rfl
    · split <;> simp [frame, hsession]

private theorem finish_frame (c : Client ε) (name : String)
    (command : ε → Except DatabaseError Unit × ε) :
    (c.finish name command).2.frame = c.frame := by
  unfold finish
  split
  · rfl
  · rename_i s hsession
    split
    · rfl
    · split <;> simp [frame, hsession]

private theorem runIn_frame (c : Client ε) (s : ε) (sql : String) (limit : Option Nat)
    (values : List Value) : (c.runIn s sql limit values).2.frame = (true, c.settings) := by
  obtain ⟨s', -, hsession, hsettings⟩ := runIn_session c s sql limit values
  rw [frame, hsession, hsettings]
  rfl

private theorem execute_frame (sql : String) (attributes : Attributes) (values : List Value)
    (c : Client ε) : (c.execute sql attributes values).2.frame = c.frame := by
  unfold execute
  dsimp only
  split
  · rfl
  · rename_i s hsession
    have hframe : c.frame = (true, c.settings) := by rw [frame, hsession]; rfl
    rw [hframe]
    split
    · exact runIn_frame { c with lastError := none } s sql (Handle.rowLimit? attributes) values
    · split
      · exact runIn_frame { c with lastError := none } _ sql (Handle.rowLimit? attributes) values
      · rfl

private theorem run_frame (attributes : Attributes) (statements : List BoundStatement) (index : Nat)
    (c : Client ε) : (run attributes index statements c).2.frame = c.frame := by
  induction statements generalizing index c with
  | nil => rfl
  | cons statement rest ih =>
      obtain ⟨statement, values⟩ := statement
      have hexecute : (Connection.execute statement.text attributes values c).2.frame = c.frame :=
        execute_frame statement.text attributes values c
      rcases h : Connection.execute statement.text attributes values c with
          ⟨result | e | i, c'⟩ <;> simp only [run, h] at hexecute ⊢
      · rw [ih, hexecute]
      · exact hexecute
      · exact hexecute

private theorem run_ne_interrupted (attributes : Attributes) (statements : List BoundStatement)
    (index : Nat) (c : Client ε) (i : Interruption) :
    (run attributes index statements c).1 ≠ .interrupted i := by
  induction statements generalizing index c i with
  | nil => simp [run]
  | cons statement rest ih =>
      obtain ⟨statement, values⟩ := statement
      have hreply : Connection.execute statement.text attributes values c =
        reply (c.execute statement.text attributes values) := rfl
      rw [run, hreply]
      rcases c.execute statement.text attributes values with ⟨e | result, c'⟩ <;>
        dsimp only [reply, Reply.ofExcept]
      · simp
      · cases hrun : (run attributes (index + 1) rest c').1 with
        | finished | failed => simp [Run.after]
        | interrupted j => exact absurd hrun (ih (index + 1) c' j)

theorem settingsContract : SettingsContract (Client ε) where
  setAutoCommit_ok {c c' on} hset := by
    change c.setAutoCommit on = _ at hset
    unfold setAutoCommit at hset
    split at hset
    · rename_i hon
      split at hset
      · cases hset
        exact hon.symm
      · cases hset
    · rename_i hoff
      cases hset
      exact (Bool.not_eq_true on ▸ hoff).symm
  setStrictError_settings _ _ := rfl
  execute_settings sql attributes values c :=
    congrArg Prod.snd (execute_frame sql attributes values c)

/-! ### Transactions that are left open -/

def Idle (c : Client ε) : Prop := c.session.isSome ∧ c.inTransaction = false

/-- A transaction is open that the database neither rolls back nor, after that, commits. -/
def Jammed (c : Client ε) : Prop :=
  ∃ s, c.session = some s ∧ Engine.inTransaction s = true ∧ (Engine.rollback s).1 ≠ .ok () ∧
    (Engine.commit (Engine.rollback s).2).1 ≠ .ok ()

theorem Jammed.not_idle (h : c.Jammed) : ¬ c.Idle := by
  obtain ⟨s, hsession, hbusy, -⟩ := h
  rintro ⟨-, hidle⟩
  rw [inTransaction_of_session hsession, hbusy] at hidle
  cases hidle

theorem idle_of_finish (view : View ε δ) (hopen : c.session.isSome) {name : String}
    {command : ε → Except DatabaseError Unit × ε} {change : Rows δ → Rows δ}
    (hcommand : ∀ {s}, Engine.inTransaction s = true →
      view.rows (command s).2 = (view.rows s).after change (command s).1)
    (hchange : ∀ r, (change r).saved = none) {c' : Client ε}
    (hdone : c.finish name command = (.ok (), c')) : c'.Idle := by
  obtain ⟨s, hsession⟩ := Option.isSome_iff_exists.mp hopen
  rcases finish_cases view hsession name hcommand with
    ⟨hidle, hfinish⟩ | ⟨-, result, s', hfinish, hrows⟩
  · cases hfinish.symm.trans hdone
    exact ⟨hopen, by rw [inTransaction_of_session hsession, hidle]⟩
  · cases hfinish.symm.trans hdone
    refine ⟨rfl, ?_⟩
    rw [inTransaction, Option.any_some, view.inTransaction_eq,
      show view.rows s' = change (view.rows s) from hrows, hchange]
    rfl

private theorem idle_of_commit (view : View ε δ) (hopen : c.session.isSome) {c' : Client ε}
    (hdone : c.commit = (.ok (), c')) : c'.Idle :=
  idle_of_finish view hopen view.commit_rows (fun _ => rfl) hdone

theorem idle_of_rollback (view : View ε δ) (hopen : c.session.isSome) {c' : Client ε}
    (hdone : c.rollback = (.ok (), c')) : c'.Idle :=
  idle_of_finish view hopen view.rollback_rows (fun _ => rfl) hdone

private theorem idle_of_not_begun (view : View ε δ) (hopen : c.session.isSome) {e : ConnectionError}
    {c' : Client ε} (hdone : c.begin = (.error e, c')) : c'.Idle := by
  obtain ⟨s, hsession⟩ := Option.isSome_iff_exists.mp hopen
  rcases begin_cases view hsession with ⟨-, hbegin⟩ | ⟨hidle, result, s', hbegin, hrows⟩
  · cases hbegin.symm.trans hdone
  · cases hbegin.symm.trans hdone
    refine ⟨rfl, ?_⟩
    rw [inTransaction, Option.any_some, view.inTransaction_eq,
      show view.rows s' = view.rows s from hrows, saved_of_idle view hidle]
    rfl

/-! ### The switch that brings the settings back -/

theorem setAutoCommit_of_idle (h : c.Idle) (on : Bool) : (c.setAutoCommit on).1 = .ok () := by
  obtain ⟨hopen, hidle⟩ := h
  obtain ⟨s, hsession⟩ := Option.isSome_iff_exists.mp hopen
  rw [inTransaction_of_session hsession] at hidle
  cases on with
  | false => rfl
  | true =>
      have hcommit : c.commit = (.ok (), c) := finish_of_idle hsession hidle "COMMIT" _
      rw [setAutoCommit, if_pos rfl, hcommit]

private theorem setAutoCommit_of_closed (hclosed : isClosed c = true) :
    (c.setAutoCommit true).1 = .error Handle.closedError := by
  obtain ⟨_ | s, settings, lastError⟩ := c
  · rfl
  · cases hclosed

private theorem setAutoCommit_of_busy (hsession : c.session = some s)
    (hbusy : Engine.inTransaction s = true) :
    (c.setAutoCommit true).1 = .ok () ↔ (Engine.commit s).1 = .ok () := by
  rw [setAutoCommit, if_pos rfl, commit, finish, hsession]
  dsimp only
  rw [hbusy, Bool.not_true, if_neg Bool.false_ne_true]
  rcases Engine.commit s with ⟨e | ⟨⟩, s'⟩ <;> simp

private theorem rollback_of_busy (hsession : c.session = some s)
    (hbusy : Engine.inTransaction s = true) :
    c.rollback.2 = { c with session := some (Engine.rollback s).2 } := by
  rw [rollback, finish, hsession]
  dsimp only
  rw [hbusy, Bool.not_true, if_neg Bool.false_ne_true]
  rcases Engine.rollback s with ⟨e | ⟨⟩, s'⟩ <;> rfl

private theorem settings_of_setAutoCommit_error {on : Bool} {e : ConnectionError} {c' : Client ε}
    (h : c.setAutoCommit on = (.error e, c')) : c'.settings = c.settings := by
  have hsame : ((Call.setAutoCommit on).perform c).2.settings = c.settings := by
    refine perform_setAutoCommit_settings ?_
    change (c.setAutoCommit on).1.isOk = false
    rw [h]
    rfl
  change (c.setAutoCommit on).2.settings = c.settings at hsame
  rwa [h] at hsame

/-- After a rollback the switch fails only on a transaction that the database holds on to. -/
theorem setAutoCommit_rollback_iff (view : View ε δ) (hopen : c.session.isSome) :
    (c.rollback.2.setAutoCommit true).1 ≠ .ok () ↔ c.Jammed := by
  obtain ⟨s, hsession⟩ := Option.isSome_iff_exists.mp hopen
  cases hbusy : Engine.inTransaction s with
  | false =>
      have hidle : c.Idle := ⟨hopen, by rw [inTransaction_of_session hsession, hbusy]⟩
      have hrollback : c.rollback = (.ok (), c) := finish_of_idle hsession hbusy "ROLLBACK" _
      rw [hrollback]
      exact iff_of_false (not_not_intro (setAutoCommit_of_idle hidle true))
        fun h => h.not_idle hidle
  | true =>
      have hjammed : c.Jammed ↔ (Engine.rollback s).1 ≠ .ok () ∧
          (Engine.commit (Engine.rollback s).2).1 ≠ .ok () := by
        simp [Jammed, hsession, hbusy]
      have hrows := view.rollback_rows hbusy
      rw [hjammed, rollback_of_busy hsession hbusy]
      cases hdone : (Engine.rollback s).1 with
      | ok =>
          rw [hdone] at hrows
          have hidle : ({ c with session := some (Engine.rollback s).2 } : Client ε).Idle := by
            refine ⟨rfl, ?_⟩
            rw [inTransaction, Option.any_some, view.inTransaction_eq, hrows]
            rfl
          exact iff_of_false (not_not_intro (setAutoCommit_of_idle hidle true)) fun h => h.1 rfl
      | error e =>
          -- The transaction is still open, and the switch is to commit it.
          rw [hdone] at hrows
          have hstill : Engine.inTransaction (Engine.rollback s).2 = true := by
            rw [view.inTransaction_eq, hrows]
            exact saved_of_busy view hbusy
          rw [Ne, setAutoCommit_of_busy rfl hstill]
          simp

/-! ### The body of a batch -/

/-- What the body of a batch leaves on an open connection: no open transaction, unless the guard is
told of one, and then the body has failed. -/
structure LeftBy (c : Client ε) (answer : Reply BatchError BatchResult × Bool) (left : Client ε) :
    Prop where
  frame : left.frame = c.frame
  idle : answer.2 = false → left.Idle
  failed : answer.2 = true → ∃ e, answer.1 = .failed e

theorem LeftBy.ended {reply : Reply BatchError BatchResult} {left : Client ε}
    (hframe : left.frame = c.frame) (hidle : left.Idle) : LeftBy c (reply, false) left :=
  ⟨hframe, fun _ => hidle, nofun⟩

theorem LeftBy.told {e : BatchError} {left : Client ε} (hframe : left.frame = c.frame) :
    LeftBy c (.failed e, true) left :=
  ⟨hframe, nofun, fun _ => ⟨e, rfl⟩⟩

theorem inTransaction_leftBy (view : View ε δ) (attributes : Attributes)
    (statements : List BoundStatement) (hopen : c.session.isSome) :
    LeftBy c (Batch.inTransaction attributes statements c).1
      (Batch.inTransaction attributes statements c).2 := by
  have hopens {c' : Client ε} (hframe : c'.frame = c.frame) : c'.session.isSome :=
    (congrArg Prod.fst hframe).trans hopen
  have hbegin : Connection.begin c = reply c.begin := rfl
  have hcommit (c' : Client ε) : Connection.commit c' = reply c'.commit := rfl
  have hrollback (c' : Client ε) : Connection.rollback c' = reply c'.rollback := rfl
  have hframe₁ := begin_frame c
  rw [Batch.inTransaction, hbegin]
  rcases hdone₁ : c.begin with ⟨e | ⟨⟩, c₁⟩ <;> rw [hdone₁] at hframe₁ <;>
    dsimp only [reply, Reply.ofExcept]
  · exact .ended hframe₁ (idle_of_not_begun view hopen hdone₁)
  have hframe₂ := (run_frame attributes statements 0 c₁).trans hframe₁
  have hreturns := run_ne_interrupted attributes statements 0 c₁
  rcases hrun : run attributes 0 statements c₁ with ⟨outcomes | ⟨outcomes, failure⟩ | i, c₂⟩ <;>
    rw [hrun] at hframe₂ hreturns <;> dsimp only
  · have hframe₃ := (finish_frame c₂ "COMMIT" Engine.commit).trans hframe₂
    rw [hcommit, commit]
    rcases hdone₃ : c₂.finish "COMMIT" Engine.commit with ⟨e | ⟨⟩, c₃⟩ <;>
      rw [hdone₃] at hframe₃ <;> dsimp only [reply, Reply.ofExcept]
    · have hframe₄ := (finish_frame c₃ "ROLLBACK" Engine.rollback).trans hframe₃
      rw [hrollback, rollback]
      rcases hdone₄ : c₃.finish "ROLLBACK" Engine.rollback with ⟨e' | ⟨⟩, c₄⟩ <;>
        rw [hdone₄] at hframe₄ <;> dsimp only [reply, Reply.ofExcept]
      · exact .told hframe₄
      · exact .ended hframe₄ (idle_of_rollback view (hopens hframe₃) hdone₄)
    · exact .ended hframe₃ (idle_of_commit view (hopens hframe₂) hdone₃)
  · have hframe₃ := (finish_frame c₂ "ROLLBACK" Engine.rollback).trans hframe₂
    rw [hrollback, rollback]
    rcases hdone₃ : c₂.finish "ROLLBACK" Engine.rollback with ⟨e | ⟨⟩, c₃⟩ <;>
      rw [hdone₃] at hframe₃ <;> dsimp only [reply, Reply.ofExcept]
    · exact .told hframe₃
    · exact .ended hframe₃ (idle_of_rollback view (hopens hframe₂) hdone₃)
  · exact absurd rfl (hreturns i)

end Client

/-! ### The connection of this library -/

/-- A connection of this library is its client and a file besides. -/
def Handle.mirror : Mirror Handle (Client Session) where
  map := Handle.client
  execute_map sql attributes values h :=
    congrArg Client.reply (client_execute h sql attributes values)
  begin_map h := congrArg Client.reply (client_begin h)
  commit_map h := congrArg Client.reply (client_commit h)
  rollback_map h := congrArg Client.reply (client_rollback h)
  abort_map h := client_rollback h
  setAutoCommit_map on h := client_setAutoCommit h on
  setStrictError_map _ _ := rfl
  settings_map _ := rfl
  errorInfo_map _ := rfl

/-! ### A database that refuses -/

/-- A session of a database that opens transactions and then refuses to end them. -/
structure Refusing where
  busy : Bool := false

namespace Refusing

instance : Engine Refusing where
  inTransaction := busy
  begin _ := (.ok (), ⟨true⟩)
  commit s := (.error ⟨5, "database is locked"⟩, s)
  rollback s := (.error ⟨10, "disk I/O error"⟩, s)
  run _ _ _ s := (.ok (.affected 0), s)

def view : View Refusing Unit where
  rows s := ⟨(), if s.busy then some () else none⟩
  inTransaction_eq s := by
    obtain ⟨_ | _⟩ := s <;> rfl
  begin_rows _ := rfl
  commit_rows _ := rfl
  rollback_rows _ := rfl

end Refusing

end Embedded

namespace Batch

open Connection Embedded

variable {ε δ : Type} [Engine ε] {c : Client ε}

/-! ### Batches in a transaction -/

private theorem applySettings_transactionSettings (c : Client ε) :
    applySettings transactionSettings c = (.ok (), { c with settings := transactionSettings }) :=
  rfl

private theorem executeTransactional_fst (attributes : Attributes)
    (statements : List BoundStatement) (c : Client ε) :
    (executeTransactional attributes statements c).1 =
      (inTransaction attributes statements { c with settings := transactionSettings }).1.1 := by
  rw [executeTransactional, SettingsGuard.during, SettingsGuard.apply,
    applySettings_transactionSettings]

theorem inTransaction_closed (attributes : Attributes) (statements : List BoundStatement)
    (hclosed : isClosed c = true) : inTransaction attributes statements c =
      ((.failed (.connection Handle.closedError), false), c) := by
  obtain ⟨_ | s, settings, lastError⟩ := c
  · rfl
  · cases hclosed

theorem session_isSome_iff : c.session.isSome = true ↔ isClosed c ≠ true := by
  change c.session.isSome = true ↔ c.session.isNone ≠ true
  simp [Option.isSome_iff_ne_none]

private theorem restoring_settings (view : View ε δ) (attributes : Attributes)
    (statements : List BoundStatement) (c : Client ε) :
    settings (SettingsGuard.restoring transactionSettings (inTransaction attributes statements) c) =
      transactionSettings := by
  have hleft : (inTransaction attributes statements
      { c with settings := transactionSettings }).2.settings = transactionSettings := by
    by_cases hclosed : isClosed { c with settings := transactionSettings } = true
    · rw [inTransaction_closed attributes statements hclosed]
    · have hopen := session_isSome_iff.mpr hclosed
      exact congrArg Prod.snd (Client.inTransaction_leftBy view attributes statements hopen).frame
  simp only [SettingsGuard.restoring, applySettings_transactionSettings]
  split
  · exact (Client.finish_settings _ "ROLLBACK" Engine.rollback).trans hleft
  · exact hleft

/-- Automatic commits cannot be switched on again if the connection is closed, or if the database
holds on to the transaction of the batch. -/
theorem setAutoCommit_restoring_iff (view : View ε δ) (attributes : Attributes)
    (statements : List BoundStatement) (c : Client ε) :
    (setAutoCommit true (SettingsGuard.restoring transactionSettings
        (inTransaction attributes statements) c)).1 ≠ .ok () ↔
      isClosed c = true ∨ (inTransaction attributes statements
        { c with settings := transactionSettings }).2.Jammed := by
  simp only [SettingsGuard.restoring, applySettings_transactionSettings]
  by_cases hclosed : isClosed c = true
  · have hclosed' : isClosed { c with settings := transactionSettings } = true := hclosed
    refine iff_of_true ?_ (.inl hclosed)
    have hrefused := Client.setAutoCommit_of_closed hclosed'
    rw [inTransaction_closed attributes statements hclosed', if_neg Bool.false_ne_true]
    intro hok
    cases hrefused.symm.trans hok
  · have hopen : ({ c with settings := transactionSettings } : Client ε).session.isSome :=
      session_isSome_iff.mpr hclosed
    obtain ⟨hframe, hidle, -⟩ := Client.inTransaction_leftBy view attributes statements hopen
    rw [or_iff_right hclosed]
    split
    · exact Client.setAutoCommit_rollback_iff view ((congrArg Prod.fst hframe).trans hopen)
    · rename_i htold
      have hidle := hidle (Bool.not_eq_true _ ▸ htold)
      exact iff_of_false (not_not_intro (Client.setAutoCommit_of_idle hidle true))
        fun h => h.not_idle hidle

private theorem executeTransactional_settings_of_refused (view : View ε δ) (attributes : Attributes)
    (statements : List BoundStatement) (hauto : autoCommit c = true)
    (hrefused : (setAutoCommit true (SettingsGuard.restoring transactionSettings
      (inTransaction attributes statements) c)).1 ≠ .ok ()) :
    settings (executeTransactional attributes statements c).2 = transactionSettings := by
  have hsettings : (settings c).autoCommit = true := hauto
  have hbefore := restoring_settings view attributes statements c
  rw [executeTransactional_snd, SettingsGuard.during_eq_applySettings, applySettings, hsettings]
  generalize SettingsGuard.restoring transactionSettings (inTransaction attributes statements) c =
    restoring at hrefused hbefore ⊢
  rcases hset : setAutoCommit true restoring with ⟨e | ⟨⟩, c'⟩
  · exact (Client.settings_of_setAutoCommit_error hset).trans hbefore
  · rw [hset] at hrefused
    exact absurd rfl hrefused

/-- A batch with statements to run meets a connection that has automatic commits on, and that either
is closed or cannot end the transaction of the batch. -/
structure Stranded (options : BatchOptions) (input : BatchInput) (attributes : Attributes)
    (binds : BindValues) (c : Client ε) : Prop where
  autoCommit : autoCommit c = true
  bound : ∃ statements, input.bound options.splitter binds = .ok statements ∧ statements ≠ [] ∧
    (isClosed c = true ∨ (inTransaction attributes statements
      { c with settings := transactionSettings }).2.Jammed)

theorem Stranded.settings_eq (view : View ε δ) {options : BatchOptions} {input : BatchInput}
    {attributes : Attributes} {binds : BindValues}
    (h : Stranded options input attributes binds c) (hrollback : options.rollback = true) :
    settings (execute options input attributes binds c).2 = transactionSettings := by
  obtain ⟨hauto, statements, hbound, hne, hcause⟩ := h
  rw [execute_eq_executeTransactional hrollback hbound hne]
  exact executeTransactional_settings_of_refused view attributes statements hauto
    ((setAutoCommit_restoring_iff view attributes statements c).mpr hcause)

theorem Stranded.exists_failed (view : View ε δ) {options : BatchOptions} {input : BatchInput}
    {attributes : Attributes} {binds : BindValues}
    (h : Stranded options input attributes binds c) (hrollback : options.rollback = true) :
    ∃ e, (execute options input attributes binds c).1 = .failed e ∧
      (isClosed c = true → e = .connection Handle.closedError) := by
  obtain ⟨-, statements, hbound, hne, hcause⟩ := h
  rw [execute_eq_executeTransactional hrollback hbound hne, executeTransactional_fst]
  by_cases hclosed : isClosed c = true
  · have hclosed' : isClosed { c with settings := transactionSettings } = true := hclosed
    rw [inTransaction_closed attributes statements hclosed']
    exact ⟨_, rfl, fun _ => rfl⟩
  · have hopen : ({ c with settings := transactionSettings } : Client ε).session.isSome :=
      session_isSome_iff.mpr hclosed
    obtain ⟨-, hidle, hfailed⟩ := Client.inTransaction_leftBy view attributes statements hopen
    -- The guard was told of the transaction, because it is still open.
    have htold : (inTransaction attributes statements
        { c with settings := transactionSettings }).1.2 = true :=
      Bool.not_eq_false _ ▸ fun hflag => (hcause.resolve_left hclosed).not_idle (hidle hflag)
    obtain ⟨e, he⟩ := hfailed htold
    exact ⟨e, he, fun h => absurd h hclosed⟩

theorem settings_eq_of_not_stranded (view : View ε δ) {options : BatchOptions}
    {input : BatchInput} {attributes : Attributes} {binds : BindValues}
    (h : ¬Stranded options input attributes binds c) :
    settings (execute options input attributes binds c).2 = settings c := by
  refine execute_settings Client.settingsContract options input attributes binds c
    fun statements hbound hne _ => ?_
  cases hauto : autoCommit c with
  | false => rfl
  | true =>
      refine Classical.byContradiction fun hrefused => h ?_
      exact ⟨hauto, statements, hbound, hne,
        (setAutoCommit_restoring_iff view attributes statements c).mp hrefused⟩

/-- **Batches with rollback on leave the settings as they were, unless they meet a connection with
automatic commits on that is closed, or whose database refuses to roll the transaction of the batch
back and then to commit it.** Nothing is said of how the connection came to be as it is, and so this
holds after any calls before. -/
theorem execute_settings_unless_stranded (view : View ε δ) (options : BatchOptions)
    (input : BatchInput) (attributes : Attributes) (binds : BindValues) (c : Client ε)
    (hrollback : options.rollback = true) :
    (settings (execute options input attributes binds c).2 ≠ settings c ↔
      Stranded options input attributes binds c) ∧
    -- Then they are those of the transaction, and the batch has failed.
    (Stranded options input attributes binds c →
      settings (execute options input attributes binds c).2 = transactionSettings ∧
      ∃ e, (execute options input attributes binds c).1 = .failed e ∧
        (isClosed c = true → e = .connection Handle.closedError)) ∧
    -- Where the database rolls back every open transaction, only closed connections are met so.
    ((∀ s : ε, Engine.inTransaction s = true → (Engine.rollback s).1 = .ok ()) →
      (settings (execute options input attributes binds c).2 ≠ settings c ↔
        isClosed c = true ∧ autoCommit c = true ∧ ∃ statements,
          input.bound options.splitter binds = .ok statements ∧ statements ≠ [])) := by
  have hiff : settings (execute options input attributes binds c).2 ≠ settings c ↔
      Stranded options input attributes binds c := by
    refine ⟨fun hdiffer => ?_, fun hstranded hsame => ?_⟩
    · exact Classical.byContradiction fun hnot => hdiffer (settings_eq_of_not_stranded view hnot)
    · have hauto : (settings c).autoCommit = true := hstranded.autoCommit
      rw [← hsame, hstranded.settings_eq view hrollback] at hauto
      cases hauto
  refine ⟨hiff, fun hstranded => ⟨hstranded.settings_eq view hrollback,
    hstranded.exists_failed view hrollback⟩, fun hundoes => hiff.trans ⟨?_, ?_⟩⟩
  · rintro ⟨hauto, statements, hbound, hne, hclosed | ⟨s, -, hbusy, hstays, -⟩⟩
    · exact ⟨hclosed, hauto, statements, hbound, hne⟩
    · exact absurd (hundoes s hbusy) hstays
  · rintro ⟨hclosed, hauto, statements, hbound, hne⟩
    exact ⟨hauto, statements, hbound, hne, .inl hclosed⟩

/-- In the middle of a transaction the settings come back, and on the same connection, once it is
closed, they do not. Nor do they on an open connection to a database that refuses to end what it has
begun. -/
theorem execute_settings_unless_stranded_in_transaction :
    let h : Handle := { session := some { saved := some {} }, settings := ⟨true, true⟩ }
    let refusing : Client Refusing := { session := some {}, settings := ⟨true, false⟩ }
    let options : BatchOptions := { rollback := true }
    let input : BatchInput := .texts ["SELECT 1"]
    options.rollback = true ∧ h.inTransaction = true ∧
      (∀ s : Session, Engine.inTransaction s = true → (Engine.rollback s).1 = .ok ()) ∧
      settings (execute options input {} .none h).2 = ⟨true, true⟩ ∧
      (execute options input {} .none h.close).1 = .failed (.connection Handle.closedError) ∧
      settings (execute options input {} .none h.close).2 = ⟨false, true⟩ ∧
      isClosed refusing = false ∧
      settings (execute options input {} .none refusing).2 = ⟨false, true⟩ := by
  intro h refusing options input
  have hundoes (s : Session) (hbusy : Engine.inTransaction s = true) :
      (Engine.rollback s).1 = .ok () := by
    obtain ⟨saved, hsaved⟩ := Option.isSome_iff_exists.mp hbusy
    change s.rollback.1 = .ok ()
    rw [Session.rollback, hsaved]
  have hreply (h : Handle) : (execute options input {} .none h.client).1 =
    (execute options input {} .none h).1 := Handle.mirror.execute_map_reply ..
  have hsettings (h : Handle) : settings (execute options input {} .none h.client).2 =
    settings (execute options input {} .none h).2 := Handle.mirror.execute_map_settings ..
  obtain ⟨-, -, hdiffer⟩ :=
    execute_settings_unless_stranded Session.view options input {} .none h.client rfl
  obtain ⟨-, hclosed, -⟩ :=
    execute_settings_unless_stranded Session.view options input {} .none h.close.client rfl
  obtain ⟨-, hjammed, -⟩ :=
    execute_settings_unless_stranded Refusing.view options input {} .none refusing rfl
  have hbefore : settings h.client = ⟨true, true⟩ := rfl
  have hopen : isClosed h.client = false := rfl
  rw [hsettings, hbefore, hopen] at hdiffer
  have hback : settings (execute options input {} .none h).2 = ⟨true, true⟩ :=
    Classical.byContradiction fun hne => Bool.false_ne_true ((hdiffer hundoes).mp hne).1
  rw [hsettings, hreply] at hclosed
  obtain ⟨hlost, e, hfailed, herror⟩ :=
    hclosed ⟨rfl, _, rfl, List.cons_ne_nil _ _, .inl rfl⟩
  rw [herror rfl] at hfailed
  obtain ⟨hleft, -⟩ := hjammed ⟨rfl, _, rfl, List.cons_ne_nil _ _, .inr ⟨_, rfl, rfl, nofun, nofun⟩⟩
  exact ⟨rfl, rfl, hundoes, hback, hfailed, hlost, rfl, hleft⟩

/-- A connection that was opened and closed has automatic commits on. After a batch on it they are
off, and the errors of statements are strict. -/
theorem execute_settings_stranded_closed :
    ∃ opened closed : Handle, Handle.openPath {} ":memory:" = .ok opened ∧
      Connection.close opened = (.ok (), closed) ∧ settings closed = ⟨true, false⟩ ∧
      settings (execute { rollback := true } (.texts ["SELECT 1"]) {} .none closed).2 =
        ⟨false, true⟩ :=
  ⟨_, _, rfl, rfl, rfl, rfl⟩

end Batch

end SqlBatch
