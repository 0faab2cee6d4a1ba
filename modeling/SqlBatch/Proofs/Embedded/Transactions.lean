import SqlBatch.Proofs.Embedded.Client

/-!
# Transactions of the embedded database

Three things decide what a call does to the rows of a database: whether automatic commits are on,
whether a transaction is open, and which rows were there when it was opened. They change on their
own, and are tied together by the transaction that a statement opens where automatic commits are off.

`Effect` says all that a call can do, given the commands of the database as they are documented. What
holds after any calls is read off it: which call may change the rows that are committed, and that a
transaction is undone to the rows that were there before the call that opened it.
-/

namespace SqlBatch

namespace Embedded

open Call

/-! ### What a call does to the rows -/

/-- All that a call can do to the rows, given whether automatic commits are on and whether the call
succeeds. -/
inductive Effect {δ : Type} (auto : Bool) (r : Rows δ) : Call → Bool → Rows δ → Prop
  | beginBusy (busy : r.saved.isSome) : Effect auto r .begin true r
  | begin (idle : r.saved = none) : Effect auto r .begin true r.opened
  | beginFailed (idle : r.saved = none) : Effect auto r .begin false r
  | endIdle {call : Call} (ends : (call.keeps || call.undoes) = true) (idle : r.saved = none) :
      Effect auto r call true r
  | endFailed {call : Call} (ends : (call.keeps || call.undoes) = true) (busy : r.saved.isSome) :
      Effect auto r call false r
  | kept {call : Call} (keeps : call.keeps = true) (busy : r.saved.isSome) :
      Effect auto r call true r.kept
  | undone {call : Call} (undoes : call.undoes = true) (busy : r.saved.isSome) :
      Effect auto r call true r.undone
  | switchedOff : Effect auto r (.setAutoCommit false) true r
  | setStrictError {on : Bool} : Effect auto r (.setStrictError on) true r
  /-- A statement under automatic commits, or in the open transaction. -/
  | statement {call : Call} {ok : Bool} {r' : Rows δ} (isStatement : call.isStatement = true)
      (ready : auto = true ∨ r.saved.isSome) (saved : r'.saved = r.saved) : Effect auto r call ok r'
  /-- A statement that has a transaction opened first. -/
  | opening {call : Call} {ok : Bool} {r' : Rows δ} (isStatement : call.isStatement = true)
      (manual : auto = false) (idle : r.saved = none) (saved : r'.saved = some r.current) :
      Effect auto r call ok r'
  | openingFailed {call : Call} (isStatement : call.isStatement = true) (manual : auto = false)
      (idle : r.saved = none) : Effect auto r call false r

namespace Effect

variable {δ : Type} {auto ok : Bool} {r r' : Rows δ} {call : Call}

private theorem saved_eq_none (h : Effect auto r call true r')
    (hends : (call.keeps || call.undoes) = true) : r'.saved = none := by
  cases h with
  | endIdle ends idle => exact idle
  | kept keeps busy => rfl
  | undone undoes busy => rfl
  | beginBusy | begin | switchedOff | setStrictError => cases hends
  | statement isStatement | opening isStatement =>
      rw [(not_ends_of_isStatement isStatement).1, (not_ends_of_isStatement isStatement).2] at hends
      cases hends

private theorem eq_of_undoes (h : Effect auto r call true r') (hundoes : call.undoes = true)
    {opened : δ} (hopened : r.saved = some opened) : r' = ⟨opened, none⟩ := by
  cases h with
  | endIdle ends idle => rw [hopened] at idle; cases idle
  | kept keeps busy => rw [not_undoes_of_keeps keeps] at hundoes; cases hundoes
  | undone undoes busy => rw [Rows.undone, Rows.committed, hopened]; rfl
  | beginBusy | begin | switchedOff | setStrictError => cases hundoes
  | statement isStatement | opening isStatement =>
      rw [(not_ends_of_isStatement isStatement).2] at hundoes
      cases hundoes

theorem committed_eq (h : Effect auto r call ok r') : r'.committed = r.committed ∨
    call.keeps = true ∨ call.isStatement = true ∧ auto = true ∧ r.saved = none := by
  have hsaved (h : r'.saved = some r.committed) : r'.committed = r.committed := by
    rw [Rows.committed, h, Option.getD_some]
  cases h with
  | kept keeps busy => exact .inr (.inl keeps)
  | undone undoes busy => exact .inl rfl
  | begin idle =>
      left
      rw [Rows.committed, Rows.committed, Rows.opened, idle]
      rfl
  | statement isStatement ready saved =>
      cases hbusy : r.saved with
      | some opened =>
          left
          rw [Rows.committed, Rows.committed, saved, hbusy]
          rfl
      | none =>
          rw [hbusy] at ready
          exact .inr (.inr ⟨isStatement, ready.resolve_right Bool.false_ne_true, rfl⟩)
  | opening isStatement manual idle saved =>
      left
      rw [Rows.committed, Rows.committed, saved, idle]
      rfl
  | beginBusy | beginFailed | endIdle | endFailed | switchedOff | setStrictError | openingFailed =>
      exact .inl rfl

private theorem busy_or_opens (h : Effect auto r call ok r') {opened : δ}
    (hopened : r'.saved = some opened) : r.saved = some opened ∨
      r = ⟨opened, none⟩ ∧ (call = .begin ∨ call.isStatement = true ∧ auto = false) := by
  have hfresh (idle : r.saved = none) (h : some r.current = some opened) : r = ⟨opened, none⟩ := by
    obtain ⟨current, saved⟩ := r
    cases idle
    cases h
    rfl
  cases h with
  | begin idle => exact .inr ⟨hfresh idle hopened, .inl rfl⟩
  | kept | undone => cases hopened
  | statement isStatement ready saved => exact .inl (saved ▸ hopened)
  | opening isStatement manual idle saved =>
      exact .inr ⟨hfresh idle (saved ▸ hopened), .inr ⟨isStatement, manual⟩⟩
  | beginBusy | beginFailed | endIdle | endFailed | switchedOff | setStrictError | openingFailed =>
      exact .inl hopened

end Effect

namespace Client

variable {ε δ : Type} [Engine ε] {view : View ε δ} {c : Client ε} {s : ε}

def rows (view : View ε δ) (c : Client ε) : Option (Rows δ) := c.session.map view.rows

/-- The session in which a statement is run, after a transaction was opened if one is needed. -/
inductive RunsIn (c : Client ε) : ε → Prop
  | ready {s : ε} (session : c.session = some s)
      (ready : c.settings.autoCommit = true ∨ Engine.inTransaction s = true) : RunsIn c s
  | opened {s s' : ε} (session : c.session = some s) (manual : c.settings.autoCommit = false)
      (idle : Engine.inTransaction s = false) (begun : Engine.begin s = (.ok (), s')) : RunsIn c s'

/-- A call does not run a statement that opens or ends a transaction. -/
def PlainCall (view : View ε δ) (c : Client ε) : Call → Prop
  | .execute sql attributes values =>
    ∀ s, c.RunsIn s → view.Plain sql (Handle.rowLimit? attributes) values s
  | _ => True

theorem runIn_session (c : Client ε) (s : ε) (sql : String) (limit : Option Nat)
    (values : List Value) : ∃ s', s' = (Engine.run sql values limit s).2 ∧
      (c.runIn s sql limit values).2.session = some s' ∧
      (c.runIn s sql limit values).2.settings = c.settings := by
  unfold runIn
  rcases Engine.run sql values limit s with ⟨e | result, s'⟩ <;> exact ⟨s', rfl, rfl, rfl⟩

theorem inTransaction_eq (view : View ε δ) (c : Client ε) :
    c.inTransaction = ((c.rows view).bind Rows.saved).isSome := by
  rw [inTransaction, rows]
  cases c.session with
  | none => rfl
  | some s => exact view.inTransaction_eq s

theorem begin_of_busy (hsession : c.session = some s) (hbusy : Engine.inTransaction s = true) :
    c.begin = (.ok (), c) := by
  rw [begin, hsession]
  dsimp only
  rw [if_pos hbusy]

theorem finish_of_idle (hsession : c.session = some s) (hidle : Engine.inTransaction s = false)
    (name : String) (command : ε → Except DatabaseError Unit × ε) :
    c.finish name command = (.ok (), c) := by
  rw [finish, hsession]
  dsimp only
  rw [hidle, Bool.not_false, if_pos rfl]

theorem begin_cases (view : View ε δ) (hsession : c.session = some s) :
    Engine.inTransaction s = true ∧ c.begin = (.ok (), c) ∨
    Engine.inTransaction s = false ∧ ∃ result s', c.begin = (result, { c with session := some s' }) ∧
      view.rows s' = if result.isOk then (view.rows s).opened else view.rows s := by
  cases hbusy : Engine.inTransaction s with
  | true => exact .inl ⟨rfl, begin_of_busy hsession hbusy⟩
  | false =>
      have hrows := view.begin_rows hbusy
      rw [begin, hsession]
      dsimp only
      rw [hbusy, if_neg Bool.false_ne_true]
      refine .inr ⟨rfl, ?_⟩
      rcases hbegin : Engine.begin s with ⟨e | ⟨⟩, s'⟩ <;> rw [hbegin] at hrows
      · exact ⟨_, s', rfl, hrows⟩
      · exact ⟨_, s', rfl, hrows⟩

theorem finish_cases (view : View ε δ) (hsession : c.session = some s) (name : String)
    {command : ε → Except DatabaseError Unit × ε} {change : Rows δ → Rows δ}
    (hcommand : Engine.inTransaction s = true →
      view.rows (command s).2 = (view.rows s).after change (command s).1) :
    Engine.inTransaction s = false ∧ c.finish name command = (.ok (), c) ∨
    Engine.inTransaction s = true ∧ ∃ result s',
      c.finish name command = (result, { c with session := some s' }) ∧
      view.rows s' = if result.isOk then change (view.rows s) else view.rows s := by
  cases hbusy : Engine.inTransaction s with
  | false => exact .inl ⟨rfl, finish_of_idle hsession hbusy name command⟩
  | true =>
      have hrows := hcommand hbusy
      rw [finish, hsession]
      dsimp only
      rw [hbusy, Bool.not_true, if_neg Bool.false_ne_true]
      refine .inr ⟨rfl, ?_⟩
      rcases hdone : command s with ⟨e | ⟨⟩, s'⟩ <;> rw [hdone] at hrows
      · exact ⟨_, s', rfl, hrows⟩
      · exact ⟨_, s', rfl, hrows⟩

theorem saved_of_idle (view : View ε δ) (h : Engine.inTransaction s = false) :
    (view.rows s).saved = none := by
  rw [view.inTransaction_eq] at h
  exact Option.not_isSome_iff_eq_none.mp (by simp [h])

theorem saved_of_busy (view : View ε δ) (h : Engine.inTransaction s = true) :
    (view.rows s).saved.isSome := view.inTransaction_eq s ▸ h

theorem effect_of_finish {view : View ε δ} (hsession : c.session = some s) (name : String)
    {command : ε → Except DatabaseError Unit × ε} {change : Rows δ → Rows δ}
    (hcommand : Engine.inTransaction s = true →
      view.rows (command s).2 = (view.rows s).after change (command s).1) {call : Call}
    (hends : (call.keeps || call.undoes) = true)
    (hchange : (view.rows s).saved.isSome →
      Effect c.settings.autoCommit (view.rows s) call true (change (view.rows s))) :
    ∃ s', (c.finish name command).2.session = some s' ∧
      Effect c.settings.autoCommit (view.rows s) call (c.finish name command).1.isOk
        (view.rows s') := by
  rcases finish_cases view hsession name hcommand with
    ⟨hidle, hfinish⟩ | ⟨hbusy, result, s', hfinish, hrows⟩ <;> rw [hfinish]
  · exact ⟨s, hsession, .endIdle hends (saved_of_idle view hidle)⟩
  · refine ⟨s', rfl, ?_⟩
    rw [hrows]
    cases result with
    | error e => exact .endFailed hends (saved_of_busy view hbusy)
    | ok => exact hchange (saved_of_busy view hbusy)

theorem effect_of_execute {view : View ε δ} (hsession : c.session = some s) {sql : String}
    {attributes : Attributes} {values : List Value}
    (hplain : c.PlainCall view (.execute sql attributes values)) :
    ∃ s', (c.execute sql attributes values).2.session = some s' ∧
      Effect c.settings.autoCommit (view.rows s) (.execute sql attributes values)
        (c.execute sql attributes values).1.isOk (view.rows s') := by
  rw [execute]
  dsimp only
  rw [hsession]
  dsimp only
  split
  · rename_i hready
    rw [Bool.or_eq_true] at hready
    obtain ⟨s', rfl, hrun, -⟩ := runIn_session { c with lastError := none } s sql
      (Handle.rowLimit? attributes) values
    refine ⟨_, hrun, .statement rfl ?_ (hplain s (.ready hsession hready))⟩
    exact hready.imp id (saved_of_busy view)
  · rename_i hmanual
    simp only [Bool.or_eq_true, not_or, Bool.not_eq_true] at hmanual
    obtain ⟨hmanual, hidle⟩ := hmanual
    have hrows := view.begin_rows hidle
    rcases hbegin : Engine.begin s with ⟨e | ⟨⟩, s'⟩ <;> rw [hbegin] at hrows <;> dsimp only
    · refine ⟨s', rfl, ?_⟩
      rw [show view.rows s' = view.rows s from hrows]
      exact .openingFailed rfl hmanual (saved_of_idle view hidle)
    · obtain ⟨s'', rfl, hrun, -⟩ := runIn_session { c with lastError := none } s' sql
        (Handle.rowLimit? attributes) values
      refine ⟨_, hrun, .opening rfl hmanual (saved_of_idle view hidle) ?_⟩
      have hplain : (view.rows _).saved = (view.rows s').saved :=
        hplain s' (.opened hsession hmanual hidle hbegin)
      rw [hplain, show view.rows s' = (view.rows s).opened from hrows]
      rfl

theorem isOk_ofExcept {α : Type} (result : Except ConnectionError α) :
    (Reply.ofExcept result).isOk = result.isOk := by
  cases result <;> rfl

/-- A call on a connection with a session has an effect on its rows, and leaves it a session. -/
theorem effect_of_perform {view : View ε δ} {call : Call} (hsession : c.session = some s)
    (hplain : c.PlainCall view call) : ∃ s', (call.perform c).2.session = some s' ∧
      Effect c.settings.autoCommit (view.rows s) call (call.perform c).1 (view.rows s') := by
  have hcommit {call : Call} (hkeeps : call.keeps = true) :=
    effect_of_finish hsession "COMMIT" view.commit_rows
      (Bool.or_eq_true_iff.mpr (.inl hkeeps)) (Effect.kept hkeeps)
  have hrollback {call : Call} (hundoes : call.undoes = true) :=
    effect_of_finish hsession "ROLLBACK" view.rollback_rows
      (Bool.or_eq_true_iff.mpr (.inr hundoes)) (Effect.undone hundoes)
  cases call with
  | execute sql attributes values =>
      obtain ⟨s', hsession', heffect⟩ := effect_of_execute hsession hplain
      rw [← isOk_ofExcept] at heffect
      exact ⟨s', hsession', heffect⟩
  | begin =>
      change ∃ s', c.begin.2.session = some s' ∧ Effect _ _ _ (Reply.ofExcept c.begin.1).isOk _
      rw [isOk_ofExcept]
      rcases begin_cases view hsession with
        ⟨hbusy, hbegin⟩ | ⟨hidle, result, s', hbegin, hrows⟩ <;> rw [hbegin]
      · exact ⟨s, hsession, .beginBusy (saved_of_busy view hbusy)⟩
      · refine ⟨s', rfl, ?_⟩
        rw [hrows]
        cases result with
        | error e => exact .beginFailed (saved_of_idle view hidle)
        | ok => exact .begin (saved_of_idle view hidle)
  | commit =>
      obtain ⟨s', hsession', heffect⟩ := @hcommit .commit rfl
      rw [← isOk_ofExcept] at heffect
      exact ⟨s', hsession', heffect⟩
  | rollback =>
      obtain ⟨s', hsession', heffect⟩ := @hrollback .rollback rfl
      rw [← isOk_ofExcept] at heffect
      exact ⟨s', hsession', heffect⟩
  | abort => exact @hrollback .abort rfl
  | setAutoCommit on =>
      cases on with
      | false => exact ⟨s, hsession, .switchedOff⟩
      | true =>
          obtain ⟨s', hsession', heffect⟩ := @hcommit (.setAutoCommit true) rfl
          change ∃ s', (c.setAutoCommit true).2.session = some s' ∧
            Effect _ _ _ (c.setAutoCommit true).1.isOk _
          rw [setAutoCommit, if_pos rfl, commit]
          rcases hdone : c.finish "COMMIT" Engine.commit with ⟨e | ⟨⟩, c'⟩ <;>
            rw [hdone] at hsession' heffect <;> exact ⟨s', hsession', heffect⟩
  | setStrictError on => exact ⟨s, hsession, .setStrictError⟩

/-! ### Calls one after another -/

def PlainCalls (view : View ε δ) : List Call → Client ε → Prop
  | [], _ => True
  | call :: calls, c => c.PlainCall view call ∧ PlainCalls view calls (call.perform c).2

/-- The transaction that is open behind some calls was opened by one of them, when there were certain
rows, and has been open ever since. -/
structure OpenedBy (view : View ε δ) (c : Client ε) (calls : List Call) (opened : δ)
    (before : List Call) (opener : Call) (after : List Call) : Prop where
  calls_eq : calls = before ++ opener :: after
  rows : (performAll before c).rows view = some ⟨opened, none⟩
  opens : opener = .begin ∨
    opener.isStatement = true ∧ (performAll before c).settings.autoCommit = false
  stays : ∀ done rest, after = done ++ rest →
    (performAll (before ++ opener :: done) c).inTransaction = true

variable {calls : List Call} {r : Rows δ}

theorem exists_effect {call : Call} (hrows : c.rows view = some r)
    (hplain : c.PlainCall view call) : ∃ r', (call.perform c).2.rows view = some r' ∧
      Effect c.settings.autoCommit r call (call.perform c).1 r' := by
  obtain ⟨s, hsession, rfl⟩ := Option.map_eq_some_iff.mp hrows
  obtain ⟨s', hsession', heffect⟩ := effect_of_perform hsession hplain
  exact ⟨view.rows s', by rw [rows, hsession']; rfl, heffect⟩

private theorem exists_rows (hrows : c.rows view = some r) (hplain : PlainCalls view calls c) :
    ∃ r', (performAll calls c).rows view = some r' := by
  induction calls generalizing c r with
  | nil => exact ⟨r, hrows⟩
  | cons call calls ih =>
      obtain ⟨r', hrows', -⟩ := exists_effect hrows hplain.1
      exact ih hrows' hplain.2

/-- A transaction that is open behind some calls has been open all along, or one of them has opened
it. The rows that it will be undone to are still those that were there then. -/
theorem busy_or_exists_opener (hrows : c.rows view = some r) (hplain : PlainCalls view calls c)
    {r' : Rows δ} (hrows' : (performAll calls c).rows view = some r') {opened : δ}
    (hopened : r'.saved = some opened) :
    (r.saved = some opened ∧
        ∀ done rest, calls = done ++ rest → (performAll done c).inTransaction = true) ∨
      ∃ before opener after, OpenedBy view c calls opened before opener after := by
  induction calls generalizing c r with
  | nil =>
      obtain rfl : r = r' := Option.some.inj (hrows.symm.trans hrows')
      refine .inl ⟨hopened, fun done rest hnil => ?_⟩
      obtain ⟨rfl, -⟩ := List.append_eq_nil_iff.mp hnil.symm
      rw [performAll, inTransaction_eq view, hrows]
      simp [hopened]
  | cons call calls ih =>
      obtain ⟨r₁, hrows₁, heffect⟩ := exists_effect hrows hplain.1
      rcases ih hrows₁ hplain.2 hrows' with ⟨hsaved, hstays⟩ | ⟨before, opener, after, hopener⟩
      · rcases heffect.busy_or_opens hsaved with hbusy | ⟨rfl, hopens⟩
        · refine .inl ⟨hbusy, fun done rest hdone => ?_⟩
          cases done with
          | nil =>
              rw [performAll, inTransaction_eq view, hrows]
              simp [hbusy]
          | cons first done =>
              obtain ⟨rfl, hrest⟩ := List.cons.inj hdone
              exact hstays done rest hrest
        · exact .inr ⟨[], call, calls, rfl, hrows, hopens, hstays⟩
      · refine .inr ⟨call :: before, opener, after, ?_, hopener.rows, hopener.opens, hopener.stays⟩
        rw [hopener.calls_eq, List.cons_append]

/-! ### What holds after any calls -/

theorem inTransaction_of_session (hsession : c.session = some s) :
    c.inTransaction = Engine.inTransaction s := by
  rw [inTransaction, hsession, Option.any_some]

private theorem perform_begin_of_busy (hbusy : c.inTransaction = true) :
    Call.begin.perform c = (true, c) := by
  cases hsession : c.session with
  | none =>
      rw [inTransaction, hsession] at hbusy
      cases hbusy
  | some s =>
      rw [inTransaction_of_session hsession] at hbusy
      have hbegin : c.begin = (.ok (), c) := begin_of_busy hsession hbusy
      change ((Reply.ofExcept c.begin.1).isOk, c.begin.2) = _
      rw [hbegin]
      rfl

private theorem perform_of_idle (hsession : c.session = some s) (hidle : c.inTransaction = false)
    {call : Call} (hcall : call = .commit ∨ call = .rollback ∨ call = .abort) :
    call.perform c = (true, c) := by
  rw [inTransaction_of_session hsession] at hidle
  have hcommit : c.commit = (.ok (), c) := finish_of_idle hsession hidle "COMMIT" _
  have hrollback : c.rollback = (.ok (), c) := finish_of_idle hsession hidle "ROLLBACK" _
  rcases hcall with rfl | rfl | rfl
  · change ((Reply.ofExcept c.commit.1).isOk, c.commit.2) = _
    rw [hcommit]
    rfl
  · change ((Reply.ofExcept c.rollback.1).isOk, c.rollback.2) = _
    rw [hrollback]
    rfl
  · change (c.rollback.1.isOk, c.rollback.2) = _
    rw [hrollback]
    rfl

theorem finish_settings (c : Client ε) (name : String)
    (command : ε → Except DatabaseError Unit × ε) :
    (c.finish name command).2.settings = c.settings := by
  unfold finish
  split
  · rfl
  · split
    · rfl
    · split <;> rfl

theorem perform_setAutoCommit_settings {on : Bool}
    (h : ((Call.setAutoCommit on).perform c).1 = false) :
    ((Call.setAutoCommit on).perform c).2.settings = c.settings := by
  have hsettings := finish_settings c "COMMIT" Engine.commit
  change (c.setAutoCommit on).1.isOk = false at h
  change (c.setAutoCommit on).2.settings = c.settings
  unfold setAutoCommit commit at h ⊢
  cases on with
  | false => cases h
  | true =>
      rcases hdone : c.finish "COMMIT" Engine.commit with ⟨e | ⟨⟩, c'⟩ <;>
        rw [hdone] at h hsettings
      · exact hsettings
      · cases h

/-- **A connection keeps the contract of transactions, whatever was called on it before.** The
statements among the calls neither control transactions nor make the database roll one back. -/
theorem transactions_kept {ε δ : Type} [Engine ε] (view : View ε δ) (calls : List Call)
    {start : Client ε} (hopen : start.session.isSome) (hplain : PlainCalls view calls start) :
    let c := performAll calls start
    -- Once a transaction was ended, none is open.
    (∀ call : Call, (call.keeps || call.undoes) = true → (call.perform c).1 = true →
      (call.perform c).2.inTransaction = false) ∧
    -- A transaction is undone to the rows that were there when it was opened.
    (∀ call : Call, call.undoes = true → c.inTransaction = true → (call.perform c).1 = true →
      ∃ opened, (call.perform c).2.rows view = some ⟨opened, none⟩ ∧
        (((start.rows view).bind Rows.saved = some opened ∧
            ∀ done rest, calls = done ++ rest → (performAll done start).inTransaction = true) ∨
          ∃ before opener after, OpenedBy view start calls opened before opener after)) ∧
    -- Committed rows change when they are committed, and with statements outside transactions.
    (∀ call : Call, c.PlainCall view call →
      ((call.perform c).2.rows view).map Rows.committed ≠ (c.rows view).map Rows.committed →
      call.keeps = true ∨
        call.isStatement = true ∧ c.settings.autoCommit = true ∧ c.inTransaction = false) ∧
    -- Where there is nothing to open or to end, nothing happens.
    (c.inTransaction = true → Call.begin.perform c = (true, c)) ∧
    (c.inTransaction = false → ∀ call : Call, call = .commit ∨ call = .rollback ∨ call = .abort →
      call.perform c = (true, c)) ∧
    -- Where automatic commits cannot be switched on, they and the transaction are as before.
    ∀ on, ((Call.setAutoCommit on).perform c).1 = false →
      ((Call.setAutoCommit on).perform c).2.settings = c.settings ∧
      ((Call.setAutoCommit on).perform c).2.rows view = c.rows view := by
  intro c
  obtain ⟨s₀, hstart⟩ := Option.isSome_iff_exists.mp hopen
  have hrows₀ : start.rows view = some (view.rows s₀) := by rw [rows, hstart]; rfl
  obtain ⟨r, hrows⟩ : ∃ r, c.rows view = some r := exists_rows hrows₀ hplain
  obtain ⟨s, hsession, rfl⟩ := Option.map_eq_some_iff.mp hrows
  -- Calls that run no statement have their effect whatever the database does.
  have hends {call : Call} (hends : (call.keeps || call.undoes) = true) : c.PlainCall view call := by
    cases call with
    | execute => cases hends
    | begin | commit | rollback | abort | setAutoCommit | setStrictError => trivial
  refine ⟨?_, ?_, ?_, perform_begin_of_busy, ?_, ?_⟩
  · intro call hcall hok
    obtain ⟨r', hrows', heffect⟩ := exists_effect hrows (hends hcall)
    rw [hok] at heffect
    rw [inTransaction_eq view, hrows', Option.bind_some, heffect.saved_eq_none hcall]
    rfl
  · intro call hundoes hbusy hok
    rw [inTransaction_eq view, hrows, Option.bind_some] at hbusy
    obtain ⟨opened, hopened⟩ := Option.isSome_iff_exists.mp hbusy
    obtain ⟨r', hrows', heffect⟩ :=
      exists_effect hrows (hends (Bool.or_eq_true_iff.mpr (.inr hundoes)))
    rw [hok] at heffect
    refine ⟨opened, ?_, ?_⟩
    · rw [hrows', heffect.eq_of_undoes hundoes hopened]
    · rw [hrows₀]
      exact busy_or_exists_opener hrows₀ hplain hrows hopened
  · intro call hcall hchanged
    obtain ⟨r', hrows', heffect⟩ := exists_effect hrows hcall
    rw [hrows', hrows] at hchanged
    rcases heffect.committed_eq with hsame | hkeeps | ⟨hstatement, hauto, hidle⟩
    · exact absurd (congrArg some hsame) hchanged
    · exact .inl hkeeps
    · refine .inr ⟨hstatement, hauto, ?_⟩
      rw [inTransaction_eq view, hrows, Option.bind_some, hidle]
      rfl
  · exact fun hidle call hcall => perform_of_idle hsession hidle hcall
  · intro on hfailed
    refine ⟨perform_setAutoCommit_settings hfailed, ?_⟩
    have hplain : c.PlainCall view (.setAutoCommit on) := trivial
    obtain ⟨r', hrows', heffect⟩ := exists_effect hrows hplain
    rw [hfailed] at heffect
    rw [hrows', hrows]
    cases heffect with
    | endFailed => rfl
    | statement isStatement | opening isStatement | openingFailed isStatement => cases isStatement

/-- The transaction that the first statement has opened is undone, and with it what was inserted after
a transaction was asked for again. -/
theorem transactions_kept_manual :
    let table : Table := { name := "t", columns := [{ name := "a" }] }
    let start : Handle := { session := some { current := ⟨[table]⟩ }, settings := ⟨false, false⟩ }
    let calls : List Call := [.execute "INSERT INTO t VALUES (1)" {} [], .begin,
      .execute "INSERT INTO t VALUES (2)" {} []]
    start.client.session.isSome ∧ PlainCalls Session.view calls start.client ∧
    (performAll calls start).inTransaction = true ∧
    ((performAll calls start).session.map fun s => s.current.tables.map (·.rows.length)) =
      some [2] ∧
    (Call.rollback.perform (performAll calls start)).2.client.rows Session.view =
      some ⟨⟨[table]⟩, none⟩ ∧
    (Call.rollback.perform (performAll calls start)).2.inTransaction = false := by
  intro table start calls
  have hopen : start.client.session.isSome := rfl
  have hplain : PlainCalls Session.view calls start.client := by
    refine ⟨fun s _ => ?_, trivial, fun s _ => ?_, trivial⟩
    · exact Session.plain_of_readsPlain { current := ⟨[table]⟩ } (by decide +kernel) _ _ s
    · exact Session.plain_of_readsPlain { current := ⟨[table]⟩ } (by decide +kernel) _ _ s
  obtain ⟨hended, hundone, -⟩ := transactions_kept Session.view calls hopen hplain
  rw [← Handle.client_performAll] at hended hundone
  have hbusy : (performAll calls start).inTransaction = true := by decide +kernel
  have hrows : ((performAll calls start).session.map fun s => s.current.tables.map (·.rows.length)) =
      some [2] := by decide +kernel
  have hok : (Call.rollback.perform (performAll calls start)).1 = true := by decide +kernel
  generalize performAll calls start = last at hended hundone hbusy hrows hok ⊢
  have hundone := hundone .rollback rfl
  have hended := hended .rollback rfl
  rw [Handle.client_perform, Handle.client_inTransaction] at hundone
  rw [Handle.client_perform] at hended
  dsimp only at hundone hended
  have hidle := hended hok
  rw [Handle.client_inTransaction] at hidle
  obtain ⟨opened, hback, hbefore⟩ := hundone hbusy hok
  refine ⟨hopen, hplain, hbusy, hrows, ?_, hidle⟩
  suffices hopened : opened = ⟨[table]⟩ by rw [← hopened]; exact hback
  have hrows₀ : start.client.rows Session.view = some ⟨⟨[table]⟩, none⟩ := rfl
  rcases hbefore with ⟨hstart, -⟩ | ⟨before, opener, after, hcalls, hthen, -, -⟩
  · rw [hrows₀] at hstart
    cases hstart
  -- Behind the first statement the transaction is open already.
  have hidle : (performAll before start.client).inTransaction = false := by
    rw [inTransaction_eq Session.view, hthen]
    rfl
  have hfirst : (performAll (calls.take 1) start.client).inTransaction = true := by decide +kernel
  have hsecond : (performAll (calls.take 2) start.client).inTransaction = true := by decide +kernel
  rcases before with _ | ⟨x, _ | ⟨y, _ | ⟨z, before⟩⟩⟩
  · rw [performAll, hrows₀] at hthen
    cases hthen
    rfl
  · have htake : calls.take 1 = [x] := by rw [hcalls]; rfl
    rw [htake, hidle] at hfirst
    cases hfirst
  · have htake : calls.take 2 = [x, y] := by rw [hcalls]; rfl
    rw [htake, hidle] at hsecond
    cases hsecond
  · have hlength := congrArg List.length hcalls
    simp [calls] at hlength

end Client

end Embedded

end SqlBatch
