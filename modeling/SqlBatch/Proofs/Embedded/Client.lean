import SqlBatch.Proofs.Embedded.Engine

/-!
# Connections to any database

What a connection does with its session does not depend on how the database behind it works. `Client`
is a connection to any database whose sessions can be asked whether a transaction is open, told to
open and to end one, and given a statement. A `Handle` is such a connection to the database of this
library, apart from the file that it writes.
-/

namespace SqlBatch

/-! ### Calls -/

/-- A call that may change the rows of a database, or how later calls do. -/
inductive Call where
  | execute (sql : String) (attributes : Attributes) (values : List Value)
  | begin
  | commit
  | rollback
  | abort
  | setAutoCommit (on : Bool)
  | setStrictError (on : Bool)

def Reply.isOk {ε α : Type} : Reply ε α → Bool
  | ok _ => true
  | failed _ | interrupted _ => false

namespace Call

variable {σ : Type} [Connection σ]

/-- Makes a call on a connection, and tells whether it succeeded. -/
def perform (call : Call) (s : σ) : Bool × σ :=
  match call with
  | execute sql attributes values =>
    let (reply, s) := Connection.execute sql attributes values s
    (reply.isOk, s)
  | begin =>
    let (reply, s) := Connection.begin s
    (reply.isOk, s)
  | commit =>
    let (reply, s) := Connection.commit s
    (reply.isOk, s)
  | rollback =>
    let (reply, s) := Connection.rollback s
    (reply.isOk, s)
  | abort =>
    let (result, s) := Connection.abort s
    (result.isOk, s)
  | setAutoCommit on =>
    let (result, s) := Connection.setAutoCommit on s
    (result.isOk, s)
  | setStrictError on => (true, Connection.setStrictError on s)

def performAll : List Call → σ → σ
  | [], s => s
  | call :: calls, s => performAll calls (call.perform s).2

/-- Whether a call ends the open transaction by keeping its changes. -/
def keeps : Call → Bool
  | commit => true
  | setAutoCommit on => on
  | execute .. | begin | rollback | abort | setStrictError _ => false

/-- Whether a call ends the open transaction by undoing its changes. -/
def undoes : Call → Bool
  | rollback | abort => true
  | execute .. | begin | commit | setAutoCommit _ | setStrictError _ => false

def isStatement : Call → Bool
  | execute .. => true
  | begin | commit | rollback | abort | setAutoCommit _ | setStrictError _ => false

theorem not_undoes_of_keeps {call : Call} (h : call.keeps = true) : call.undoes = false := by
  cases call <;> first | rfl | cases h

theorem not_ends_of_isStatement {call : Call} (h : call.isStatement = true) :
    call.keeps = false ∧ call.undoes = false := by
  cases call <;> first | exact ⟨rfl, rfl⟩ | cases h

end Call

namespace Embedded

/-- A connection to a database; without a session it is closed. -/
structure Client (ε : Type) where
  session : Option ε
  settings : ConnectionSettings := {}
  lastError : Option ErrorInfo := none

namespace Client

variable {ε : Type} [Engine ε]

def inTransaction (c : Client ε) : Bool := c.session.any Engine.inTransaction

def begin (c : Client ε) : Except ConnectionError Unit × Client ε :=
  match c.session with
  | none => (.error Handle.closedError, c)
  | some s =>
    if Engine.inTransaction s then (.ok (), c)
    else
      match Engine.begin s with
      | (.ok (), s) => (.ok (), { c with session := some s })
      | (.error e, s) =>
        (.error ⟨.transaction, s!"Failed to begin transaction: {e.text}"⟩,
          { c with session := some s })

/-- Ends the open transaction, if there is one, by the command that is named. -/
def finish (name : String) (command : ε → Except DatabaseError Unit × ε) (c : Client ε) :
    Except ConnectionError Unit × Client ε :=
  match c.session with
  | none => (.error Handle.closedError, c)
  | some s =>
    if !Engine.inTransaction s then (.ok (), c)
    else
      match command s with
      | (.ok (), s) => (.ok (), { c with session := some s })
      | (.error e, s) =>
        (.error ⟨.transaction, s!"Failed to {name} transaction: {e.text}"⟩,
          { c with session := some s })

def commit (c : Client ε) : Except ConnectionError Unit × Client ε :=
  c.finish "COMMIT" Engine.commit

def rollback (c : Client ε) : Except ConnectionError Unit × Client ε :=
  c.finish "ROLLBACK" Engine.rollback

/-- Switches automatic commits. Before they are switched on, the open transaction is committed. -/
def setAutoCommit (on : Bool) (c : Client ε) : Except ConnectionError Unit × Client ε :=
  if on then
    match c.commit with
    | (.ok (), c) => (.ok (), { c with settings.autoCommit := true })
    | (.error e, c) => (.error e, c)
  else (.ok (), { c with settings.autoCommit := false })

/-- Runs a statement in a session, in which a transaction is open if one is needed. -/
def runIn (c : Client ε) (s : ε) (sql : String) (limit : Option Nat) (values : List Value) :
    Except ConnectionError StatementResult × Client ε :=
  match Engine.run sql values limit s with
  | (.ok result, s) => (.ok result, { c with session := some s })
  | (.error e, s) =>
    (.error ⟨.query, s!"Failed to execute statement: {e.text}"⟩,
      { c with session := some s, lastError := some (Handle.infoOf e) })

def execute (sql : String) (attributes : Attributes) (values : List Value) (c : Client ε) :
    Except ConnectionError StatementResult × Client ε :=
  let c := { c with lastError := none }
  match c.session with
  | none => (.error Handle.closedError, c)
  | some s =>
    if c.settings.autoCommit || Engine.inTransaction s then
      c.runIn s sql (Handle.rowLimit? attributes) values
    else
      match Engine.begin s with
      | (.ok (), s) => c.runIn s sql (Handle.rowLimit? attributes) values
      | (.error e, s) =>
        (.error ⟨.transaction, s!"Failed to begin transaction: {(Handle.infoOf e).text}"⟩,
          { c with session := some s, lastError := some (Handle.infoOf e) })

def reply {α : Type} : Except ConnectionError α × Client ε → Reply ConnectionError α × Client ε
  | (result, c) => (.ofExcept result, c)

instance : Connection (Client ε) where
  driverName _ := "sqlite"
  execute sql attributes values c := reply (c.execute sql attributes values)
  begin c := reply c.begin
  commit c := reply c.commit
  rollback c := reply c.rollback
  abort := rollback
  autoCommit c := c.settings.autoCommit
  setAutoCommit := setAutoCommit
  strictError c := c.settings.strictError
  setStrictError on c := { c with settings.strictError := on }
  errorInfo := lastError
  close c := (.ok (), { c with session := none })
  isClosed c := c.session.isNone

end Client

/-! ### The connection of this library -/

namespace Handle

def client (h : Handle) : Client Session := ⟨h.session, h.settings, h.lastError⟩

variable (h : Handle)

theorem client_inTransaction : h.client.inTransaction = h.inTransaction := rfl

theorem client_begin : h.client.begin = (h.begin.1, h.begin.2.client) := by
  obtain ⟨disk, session, file, path, settings, lastError⟩ := h
  cases session with
  | none => rfl
  | some s =>
      rw [Client.begin, Handle.begin, client]
      dsimp only [Engine.inTransaction, Engine.begin]
      split
      · rfl
      · rcases s.begin with ⟨e | ⟨⟩, s'⟩ <;> rfl

theorem client_finish (name : String) (command : Session → Except DatabaseError Unit × Session) :
    h.client.finish name command =
      ((h.finish name command).1, (h.finish name command).2.client) := by
  obtain ⟨disk, session, file, path, settings, lastError⟩ := h
  cases session with
  | none => rfl
  | some s =>
      rw [Client.finish, Handle.finish, client]
      dsimp only [Engine.inTransaction]
      split
      · rfl
      · rcases command s with ⟨e | ⟨⟩, s'⟩ <;> rfl

theorem client_commit : h.client.commit = (h.commit.1, h.commit.2.client) :=
  h.client_finish "COMMIT" Session.commit

theorem client_rollback : h.client.rollback = (h.rollback.1, h.rollback.2.client) :=
  h.client_finish "ROLLBACK" Session.rollback

theorem client_setAutoCommit (on : Bool) :
    h.client.setAutoCommit on = ((h.setAutoCommit on).1, (h.setAutoCommit on).2.client) := by
  cases on with
  | false => rfl
  | true =>
      rw [Client.setAutoCommit, Handle.setAutoCommit, client_commit]
      rcases h.commit with ⟨e | ⟨⟩, h'⟩ <;> rfl

private theorem client_runIn (s : Session) (sql : String) (limit : Option Nat)
    (values : List Value) :
    h.client.runIn s sql limit values =
      ((h.runIn s sql limit values).1, (h.runIn s sql limit values).2.client) := by
  rw [Client.runIn, Handle.runIn]
  dsimp only [Engine.run]
  rcases s.execute sql values with ⟨e | answer, s'⟩ <;> rfl

theorem client_execute (sql : String) (attributes : Attributes) (values : List Value) :
    h.client.execute sql attributes values =
      ((h.execute sql attributes values).1, (h.execute sql attributes values).2.client) := by
  obtain ⟨disk, session, file, path, settings, lastError⟩ := h
  cases session with
  | none => rfl
  | some s =>
      have hrun (s : Session) := client_runIn ⟨disk, some s, file, path, settings, none⟩ s sql
        (rowLimit? attributes) values
      rw [Client.execute, Handle.execute, client]
      dsimp only [Engine.inTransaction, Engine.begin]
      split
      · exact hrun s
      · rcases s.begin with ⟨e | ⟨⟩, s'⟩
        · rfl
        · exact hrun s'

end Handle

theorem Handle.client_perform (h : Handle) (call : Call) :
    call.perform h.client = ((call.perform h).1, (call.perform h).2.client) := by
  cases call with
  | execute sql attributes values =>
      change ((Reply.ofExcept (h.client.execute sql attributes values).1).isOk,
        (h.client.execute sql attributes values).2) = _
      rw [client_execute]
      rfl
  | begin =>
      change ((Reply.ofExcept h.client.begin.1).isOk, h.client.begin.2) = _
      rw [client_begin]
      rfl
  | commit =>
      change ((Reply.ofExcept h.client.commit.1).isOk, h.client.commit.2) = _
      rw [client_commit]
      rfl
  | rollback =>
      change ((Reply.ofExcept h.client.rollback.1).isOk, h.client.rollback.2) = _
      rw [client_rollback]
      rfl
  | abort =>
      change (h.client.rollback.1.isOk, h.client.rollback.2) = _
      rw [client_rollback]
      rfl
  | setAutoCommit on =>
      change ((h.client.setAutoCommit on).1.isOk, (h.client.setAutoCommit on).2) = _
      rw [client_setAutoCommit]
      rfl
  | setStrictError on => rfl

theorem Handle.client_performAll (h : Handle) (calls : List Call) :
    (Call.performAll calls h).client = Call.performAll calls h.client := by
  induction calls generalizing h with
  | nil => rfl
  | cons call calls ih => rw [Call.performAll, Call.performAll, ih, client_perform]

end Embedded

end SqlBatch
