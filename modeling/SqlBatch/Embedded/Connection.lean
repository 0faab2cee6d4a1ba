import SqlBatch.Connection.Basic
import SqlBatch.Embedded.Disk

/-!
# Connections to the embedded database

A connection that is not closed has a session. With automatic commits switched off, the first
statement opens a transaction, which stays open until it is committed or undone. The connection
remembers what the database said of the last statement if that failed, and forgets it when the next
one starts.
-/

namespace SqlBatch

namespace Embedded

structure Handle where
  disk : Disk := {}
  /-- The session, until the connection is closed. -/
  session : Option Session := some {}
  /-- The file behind the session. -/
  file : Option Location := none
  /-- The path as it was expanded. -/
  path : String := ":memory:"
  settings : ConnectionSettings := {}
  lastError : Option ErrorInfo := none

namespace Handle

def openPath (disk : Disk) (path : String) : Except ConnectionError Handle := do
  if path = ":memory:" then return { disk }
  else
    let path ← disk.expand path
    let (session, file) ← disk.openAt path
    let disk := match file with
      | some place => disk.store place session.committed
      | none => disk
    return { disk, session := some session, file, path }

/-- The connection after its session has gone on; what is committed is in the file. -/
def after (h : Handle) (session : Session) : Handle :=
  let disk := match h.file with
    | some place => h.disk.store place session.committed
    | none => h.disk
  { h with session := some session, disk }

def closedError : ConnectionError := ⟨.connection, "SQLite connection is closed"⟩

def inTransaction (h : Handle) : Bool := h.session.any Session.inTransaction

def infoOf (e : DatabaseError) : ErrorInfo := ⟨some (toString e.code), e.text⟩

/-- Opens a transaction, if none is open. -/
def begin (h : Handle) : Except ConnectionError Unit × Handle :=
  match h.session with
  | none => (.error closedError, h)
  | some session =>
    if session.inTransaction then (.ok (), h)
    else
      match session.begin with
      | (.ok (), session) => (.ok (), h.after session)
      | (.error e, session) =>
        (.error ⟨.transaction, s!"Failed to begin transaction: {e.text}"⟩, h.after session)

/-- Ends the open transaction, if there is one, by the command that is named. -/
def finish (name : String) (command : Session → Except DatabaseError Unit × Session)
    (h : Handle) : Except ConnectionError Unit × Handle :=
  match h.session with
  | none => (.error closedError, h)
  | some session =>
    if !session.inTransaction then (.ok (), h)
    else
      match command session with
      | (.ok (), session) => (.ok (), h.after session)
      | (.error e, session) =>
        (.error ⟨.transaction, s!"Failed to {name} transaction: {e.text}"⟩, h.after session)

def commit (h : Handle) : Except ConnectionError Unit × Handle :=
  h.finish "COMMIT" Session.commit

def rollback (h : Handle) : Except ConnectionError Unit × Handle :=
  h.finish "ROLLBACK" Session.rollback

/-- Switches automatic commits. Before they are switched on, the open transaction is committed. -/
def setAutoCommit (on : Bool) (h : Handle) : Except ConnectionError Unit × Handle :=
  if on then
    match h.commit with
    | (.ok (), h) => (.ok (), { h with settings.autoCommit := true })
    | (.error e, h) => (.error e, h)
  else (.ok (), { h with settings.autoCommit := false })

def rowLimit? (attributes : Attributes) : Option Nat := do
  let n ← (← attributes.get? "max_rows").asInt64?
  if 0 ≤ n.toInt then some n.toInt.toNat else none

/-- What a statement gives, with no more rows than allowed. -/
def resultOf (limit : Option Nat) : Session.Answer → StatementResult
  | .affected count => .affected count
  | .rows titles rows =>
    let kept := match limit with
      | some n => rows.take n
      | none => rows
    .rows (.ofValues titles (kept.map (·.map Cell.toValue)))

/-- Runs a statement in the session, in which a transaction is open if one is needed. -/
def runIn (h : Handle) (session : Session) (sql : String) (limit : Option Nat)
    (values : List Value) : Except ConnectionError StatementResult × Handle :=
  match session.execute sql values with
  | (.ok answer, session) => (.ok (resultOf limit answer), h.after session)
  | (.error e, session) =>
    (.error ⟨.query, s!"Failed to execute statement: {e.text}"⟩,
      { h.after session with lastError := some (infoOf e) })

def execute (sql : String) (attributes : Attributes) (values : List Value) (h : Handle) :
    Except ConnectionError StatementResult × Handle :=
  let h := { h with lastError := none }
  match h.session with
  | none => (.error closedError, h)
  | some session =>
    if h.settings.autoCommit || session.inTransaction then
      h.runIn session sql (rowLimit? attributes) values
    else
      match session.begin with
      | (.ok (), session) => h.runIn session sql (rowLimit? attributes) values
      | (.error e, session) =>
        (.error ⟨.transaction, s!"Failed to begin transaction: {(infoOf e).text}"⟩,
          { h.after session with lastError := some (infoOf e) })

/-- Runs a statement for its rows; a statement that returns none gives an empty result. -/
def query (sql : String) (values : List Value) (h : Handle) :
    Except ConnectionError QueryResult × Handle :=
  match h.execute sql {} values with
  | (.ok result, h) => (.ok (result.result?.getD {}), h)
  | (.error e, h) => (.error e, h)

/-- Closes the connection; an open transaction is undone. -/
def close (h : Handle) : Handle := { h with session := none }

def describe (h : Handle) : String :=
  Text.record "SqliteConnection" [("path", Text.quoted h.path), ("settings", h.settings.describe),
    ("closed", Text.truth h.session.isNone)]

def reply {α : Type} : Except ConnectionError α × Handle → Reply ConnectionError α × Handle
  | (result, h) => (.ofExcept result, h)

instance : Connection Handle where
  driverName _ := "sqlite"
  execute sql attributes values h := reply (h.execute sql attributes values)
  begin h := reply h.begin
  commit h := reply h.commit
  rollback h := reply h.rollback
  abort := rollback
  autoCommit h := h.settings.autoCommit
  setAutoCommit := setAutoCommit
  strictError h := h.settings.strictError
  setStrictError on h := { h with settings.strictError := on }
  errorInfo := lastError
  close h := (.ok (), h.close)
  isClosed h := h.session.isNone

end Handle

end Embedded

end SqlBatch
