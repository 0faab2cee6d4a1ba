import SqlBatch.Connection.Basic
import SqlBatch.Text.Character

/-!
# Scripted connections

A connection to rehearse batches with. It has no database behind it: it keeps the texts of the
statements that are lasting and of those that wait for a commit, and it follows a script that says
which calls fail and what statements give. Every call is written into a log.
-/

namespace SqlBatch

namespace Scripted

inductive Control where
  | begin
  | commit
  | rollback
  | abort
  | autoCommitOn
  | autoCommitOff
  | strictOn
  | strictOff
  | close
  deriving DecidableEq, Repr

namespace Control

def name : Control → String
  | begin => "begin"
  | commit => "commit"
  | rollback => "rollback"
  | abort => "abort"
  | autoCommitOn => "auto_commit_on"
  | autoCommitOff => "auto_commit_off"
  | strictOn => "strict_on"
  | strictOff => "strict_off"
  | close => "close"

def ofName? (name : String) : Option Control :=
  [begin, commit, rollback, abort, autoCommitOn, autoCommitOff, strictOn, strictOff, close].find?
    fun call => call.name == name

end Control

inductive LogEntry where
  | control (call : Control)
  | execute (sql : String) (attributes : Attributes) (values : List Value)

/-- What a statement comes to. -/
inductive Effect where
  | stall
  | panic (message : String)
  | fail (e : ConnectionError) (info : Option ErrorInfo)
  | rows (result : QueryResult)
  | affected (count : UInt64)
  /-- It succeeds, with a result that depends on its text. -/
  | succeed

/-- What statements come to in which a text occurs. -/
structure Rule where
  occurring : String
  effect : Effect

/-- What a connection does: the rules for statements, of which the first that fits counts, and the
calls that are refused. -/
structure Script where
  rules : List Rule := []
  refused : List Control := []

structure State where
  script : Script := {}
  settings : ConnectionSettings := {}
  inTransaction : Bool := false
  /-- The statements that wait for a commit. -/
  pending : List String := []
  /-- The statements that are lasting. -/
  durable : List String := []
  lastError : Option ErrorInfo := none
  closed : Bool := false
  log : List LogEntry := []

namespace State

def committed (s : State) : State :=
  { s with durable := s.durable ++ s.pending, pending := [], inTransaction := false }

def undone (s : State) : State := { s with pending := [], inTransaction := false }

def recorded (sql : String) (s : State) : State :=
  if s.settings.autoCommit && !s.inTransaction then { s with durable := s.durable ++ [sql] }
  else { s with inTransaction := true, pending := s.pending ++ [sql] }

def logged (entry : LogEntry) (s : State) : State := { s with log := s.log ++ [entry] }

/-- A control call: it is written into the log, and unless it is refused it changes the connection.
-/
def control (call : Control) (change : State → State) (s : State) :
    Except ConnectionError Unit × State :=
  if call ∈ s.script.refused then
    (.error ⟨.transaction, s!"{call.name} refused"⟩, s.logged (.control call))
  else (.ok (), change (s.logged (.control call)))

def controlReply (call : Control) (change : State → State) (s : State) :
    Reply ConnectionError Unit × State :=
  match s.control call change with
  | (result, s) => (.ofExcept result, s)

def effectOf (sql : String) (s : State) : Effect :=
  match s.script.rules.find? fun rule => Text.occursIn rule.occurring.toList sql.toList with
  | some rule => rule.effect
  | none => .succeed

/-- What a statement gives that succeeds: queries give no rows, and other statements change one. -/
def defaultResult (sql : String) : StatementResult :=
  if Text.sameWord (sql.toList.take 6) "SELECT".toList then .rows {} else .affected 1

def execute (sql : String) (attributes : Attributes) (values : List Value) (s : State) :
    Reply ConnectionError StatementResult × State :=
  let s := s.logged (.execute sql attributes values)
  match s.effectOf sql with
  | .stall => (.interrupted .abandoned, s)
  | .panic message => (.interrupted (.panicked message), s)
  | .fail e info => (.failed e, { s with lastError := info })
  | .rows result => (.ok (.rows result), s.recorded sql)
  | .affected count => (.ok (.affected count), s.recorded sql)
  | .succeed => (.ok (defaultResult sql), s.recorded sql)

def setAutoCommit (on : Bool) (s : State) : Except ConnectionError Unit × State :=
  s.control (if on then .autoCommitOn else .autoCommitOff) fun s =>
    let s := if on && s.inTransaction then s.committed else s
    { s with settings.autoCommit := on }

def setStrictError (on : Bool) (s : State) : State :=
  { s.logged (.control (if on then .strictOn else .strictOff)) with settings.strictError := on }

instance : Connection State where
  driverName _ := "scripted"
  execute := execute
  begin := controlReply .begin fun s => { s with inTransaction := true }
  commit := controlReply .commit committed
  rollback := controlReply .rollback undone
  abort := control .abort undone
  autoCommit s := s.settings.autoCommit
  setAutoCommit := setAutoCommit
  strictError s := s.settings.strictError
  setStrictError := setStrictError
  errorInfo := lastError
  close := controlReply .close fun s => { s with closed := true }
  isClosed := closed

end State

end Scripted

end SqlBatch
