import SqlBatch.Embedded.Database
import SqlBatch.Embedded.Parameters

/-!
# Sessions with the database

A session holds the tables as it sees them and, while a transaction is open, the tables as they were
when it was opened. Outside a transaction each command is a transaction of its own. A session takes
one command at a time: a text with two of them is refused before the first one runs.
-/

namespace SqlBatch

namespace Embedded

structure Session where
  /-- The tables with the changes of the open transaction. -/
  current : Database := {}
  /-- The tables when the open transaction was opened. -/
  saved : Option Database := none
  /-- The number of rows that the last insertion or deletion changed; one that failed changed none.
  -/
  changes : UInt64 := 0
  /-- How the database keeps its journal. -/
  journal : String := "memory"
  /-- Whether the database may be changed. -/
  writable : Bool := true

/-- A command that was read and checked, the names of its parameters, and the names of the columns
that it returns. -/
structure Prepared where
  command : Command
  parameters : Parameters.Names
  titles : List String

namespace Session

def inTransaction (s : Session) : Bool := s.saved.isSome

def committed (s : Session) : Database := s.saved.getD s.current

/-- Prepares the first command of a text; semicolons before it are passed over. Beside it stands the
text after its own semicolon. A text without commands gives none. -/
def prepareNext (s : Session) (source : List Char) :
    Except DatabaseError (Option (Prepared × List Char)) :=
  let tokens := (Token.scan source).dropWhile (·.isMark ";")
  let own := tokens.takeWhile fun t => !t.isMark ";"
  let rest := tokens.drop own.length
  let (ownSource, following) := match rest.head? with
    | some semicolon => (source.take semicolon.start, source.drop semicolon.stop)
    | none => (Token.readable source, [])
  if own.isEmpty then .ok none
  else
    match Parameters.assign [] own with
    | .error t =>
      .error (Database.errorAt source t.start
        s!"variable number must be between ?1 and ?{Parameters.maxNumber}")
    | .ok (numbered, parameters) =>
      match Command.ofTokens ownSource numbered with
      | .error left => .error (Database.syntaxError source (left ++ rest))
      | .ok command => do
        let titles ← s.current.check source command
        return some (⟨command, parameters, titles⟩, following)

def prepare (s : Session) (sql : List Char) : Except DatabaseError (Option Prepared) := do
  match ← s.prepareNext sql with
  | none => return none
  | some (first, following) =>
    match ← s.prepareNext following with
    | none => return some first
    | some _ => throw ⟨21, "multiple statements provided; execute one statement per call"⟩

/-- The session with changed tables. Outside a transaction the change is refused if a reference
would be left dangling. -/
def change (s : Session) (changes : UInt64) (changed : Database) :
    Except DatabaseError Unit × Session :=
  if !s.writable then (.error ⟨8, "attempt to write a readonly database"⟩, s)
  else if !s.inTransaction && changed.hasDanglingReference then
    (.error ⟨787, "FOREIGN KEY constraint failed"⟩, { s with changes := 0 })
  else (.ok (), { s with current := changed, changes })

def begin (s : Session) : Except DatabaseError Unit × Session :=
  if s.inTransaction then (.error ⟨1, "cannot start a transaction within a transaction"⟩, s)
  else (.ok (), { s with saved := some s.current })

/-- Ends the open transaction and keeps its changes. As long as a reference is dangling the
transaction stays open. -/
def commit (s : Session) : Except DatabaseError Unit × Session :=
  if !s.inTransaction then (.error ⟨1, "cannot commit - no transaction is active"⟩, s)
  else if s.current.hasDanglingReference then (.error ⟨787, "FOREIGN KEY constraint failed"⟩, s)
  else (.ok (), { s with saved := none })

def rollback (s : Session) : Except DatabaseError Unit × Session :=
  match s.saved with
  | none => (.error ⟨1, "cannot rollback - no transaction is active"⟩, s)
  | some saved => (.ok (), { s with current := saved, saved := none })

/-- Runs a command. The answer holds the rows of a command that returns columns. -/
def run (s : Session) (parameters : List Cell) :
    Command → Except DatabaseError (List (List Cell)) × Session
  | .createTable name _ columns =>
    noRows (s.change s.changes ⟨s.current.tables ++ [{ name, columns }]⟩)
  | .insert name columns rows =>
    match s.current.insert name columns (rows.map (·.map (Database.evaluate parameters))) with
    | .ok changed => noRows (s.change rows.length.toUInt64 changed)
    | .error e => (.error e, { s with changes := 0 })
  | .delete name =>
    match s.current.table name with
    | .ok t => noRows (s.change t.rows.length.toUInt64 (s.current.replace { t with rows := [] }))
    | .error e => (.error e, s)
  | .select items name => (s.current.query parameters items name, s)
  | .pragma name =>
    if sameName name "foreign_keys" then (.ok [[.integer 1]], s)
    else if sameName name "journal_mode" then (.ok [[.text s.journal]], s)
    else (.ok [], s)
  | .begin => noRows s.begin
  | .commit => noRows s.commit
  | .rollback => noRows s.rollback
where
  /-- The answer of a command that returns no columns. -/
  noRows : Except DatabaseError Unit × Session → Except DatabaseError (List (List Cell)) × Session
    | (result, s) => (result.map fun _ => [], s)

inductive Answer where
  | rows (titles : List String) (rows : List (List Cell))
  | affected (count : UInt64)

/-- Runs the only command of a text with values for its parameters. A text without a command changes
nothing. -/
def execute (s : Session) (sql : String) (values : List Value) :
    Except DatabaseError Answer × Session :=
  match s.prepare sql.toList with
  | .error e => (.error e, s)
  | .ok none => (.ok (.affected 0), s)
  | .ok (some prepared) =>
    match Parameters.bind prepared.parameters values with
    | none =>
      let needed := Parameters.needed prepared.parameters
      (.error ⟨25,
        s!"Wrong number of parameters passed to query. Got {values.length}, needed {needed}"⟩, s)
    | some bound =>
      match s.run (bound.map Cell.ofValue) prepared.command with
      | (.error e, s) => (.error e, s)
      | (.ok rows, s) =>
        (.ok (if prepared.titles.isEmpty then .affected s.changes
          else .rows prepared.titles rows), s)

end Session

end Embedded

end SqlBatch
