import SqlBatch.Json.Basic

/-!
# Failures of a connection

A call that fails gives an error of one of five kinds. Beside it a connection remembers what the
database itself said of the failure.
-/

namespace SqlBatch

/-- What a database says of a failure: its own code, if there is one, and a text. -/
structure ErrorInfo where
  code : Option String := none
  message : String
  deriving DecidableEq, Repr

namespace ErrorInfo

def text (info : ErrorInfo) : String :=
  match info.code with
  | some code => s!"[{code}] {info.message}"
  | none => info.message

/-- Reads what a database says. The code may be missing or null. -/
def ofJson? (j : Json) : Option ErrorInfo := do
  let fields ← j.fullRecord? ["code", "message"]
  let message ← (← fields.lookup "message").string?
  let code ← Json.optional? Json.string? (fields.lookup "code")
  return { code, message }

def toJson (info : ErrorInfo) : Json :=
  .obj [("code", Json.ofOption (info.code.map .str)), ("message", .str info.message)]

end ErrorInfo

/-- What a failed call was about. -/
inductive ErrorKind where
  | connection
  | query
  | transaction
  | configuration
  | io
  deriving DecidableEq, Repr

namespace ErrorKind

def name : ErrorKind → String
  | connection => "Connection"
  | query => "Query"
  | transaction => "Transaction"
  | configuration => "Configuration"
  | io => "Io"

def ofName? (name : String) : Option ErrorKind :=
  [connection, query, transaction, configuration, io].find? fun kind => kind.name == name

def description : ErrorKind → String
  | io => "IO"
  | kind => kind.name

end ErrorKind

structure ConnectionError where
  kind : ErrorKind
  text : String
  deriving DecidableEq, Repr

def ConnectionError.message (e : ConnectionError) : String :=
  s!"{e.kind.description} error: {e.text}"

end SqlBatch
