import SqlBatch.Json.Basic
import SqlBatch.Text.Quoted

/-!
# Settings of a connection
-/

namespace SqlBatch

/-- The settings that a batch changes for its time. -/
structure ConnectionSettings where
  /-- A statement outside a transaction is committed as soon as it succeeds. -/
  autoCommit : Bool := true
  /-- A failing statement of a batch is raised as an error and not reported as a result. -/
  strictError : Bool := false
  deriving DecidableEq, Repr, Inhabited

namespace ConnectionSettings

def ofJson? (j : Json) : Option ConnectionSettings := do
  let fields ← j.fullRecord? ["auto_commit", "strict_error"]
  let autoCommit ← (← fields.lookup "auto_commit").bool?
  let strictError ← (← fields.lookup "strict_error").bool?
  return { autoCommit, strictError }

def toJson (s : ConnectionSettings) : Json :=
  .obj [("auto_commit", .bool s.autoCommit), ("strict_error", .bool s.strictError)]

def describe (s : ConnectionSettings) : String :=
  Text.record "ConnectionSettings"
    [("auto_commit", Text.truth s.autoCommit), ("strict_error", Text.truth s.strictError)]

end ConnectionSettings

end SqlBatch
