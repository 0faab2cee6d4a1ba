import SqlBatch.Script.Settings

/-!
# How batches are run
-/

namespace SqlBatch

/-- Whether a batch is undone when it fails, and how its script is split. -/
structure BatchOptions where
  /-- The batch runs in one transaction, which is rolled back at the first failure. -/
  rollback : Bool := true
  splitter : SplitOptions := {}
  deriving DecidableEq, Repr, Inhabited

namespace BatchOptions

/-- Reads options; what is missing keeps its default. -/
def ofJson? (j : Json) : Option BatchOptions := do
  let fields ← j.record? ["rollback", "splitter"]
  let rollback ← match fields.lookup "rollback" with
    | none => some true
    | some given => given.bool?
  let splitter ← match fields.lookup "splitter" with
    | none => some {}
    | some given => SplitOptions.ofJson? given
  return { rollback, splitter }

def describe (o : BatchOptions) : String :=
  Text.record "BatchOptions"
    [("rollback", Text.truth o.rollback), ("splitter", o.splitter.describe)]

end BatchOptions

end SqlBatch
