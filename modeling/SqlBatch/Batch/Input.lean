import SqlBatch.Placeholder.Bind
import SqlBatch.Script.Split

/-!
# What a batch is made of

A batch is given as a script or as statements. The numbers of placeholders are looked for in a
script only if they are needed, which is when values have yet to be cut into groups.
-/

namespace SqlBatch

/-- The statements of a batch, as its caller gives them. -/
inductive BatchInput where
  /-- A script that is to be split. -/
  | script (text : String)
  /-- The texts of the statements. -/
  | texts (texts : List String)
  /-- The texts of the statements, and the number of placeholders of each. -/
  | counted (texts : List String) (counts : List Nat)
  | statements (statements : List Statement)

inductive InputError where
  | split (e : SplitError)
  | bind (e : BindError)
  deriving DecidableEq, Repr

def InputError.message : InputError → String
  | split e => e.message
  | bind e => e.message

namespace BatchInput

def resolve (options : SplitOptions) (binds : BindValues) :
    BatchInput → Except InputError (List Statement)
  | script text =>
    (if binds.isFlat then Script.splitWithPlaceholders options text
      else Script.splitStatements options text).mapError .split
  | texts ts => .ok (ts.map Statement.ofText)
  | counted ts counts =>
    if ts.length = counts.length then
      .ok (List.zipWith (fun text count => (Statement.ofText text).withPlaceholderCount count)
        ts counts)
    else .error (.bind (.placeholderCounts ts.length counts.length))
  | statements ss => .ok ss

def bound (options : SplitOptions) (binds : BindValues) (input : BatchInput) :
    Except InputError (List (Statement × List Value)) := do
  let statements ← input.resolve options binds
  let groups ← (binds.groupsFor statements).mapError .bind
  return statements.zip groups

end BatchInput

end SqlBatch
