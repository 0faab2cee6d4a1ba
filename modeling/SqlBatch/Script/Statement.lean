import SqlBatch.Json.Basic
import SqlBatch.Placeholder.Kind

/-!
# Statements

One statement of a script, with what is known of its placeholders.
-/

namespace SqlBatch

/-- The placeholders found in a statement: their style, the number of values they need, and the
distinct names in order of first use. -/
structure Placeholders where
  kind : PlaceholderKind := .none
  count : Nat := 0
  names : List String := []
  deriving DecidableEq, Repr, Inhabited

/-- One statement. The terminator is the one that ended it in a script, and the facts on
placeholders are absent where nobody looked for any. -/
structure Statement where
  text : String
  terminator : Option String := none
  placeholderCount : Option Nat := none
  placeholderKind : Option PlaceholderKind := none
  placeholderNames : List String := []
  deriving DecidableEq, Repr, Inhabited

namespace Statement

def ofText (text : String) : Statement := { text }

/-- The statement with a number of placeholders whose style is not known. -/
def withPlaceholderCount (s : Statement) (count : Nat) : Statement :=
  { s with placeholderCount := some count }

def withPlaceholders (s : Statement) (found : Placeholders) : Statement :=
  { s with
    placeholderCount := some found.count
    placeholderKind := some found.kind
    placeholderNames := found.names }

/-! ### The form of data formats -/

def partNames : List String :=
  ["text", "terminator", "placeholder_count", "placeholder_kind", "placeholder_names"]

/-- Reads a style of placeholders: its name, or an object with its name and null. -/
def kindOfJson? : Json → Option PlaceholderKind
  | .str name => PlaceholderKind.ofName? name
  | .obj [(name, .null)] => PlaceholderKind.ofName? name
  | _ => none

/-- Reads a statement. The text and the names have to be there. -/
def ofJson? (j : Json) : Option Statement := do
  let fields ← j.fullRecord? partNames
  let text ← (← fields.lookup "text").string?
  let terminator ← Json.optional? Json.string? (fields.lookup "terminator")
  let placeholderCount ← Json.optional? Json.count? (fields.lookup "placeholder_count")
  let placeholderKind ← Json.optional? kindOfJson? (fields.lookup "placeholder_kind")
  let placeholderNames ← (← fields.lookup "placeholder_names").strings?
  return { text, terminator, placeholderCount, placeholderKind, placeholderNames }

def toJson (s : Statement) : Json :=
  .obj [("text", .str s.text), ("terminator", Json.ofOption (s.terminator.map .str)),
    ("placeholder_count", Json.ofOption (s.placeholderCount.map fun n => .int n)),
    ("placeholder_kind", Json.ofOption (s.placeholderKind.map fun kind => .str kind.name)),
    ("placeholder_names", .arr (s.placeholderNames.map .str))]

end Statement

end SqlBatch
