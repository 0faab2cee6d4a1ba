/-!
# Placeholder styles

A statement marks the places of its values in one style: by position, by number or by name.
-/

namespace SqlBatch

/-- The style of a statement's placeholders; `none` when it has no placeholder. -/
inductive PlaceholderKind where
  | none
  | positional
  | numbered
  | named
  deriving DecidableEq, Repr, Inhabited

def PlaceholderKind.description : PlaceholderKind → String
  | .none => "no"
  | .positional => "positional (?)"
  | .numbered => "numbered ($n)"
  | .named => "named (:name)"

def PlaceholderKind.name : PlaceholderKind → String
  | .none => "None"
  | .positional => "Positional"
  | .numbered => "Numbered"
  | .named => "Named"

def PlaceholderKind.ofName? (name : String) : Option PlaceholderKind :=
  [PlaceholderKind.none, .positional, .numbered, .named].find? fun kind => kind.name == name

theorem PlaceholderKind.ofName?_name (kind : PlaceholderKind) : ofName? kind.name = some kind := by
  cases kind <;> rfl

end SqlBatch
