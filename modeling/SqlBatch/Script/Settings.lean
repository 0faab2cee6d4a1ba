import SqlBatch.Json.Basic
import SqlBatch.Script.Options
import SqlBatch.Text.Quoted
import SqlBatch.Toml.Reader

/-!
# Options as settings

Data formats give options as settings, each a name with a value. Options that no setting names keep
their defaults, and settings with other names are passed over.
-/

namespace SqlBatch

inductive SettingValue where
  | text (s : String)
  | flag (b : Bool)
  /-- A null, which turns a text off that may be absent. -/
  | absent
  /-- Something that no option takes. -/
  | unsuitable
  deriving DecidableEq, Repr

namespace SettingValue

def ofJson : Json → SettingValue
  | .str s => .text s
  | .bool b => .flag b
  | .null => .absent
  | _ => .unsuitable

def ofToml : Toml.Node → SettingValue
  | .text s => .text s
  | .boolean b => .flag b
  | .other | .table .. | .tables _ => .unsuitable

def toJson : SettingValue → Json
  | .text s => .str s
  | .flag b => .bool b
  | .absent | .unsuitable => .null

def describe : SettingValue → String
  | .text s => Text.quoted s
  | .flag b => Text.truth b
  | .absent | .unsuitable => Text.optional none

end SettingValue

/-- Why a document gives no options. -/
inductive SettingsError where
  /-- The document is malformed, or a value does not suit its option. -/
  | unreadable
  /-- No script can be split with the options. -/
  | invalid (e : SplitError)
  deriving DecidableEq, Repr

namespace SplitOptions

/-- All options as settings, in their order. -/
def settings (o : SplitOptions) : List (String × SettingValue) :=
  [("terminator", .text o.terminator),
    ("delimiter_keyword", match o.delimiterKeyword with
      | some keyword => .text keyword
      | none => .absent),
    ("line_comments", .flag o.lineComments),
    ("block_comments", .flag o.blockComments),
    ("nested_block_comments", .flag o.nestedBlockComments),
    ("dollar_quotes", .flag o.dollarQuotes),
    ("backtick_identifiers", .flag o.backtickIdentifiers),
    ("backslash_escapes", .flag o.backslashEscapes),
    ("begin_end_blocks", .flag o.blocks),
    ("strict", .flag o.strict),
    ("keep_terminators", .flag o.keepTerminators),
    ("keep_comments", .flag o.keepComments),
    ("keep_empty_statements", .flag o.keepEmptyStatements)]

def names : List String := (settings {}).map (·.1)

/-- The options with one setting changed. A value that does not suit the option is refused. -/
def set? (o : SplitOptions) (name : String) (value : SettingValue) : Option SplitOptions :=
  match name, value with
  | "terminator", .text s => some { o with terminator := s }
  | "delimiter_keyword", .text s => some { o with delimiterKeyword := some s }
  | "delimiter_keyword", .absent => some { o with delimiterKeyword := none }
  | "line_comments", .flag b => some { o with lineComments := b }
  | "block_comments", .flag b => some { o with blockComments := b }
  | "nested_block_comments", .flag b => some { o with nestedBlockComments := b }
  | "dollar_quotes", .flag b => some { o with dollarQuotes := b }
  | "backtick_identifiers", .flag b => some { o with backtickIdentifiers := b }
  | "backslash_escapes", .flag b => some { o with backslashEscapes := b }
  | "begin_end_blocks", .flag b => some { o with blocks := b }
  | "strict", .flag b => some { o with strict := b }
  | "keep_terminators", .flag b => some { o with keepTerminators := b }
  | "keep_comments", .flag b => some { o with keepComments := b }
  | "keep_empty_statements", .flag b => some { o with keepEmptyStatements := b }
  | name, _ => if name ∈ names then none else some o

/-- The options with the given settings, and defaults for the others. -/
def ofSettings? (given : List (String × SettingValue)) : Option SplitOptions :=
  given.foldlM (fun o (name, value) => o.set? name value) {}

/-- Options are what their settings say. -/
theorem ofSettings?_settings (o : SplitOptions) : ofSettings? o.settings = some o := by
  obtain ⟨terminator, keyword, _⟩ := o
  cases keyword <;> rfl

def ofJson? (j : Json) : Option SplitOptions := do
  let fields ← j.record? names
  ofSettings? (fields.map fun (name, value) => (name, SettingValue.ofJson value))

def ofToml (source : String) : Except SettingsError SplitOptions :=
  match (Toml.parse? source).bind fun entries =>
      ofSettings? (entries.map fun (name, node) => (name, SettingValue.ofToml node)) with
  | none => .error .unreadable
  | some o =>
    match o.validate with
    | .ok () => .ok o
    | .error e => .error (.invalid e)

def toJson (o : SplitOptions) : Json :=
  .obj (o.settings.map fun (name, value) => (name, value.toJson))

def describe (o : SplitOptions) : String :=
  Text.record "SplitterOptions" (o.settings.map fun (name, value) =>
    (name,
      if name == "delimiter_keyword" then Text.optional o.delimiterKeyword else value.describe))

end SplitOptions

end SqlBatch
