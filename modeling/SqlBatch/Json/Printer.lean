import SqlBatch.Json.Basic
import SqlBatch.Decimal.Layout
import SqlBatch.Text.Quoted

/-!
# Compact JSON text

No blanks between tokens. In strings, a quote, a backslash and the controls below the space are
escaped and nothing else is.
-/

namespace SqlBatch

namespace Json

def escapeChar (c : Char) : List Char :=
  if c == '"' then ['\\', '"']
  else if c == '\\' then ['\\', '\\']
  else if c == '\x08' then ['\\', 'b']
  else if c == '\t' then ['\\', 't']
  else if c == '\n' then ['\\', 'n']
  else if c == '\x0c' then ['\\', 'f']
  else if c == '\r' then ['\\', 'r']
  else if c.val < 0x20 then
    let digits := Text.hexDigits c.toNat
    '\\' :: 'u' :: List.replicate (4 - digits.length) '0' ++ digits
  else [c]

def stringText (s : String) : String :=
  String.ofList ('"' :: s.toList.flatMap escapeChar ++ ['"'])

mutual

/-- The compact text of a value. -/
def render : Json → String
  | .null => "null"
  | .bool b => if b then "true" else "false"
  | .int n => toString n
  | .float x => Decimal.Layout.data.text x
  | .str s => stringText s
  | .arr items => "[" ++ ",".intercalate (renderItems items) ++ "]"
  | .obj fields => "\x7b" ++ ",".intercalate (renderFields fields) ++ "\x7d"

def renderItems : List Json → List String
  | [] => []
  | j :: js => render j :: renderItems js

def renderFields : List (String × Json) → List String
  | [] => []
  | (name, value) :: fields => (stringText name ++ ":" ++ render value) :: renderFields fields

end

end Json

end SqlBatch
