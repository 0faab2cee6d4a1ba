import SqlBatch.Text.Digits
import SqlBatch.Text.Unprintable

/-!
# Quoted texts and descriptions

Messages and descriptions show a text between double quotes so that every character of it can be
told: a quote and a backslash stand after a backslash, the common controls have a letter, and any
other character without a printed form is written by its number in hexadecimal. A description shows a
value with its parts on one line, for people who look for a fault.
-/

namespace SqlBatch

namespace Text

/-- One character as it stands inside a quoted text. -/
def quoteChar (c : Char) : List Char :=
  if c == '\x00' then ['\\', '0']
  else if c == '\t' then ['\\', 't']
  else if c == '\n' then ['\\', 'n']
  else if c == '\r' then ['\\', 'r']
  else if c == '"' then ['\\', '"']
  else if c == '\\' then ['\\', '\\']
  else if isUnprintable c then "\\u\x7b".toList ++ hexDigits c.toNat ++ ['\x7d']
  else [c]

/-- A text between double quotes, with every character told apart. -/
def quoted (s : String) : String :=
  String.ofList ('"' :: s.toList.flatMap quoteChar ++ ['"'])

/-! ### Descriptions -/

def record (name : String) (parts : List (String × String)) : String :=
  name ++ " \x7b " ++
    ", ".intercalate (parts.map fun (part, text) => part ++ ": " ++ text) ++ " \x7d"

def optional : Option String → String
  | some s => "Some(" ++ quoted s ++ ")"
  | none => "None"

def truth (b : Bool) : String := if b then "true" else "false"

end Text

end SqlBatch
