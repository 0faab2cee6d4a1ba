import SqlBatch.Placeholder.Kind
import SqlBatch.Text.Character
import SqlBatch.Text.Quoted

/-!
# Why a script cannot be split

All of these are found before any statement is sent to a connection.
-/

namespace SqlBatch

/-- What a script may leave open at its end. -/
inductive Construct where
  | singleQuoted
  | doubleQuoted
  | backtick
  | dollarQuoted
  | blockComment
  | block
  deriving DecidableEq, Repr

def Construct.description : Construct → String
  | .singleQuoted => "single-quoted string"
  | .doubleQuoted => "double-quoted identifier"
  | .backtick => "backtick identifier"
  | .dollarQuoted => "dollar-quoted string"
  | .blockComment => "block comment"
  | .block => "BEGIN ... END block"

/-- Why a script cannot be split or its placeholders cannot be told. -/
inductive SplitError where
  /-- The script ends inside a construct that was opened at a byte offset, on a line counted from
  one. -/
  | unbalanced (construct : Construct) (offset line : Nat)
  /-- A statement has placeholders of two styles. -/
  | mixedPlaceholders (statement : Nat) (first second : PlaceholderKind)
  /-- A terminator is empty or holds a blank. -/
  | invalidTerminator (terminator : String)
  /-- The keyword of the delimiter directive is not a single word. -/
  | invalidKeyword (keyword : String)
  deriving DecidableEq, Repr

namespace SplitError

def message : SplitError → String
  | unbalanced construct offset line =>
    s!"unterminated {construct.description} starting at line {line} (offset {offset})"
  | mixedPlaceholders statement first second =>
    s!"statement {statement} mixes {first.description} and {second.description} placeholders"
  | invalidTerminator terminator =>
    "invalid terminator " ++ Text.quoted terminator ++
      ": must be non-empty and contain no whitespace"
  | invalidKeyword keyword =>
    "invalid splitter options: delimiter keyword " ++ Text.quoted keyword ++
      " must be a single word"

/-- The same error, said of another statement when it is about a statement at all. -/
def atStatement (index : Nat) : SplitError → SplitError
  | mixedPlaceholders _ first second => mixedPlaceholders index first second
  | other => other

end SplitError

namespace Text

/-- The number of line feeds among the characters that begin before a byte offset. -/
def lineFeedsBefore : Nat → List Char → Nat
  | _, [] => 0
  | offset, c :: cs =>
    if offset = 0 then 0
    else (if c = '\n' then 1 else 0) + lineFeedsBefore (offset - c.utf8Size) cs

/-- The line of a byte offset in a text, counted from one. -/
def lineAt (cs : List Char) (offset : Nat) : Nat := lineFeedsBefore offset cs + 1

end Text

end SqlBatch
