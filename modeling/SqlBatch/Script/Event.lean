import SqlBatch.Text.Character

/-!
# Events of a scan

A scan cuts a script into events. Each covers a piece of the script and says what the piece is:
code, a comment, a quoted literal, the edge of a block, the terminator of a statement, or a
directive that changes the terminator.
-/

namespace SqlBatch

inductive CommentStyle where
  | line
  | block
  deriving DecidableEq, Repr

inductive LiteralStyle where
  | singleQuoted
  | doubleQuoted
  | backtick
  | dollar
  deriving DecidableEq, Repr

/-- What a piece of a script is. The edges of a block tell the depth after them. -/
inductive EventKind where
  | code
  | comment (style : CommentStyle)
  | literal (style : LiteralStyle)
  | blockBegin (depth : Nat)
  | blockEnd (depth : Nat)
  | terminator
  | delimiterChange (delimiter : List Char)
  deriving DecidableEq, Repr

/-- A piece of a script: what it is, the byte offset where it starts, and its text. -/
structure Event where
  kind : EventKind
  start : Nat
  text : List Char
  deriving DecidableEq, Repr

namespace Event

def stop (e : Event) : Nat := e.start + Text.byteLength e.text

/-- Whether the piece makes the statement that holds it non-empty. -/
def isCode (e : Event) : Bool :=
  match e.kind with
  | .code => !e.text.all Text.isBlank
  | .literal _ | .blockBegin _ | .blockEnd _ => true
  | .comment _ | .terminator | .delimiterChange _ => false

end Event

end SqlBatch
