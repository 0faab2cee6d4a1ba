import SqlBatch.Script.Scanner
import SqlBatch.Script.Statement
import SqlBatch.Text.Digits

/-!
# Finding placeholders

Literals and comments are blanked out by the rules that split scripts, so a question mark inside a
quoted text never counts. What is left is read from left to right: a question mark, a dollar with
digits, or a colon with a name is a placeholder. Two colons before a name are a cast, and a dollar
after a word character belongs to that word.
-/

namespace SqlBatch

namespace Placeholders

open Text

/-- The options of the scan that finds literals and comments in a single statement: no directive can
stand in it, and an open block is no error. -/
def scanOptions (options : SplitOptions) : SplitOptions :=
  { options with delimiterKeyword := none, strict := false }

/-- What an event leaves of its text: literals and comments become spaces, one for each byte. -/
def maskEvent (e : Event) : List Char :=
  match e.kind with
  | .comment _ | .literal _ => List.replicate (byteLength e.text) ' '
  | _ => e.text

/-- The text of a statement with its literals and comments blanked out. -/
def mask (options : SplitOptions) (sql : List Char) : Except SplitError (List Char) :=
  let found := scan (scanOptions options) sql
  match found.error? sql with
  | some e => .error e
  | none => .ok (found.events.flatMap maskEvent)

/-- One placeholder as it stands in a statement. -/
inductive Token where
  | positional
  | numbered (digits : List Char)
  | named (name : List Char)
  deriving DecidableEq, Repr

def Token.kind : Token → PlaceholderKind
  | positional => .positional
  | numbered _ => .numbered
  | named _ => .named

/-- What stands at a place where a placeholder or a cast may start: the placeholder, unless it is a
cast or part of a word, and the number of characters read. -/
def tokenAt? (previous : Option Char) : List Char → Option (Option Token × Nat)
  | '?' :: _ => some (some .positional, 1)
  | '$' :: cs =>
    let digits := cs.takeWhile Char.isDigit
    if digits.isEmpty then none
    else if previous.any isWord then some (none, digits.length + 1)
    else some (some (.numbered digits), digits.length + 1)
  | ':' :: ':' :: cs =>
    if cs.head?.any isNameStart then some (none, (cs.takeWhile isWord).length + 2) else none
  | ':' :: cs =>
    if cs.head?.any isNameStart then
      let name := cs.takeWhile isWord
      some (some (.named name), name.length + 1)
    else none
  | _ => none

/-- The placeholders of a blanked text from left to right, after skipping characters that were read
already. -/
def tokensFrom : Nat → Option Char → List Char → List Token
  | _, _, [] => []
  | skip + 1, _, c :: cs => tokensFrom skip (some c) cs
  | 0, previous, c :: cs =>
    match tokenAt? previous (c :: cs) with
    | none => tokensFrom 0 (some c) cs
    | some (token?, length) => token?.toList ++ tokensFrom (length - 1) (some c) cs

def tokens (masked : List Char) : List Token := tokensFrom 0 none masked

/-- Numbers of placeholders are counted in 64 bits; a larger one is passed over. -/
def numberLimit : Nat := UInt64.size

/-- Takes one more placeholder into account. All placeholders of a statement have one style. -/
def add (found : Placeholders) (token : Token) : Except SplitError Placeholders :=
  if found.kind = .none ∨ found.kind = token.kind then
    match token with
    | .positional => .ok { found with kind := .positional, count := found.count + 1 }
    | .numbered digits =>
      let number := digitsValue digits
      .ok { found with
        kind := .numbered
        count := if number < numberLimit then max found.count number else found.count }
    | .named name =>
      let name := String.ofList name
      let names := if name ∈ found.names then found.names else found.names ++ [name]
      .ok { kind := .named, count := names.length, names }
  else .error (.mixedPlaceholders 0 found.kind token.kind)

def ofTokens (found : List Token) : Except SplitError Placeholders := found.foldlM add {}

/-- The placeholders of one statement. -/
def extract (options : SplitOptions) (sql : String) : Except SplitError Placeholders := do
  let masked ← mask options sql.toList
  ofTokens (tokens masked)

end Placeholders

end SqlBatch
