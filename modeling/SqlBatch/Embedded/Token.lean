import SqlBatch.Text.Character
import SqlBatch.Text.Digits

/-!
# Tokens of a statement

A statement is cut into words, numbers, texts, parameters and marks. Blanks, comments and byte order
marks separate tokens and are passed over. A statement ends at a null character at the latest.
-/

namespace SqlBatch

namespace Embedded

inductive TokenKind where
  /-- A name or a keyword, without its quotes. -/
  | word (name : String)
  | integer (n : Nat)
  | string (s : String)
  /-- A placeholder with its number, which is zero as long as it has none. -/
  | parameter (number : Nat)
  | mark
  /-- Something that is no token. -/
  | unknown
  deriving DecidableEq, Repr

/-- A token: what it is, its text, and the number of characters before it. -/
structure Token where
  kind : TokenKind
  text : List Char
  start : Nat
  deriving DecidableEq, Repr

namespace Token

open Text

def stop (t : Token) : Nat := t.start + t.text.length

/-- The characters of names; a name does not start with a digit or a dollar. -/
def isNameChar (c : Char) : Bool := isWord c || c == '$' || 0x80 ≤ c.val

/-- The number of characters of a quoted text after its opening quote, through the closing one. A
quote written twice stands for itself. -/
def quotedLength? (quote : Char) : List Char → Option Nat
  | [] => none
  | [c] => if c = quote then some 1 else none
  | c :: d :: cs =>
    if c = quote then
      if d = quote then (quotedLength? quote cs).map (· + 2) else some 1
    else (quotedLength? quote (d :: cs)).map (· + 1)

/-- The text between quotes, with doubled quotes made single. -/
def unquote (quote : Char) : List Char → List Char
  | [] => []
  | [c] => [c]
  | c :: d :: cs =>
    if c = quote ∧ d = quote then c :: unquote quote cs else c :: unquote quote (d :: cs)

/-- A quoted token at the start of a text: its kind and its length. Without a closing quote it is no
token. -/
def quoted (kind : String → TokenKind) (quote : Char) (cs : List Char) : Option TokenKind × Nat :=
  match quotedLength? quote cs.tail with
  | some length =>
    (some (kind (String.ofList (unquote quote (cs.tail.take (length - 1))))), length + 1)
  | none => (some .unknown, cs.length)

/-- Whether a comment of the form `/* … */` starts here; at the end of a text none does. -/
def opensComment : List Char → Bool
  | '/' :: '*' :: _ :: _ => true
  | _ => false

/-- What stands at the start of a text, and how many characters belong to it; `none` for blanks and
comments. Blanks may go on with a vertical tab but not start with one. -/
def lexeme (c : Char) (cs : List Char) : Option TokenKind × Nat :=
  let all := c :: cs
  if isSpace c then (none, (all.takeWhile isGap).length)
  else if c == '\uFEFF' then (none, 1)
  else if ['-', '-'].isPrefixOf all then (none, (all.takeWhile (· ≠ '\n')).length)
  else if opensComment all then
    (none, match position? ['*', '/'] (all.drop 2) with | some n => n + 4 | none => all.length)
  else if c == '\'' then quoted .string c all
  else if c == '"' || c == '\x60' then quoted .word c all
  else if c.isDigit then
    let digits := all.takeWhile Char.isDigit
    let word := all.takeWhile isNameChar
    if word.length = digits.length then (some (.integer (digitsValue digits)), digits.length)
    else (some .unknown, word.length)
  else if c == '?' then (some (.parameter 0), (cs.takeWhile Char.isDigit).length + 1)
  else if c == '$' || c == '@' || c == ':' then
    let name := cs.takeWhile isNameChar
    (some (if name.isEmpty then .unknown else .parameter 0), name.length + 1)
  else if isNameStart c || 0x80 ≤ c.val then
    let name := all.takeWhile isNameChar
    (some (.word (String.ofList name)), name.length)
  else if [['<', '='], ['>', '='], ['<', '>'], ['!', '='], ['=', '=']].any (·.isPrefixOf all) then
    (some .mark, 2)
  else if "()*,;=<>+-./%&|~".toList.contains c then (some .mark, 1)
  else (some .unknown, 1)

/-- The tokens of a text, of which a number of characters was read before and some are to be
skipped. -/
def scanFrom : Nat → Nat → List Char → List Token
  | _, _, [] => []
  | position, skip + 1, _ :: cs => scanFrom (position + 1) skip cs
  | position, 0, c :: cs =>
    match lexeme c cs with
    | (none, length) => scanFrom (position + 1) (length - 1) cs
    | (some kind, length) =>
      ⟨kind, (c :: cs).take length, position⟩ :: scanFrom (position + 1) (length - 1) cs

def readable (cs : List Char) : List Char := cs.takeWhile (· ≠ '\x00')

def scan (cs : List Char) : List Token := scanFrom 0 0 (readable cs)

def isKeyword (keyword : String) (t : Token) : Bool :=
  match t.kind with
  | .word _ => sameWord t.text keyword.toList
  | _ => false

def isMark (text : String) (t : Token) : Bool := t.kind == .mark && t.text == text.toList

end Token

end Embedded

end SqlBatch
