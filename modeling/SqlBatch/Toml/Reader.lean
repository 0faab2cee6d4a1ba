import SqlBatch.Text.Character
import SqlBatch.Toml.Basic
import SqlBatch.Toml.Scalar

/-!
# Reading TOML

The readers answer with what they read and the text after it. Those that call each other use up one
unit of fuel for each call, and twice the length of the text is enough.
-/

namespace SqlBatch

namespace Toml

open Text (hexNumber? charOf? after?)

/-- Arrays, inner tables and dotted names have fewer levels than this. -/
def maxDepth : Nat := 80

def isSpace (c : Char) : Bool := c == ' ' || c == '\t'

def skipSpaces (cs : List Char) : List Char := cs.dropWhile isSpace

/-- The characters of comments: all but the controls, save the tab. -/
def isVisible (c : Char) : Bool := c == '\t' || (0x20 ≤ c.val && c.val != 0x7f)

def newline? : List Char → Option (List Char)
  | '\n' :: cs => some cs
  | '\r' :: '\n' :: cs => some cs
  | _ => none

def skipComment : List Char → List Char
  | '#' :: cs => cs.dropWhile isVisible
  | cs => cs

/-- The text after the rest of a line that holds nothing but blanks and a comment. -/
def lineEnd? (cs : List Char) : Option (List Char) :=
  match skipComment (skipSpaces cs) with
  | [] => some []
  | rest => newline? rest

def skipLines : Nat → List Char → List Char
  | 0, cs => cs
  | fuel + 1, cs =>
    let rest := skipComment (skipSpaces cs)
    match newline? rest with
    | some rest => skipLines fuel rest
    | none => rest

/-- What a backslash in a text stands for, given the text after it. -/
def readEscape : List Char → Option (Char × List Char)
  | 'u' :: cs => if cs.length < 4 then none else (hexChar? (cs.take 4)).map (·, cs.drop 4)
  | 'U' :: cs => if cs.length < 8 then none else (hexChar? (cs.take 8)).map (·, cs.drop 8)
  | c :: cs =>
    ([('b', '\x08'), ('t', '\t'), ('n', '\n'), ('f', '\x0c'), ('r', '\r'), ('"', '"'),
      ('\\', '\\')].lookup
    c).map (·, cs)
  | [] => none
where
  /-- The character with a number in base sixteen. -/
  hexChar? (digits : List Char) : Option Char := (hexNumber? digits).bind charOf?

/-- The text through its closing quote on the same line. Backslashes count only between double
quotes. -/
def readLine (quote : Char) : Nat → List Char → Option (List Char × List Char)
  | 0, _ => none
  | _, [] => none
  | fuel + 1, c :: cs =>
    if c = quote then some ([], cs)
    else if c = '\\' ∧ quote = '"' then do
      let (char, rest) ← readEscape cs
      let (text, rest) ← readLine quote fuel rest
      some (char :: text, rest)
    else if isVisible c then (readLine quote fuel cs).map fun (text, rest) => (c :: text, rest)
    else none

/-- The text through its three closing quotes, before which one or two more may stand. A backslash
at the end of a line joins it with what follows the blanks and line breaks after it. -/
def readLines (quote : Char) : Nat → List Char → Option (List Char × List Char)
  | 0, _ => none
  | _, [] => none
  | fuel + 1, c :: cs =>
    if [quote, quote, quote].isPrefixOf (c :: cs) then
      let more := min 2 ((cs.drop 2).takeWhile (· = quote)).length
      some (List.replicate more quote, cs.drop (2 + more))
    else if c = '\\' ∧ quote = '"' then
      match newline? (skipSpaces cs) with
      | some rest => readLines quote fuel (skipBlankLines fuel rest)
      | none => do
        let (char, rest) ← readEscape cs
        let (text, rest) ← readLines quote fuel rest
        some (char :: text, rest)
    else
      match newline? (c :: cs) with
      | some rest => (readLines quote fuel rest).map fun (text, rest) => ('\n' :: text, rest)
      | none =>
        if isVisible c then (readLines quote fuel cs).map fun (text, rest) => (c :: text, rest)
        else none
where
  /-- The text after blanks and line breaks. -/
  skipBlankLines : Nat → List Char → List Char
    | 0, cs => cs
    | fuel + 1, cs =>
      match newline? (skipSpaces cs) with
      | some rest => skipBlankLines fuel rest
      | none => skipSpaces cs

/-- A text between quotes, one or three on either side. A line break right after three opening
quotes does not count. -/
def readText (quote : Char) (cs : List Char) : Option (String × List Char) :=
  let read :=
    if [quote, quote].isPrefixOf cs then
      let inner := cs.drop 2
      readLines quote (inner.length + 1) ((newline? inner).getD inner)
    else readLine quote (cs.length + 1) cs
  read.map fun (text, rest) => (String.ofList text, rest)

/-- One part of a dotted name: a bare word, or a text between single quotes of either kind. -/
def readPart (cs : List Char) : Option (String × List Char) :=
  match cs with
  | '"' :: rest =>
    (readLine '"' (rest.length + 1) rest).map fun (text, rest) => (String.ofList text, rest)
  | '\'' :: rest =>
    (readLine '\'' (rest.length + 1) rest).map fun (text, rest) => (String.ofList text, rest)
  | _ =>
    let word := cs.takeWhile fun c => c.isAlphanum || c == '_' || c == '-'
    if word.isEmpty then none else some (String.ofList word, cs.drop word.length)

/-- A dotted name with blanks around its parts. -/
def readName : Nat → List Char → Option (List String × List Char)
  | 0, _ => none
  | fuel + 1, cs => do
    let (part, rest) ← readPart (skipSpaces cs)
    match skipSpaces rest with
    | '.' :: rest => (readName fuel rest).map fun (parts, rest) => (part :: parts, rest)
    | rest => some ([part], rest)

/-- A name and the equals sign after it: the path, the last part, and the text after blanks. -/
def readAssignment (cs : List Char) : Option ((List String × String) × List Char) := do
  let (parts, rest) ← readName (maxDepth - 1) cs
  let name ← parts.getLast?
  match rest with
  | '=' :: rest => some ((parts.dropLast, name), skipSpaces rest)
  | _ => none

/-- A value without quotes or brackets. A blank belongs to it only between a date and a time. -/
def readBare (cs : List Char) : Option (Node × List Char) :=
  let word := cs.takeWhile isBare
  let rest := cs.drop word.length
  if word = "true".toList then some (.boolean true, rest)
  else if word = "false".toList then some (.boolean false, rest)
  else
    match rest with
    | ' ' :: time =>
      if isDate word && time.head?.any Char.isDigit then
        let moment := word ++ ' ' :: time.takeWhile isBare
        if isMoment moment then some (.other, time.dropWhile isBare) else none
      else if isPlain word then some (.other, rest) else none
    | _ => if isPlain word then some (.other, rest) else none

mutual

def readValue (depth : Nat) : Nat → List Char → Option (Node × List Char)
  | 0, _ => none
  | fuel + 1, cs =>
    match cs with
    | '"' :: rest => (readText '"' rest).map fun (s, rest) => (.text s, rest)
    | '\'' :: rest => (readText '\'' rest).map fun (s, rest) => (.text s, rest)
    | '[' :: rest =>
      if depth + 1 < maxDepth then (readItems (depth + 1) fuel rest).map fun rest => (.other, rest)
      else none
    | '\x7b' :: rest =>
      if depth + 1 < maxDepth then
        match skipSpaces rest with
        | '\x7d' :: rest => some (.other, rest)
        | rest => (readPairs (depth + 1) fuel [] rest).map fun rest => (.other, rest)
      else none
    | _ => readBare cs

/-- The text after the items of an array and its closing bracket. A comma may follow the last item.
-/
def readItems (depth : Nat) : Nat → List Char → Option (List Char)
  | 0, _ => none
  | fuel + 1, cs =>
    match skipLines cs.length cs with
    | ']' :: rest => some rest
    | cs => do
      let (_, rest) ← readValue depth fuel cs
      match skipLines rest.length rest with
      | ']' :: rest => some rest
      | ',' :: rest => readItems depth fuel rest
      | _ => none

/-- The text after the pairs of an inner table and its closing brace. -/
def readPairs (depth : Nat) : Nat → Entries → List Char → Option (List Char)
  | 0, _, _ => none
  | fuel + 1, entries, cs => do
    let ((path, name), rest) ← readAssignment cs
    let (node, rest) ← readValue depth fuel rest
    let entries ← entries.insert path name node
    match skipSpaces rest with
    | '\x7d' :: rest => some rest
    | ',' :: rest => readPairs depth fuel entries rest
    | _ => none

end

/-- A header between one or two brackets on either side, and the text after its line. -/
def readHeader (d : Document) (cs : List Char) : Option (Document × List Char) :=
  match cs with
  | '[' :: rest => do
    let (path, rest) ← readName (maxDepth - 1) rest
    let rest ← after? [']', ']'] rest
    let d ← d.openNext path
    let rest ← lineEnd? rest
    return (d, rest)
  | rest => do
    let (path, rest) ← readName (maxDepth - 1) rest
    let rest ← after? [']'] rest
    let d ← d.openTable path
    let rest ← lineEnd? rest
    return (d, rest)

def readDocument : Nat → Document → List Char → Option Entries
  | 0, _, _ => none
  | fuel + 1, d, cs =>
    match lineEnd? cs with
    | some [] => some d.root
    | some rest => readDocument fuel d rest
    | none =>
      match skipSpaces cs with
      | '[' :: rest => do
        let (d, rest) ← readHeader d rest
        readDocument fuel d rest
      | cs => do
        let ((path, name), rest) ← readAssignment cs
        let (node, rest) ← readValue 0 (2 * rest.length + 2) rest
        let d ← d.insert path name node
        let rest ← lineEnd? rest
        readDocument fuel d rest

/-- The entries of the outermost table of a text. A byte order mark may stand before it. -/
def parse? (source : String) : Option Entries :=
  let cs := match source.toList with
    | '\ufeff' :: cs => cs
    | cs => cs
  readDocument (cs.length + 1) {} cs

end Toml

end SqlBatch
