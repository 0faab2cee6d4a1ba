import SqlBatch.Script.Lexeme
import SqlBatch.Script.Options

/-!
# The scanner

A scanner walks over a script once and cuts it into events without gaps. It keeps the terminator in
effect, the offsets of the open blocks, and whether the current statement has any code. A scan ends
at the end of the script, at a construct that is never closed, or after a number of events that its
caller allows.
-/

namespace SqlBatch

/-- A place in a script: the text before it in reverse, the text after it, and what a scan knows
there. -/
structure Scanner where
  options : SplitOptions
  /-- The text scanned so far, last character first. -/
  before : List Char
  /-- The text still to scan. -/
  rest : List Char
  /-- The number of bytes scanned so far. -/
  offset : Nat
  /-- The terminator in effect. -/
  terminator : List Char
  /-- The offsets where the open blocks start, innermost first. -/
  openBlocks : List Nat
  /-- Whether the current statement has code. -/
  hasCode : Bool
  deriving DecidableEq, Repr

namespace Scanner

open Text

def start (options : SplitOptions) (script : List Char) : Scanner where
  options := options
  before := []
  rest := script
  offset := 0
  terminator := options.terminator.toList
  openBlocks := []
  hasCode := false

def depth (s : Scanner) : Nat := s.openBlocks.length

def previous (s : Scanner) : Option Char := s.before.head?

/-- Whether only blanks stand before the place on its line. -/
def atLineStart (s : Scanner) : Bool := (s.before.takeWhile (· ≠ '\n')).all isBlank

/-- The length of the comment opener at the place, or zero. -/
def commentOpenerLength (s : Scanner) : Nat :=
  if (s.options.lineComments && ['-', '-'].isPrefixOf s.rest) ||
      (s.options.blockComments && ['/', '*'].isPrefixOf s.rest) then 2 else 0

/-- Whether the terminator ends a statement at the place: outside any block, and unless a longer
comment opener stands there. -/
def atTerminator (s : Scanner) : Bool :=
  s.openBlocks.isEmpty && Lexeme.terminatorAt s.terminator s.previous s.rest &&
    s.commentOpenerLength ≤ byteLength s.terminator

/-- The directive at the place, given the word there and the text after it: its new terminator and
its length after the word. A directive stands at the start of a line, outside any block, before the
statement has code. -/
def directive? (s : Scanner) (word following : List Char) : Option (List Char × Nat) :=
  match s.options.delimiterKeyword with
  | none => none
  | some keyword =>
    if sameWord word keyword.toList && s.openBlocks.isEmpty && !s.hasCode && s.atLineStart then
      Lexeme.directive? following
    else none

/-- What the word at the place is, and how many characters belong to it. -/
def wordLexeme (s : Scanner) : EventKind × Nat :=
  let word := s.rest.takeWhile isWord
  let following := s.rest.drop word.length
  match s.directive? word following with
  | some (delimiter, length) => (.delimiterChange delimiter, word.length + length)
  | none =>
    -- After a dot even a keyword is the last part of a name.
    if !s.options.blocks || s.previous = some '.' then (.code, word.length)
    else if isKeyword word ["BEGIN"] && Lexeme.beginOpensBlock s.terminator word following then
      (.blockBegin (s.depth + 1), word.length)
    else if isKeyword word ["CASE"] then (.blockBegin (s.depth + 1), word.length)
    else if isKeyword word ["END"] && !s.openBlocks.isEmpty then
      match Lexeme.endClosesBlock? following with
      | some length => (.blockEnd (s.depth - 1), word.length + length)
      | none => (.code, word.length)
    else (.code, word.length)

/-- A lexeme with an opener of one or two characters, closed or left open. -/
def closedBy (construct : Construct) (kind : EventKind) (opener : Nat) :
    Option Nat → Except Construct (EventKind × Nat)
  | some length => .ok (kind, opener + length)
  | none => .error construct

/-- What stands at the place, whose first character is `c`, and how many characters belong to it; or
the construct that is left open there. -/
def lexeme (s : Scanner) (c : Char) (cs : List Char) : Except Construct (EventKind × Nat) :=
  -- The terminator comes first, for it may be a quote, a word or two hyphens.
  if s.atTerminator then .ok (.terminator, s.terminator.length)
  else if c = '-' && cs.head? = some '-' && s.options.lineComments then
    .ok (.comment .line, Lexeme.lineLength (c :: cs))
  else if c = '/' && cs.head? = some '*' && s.options.blockComments then
    closedBy .blockComment (.comment .block) 2
      (Lexeme.blockCommentLength? s.options.nestedBlockComments 0 cs.tail)
  else if c = '\'' then
    closedBy .singleQuoted (.literal .singleQuoted) 1
      (Lexeme.quotedLength? '\'' s.options.backslashEscapes cs)
  else if c = '"' then
    closedBy .doubleQuoted (.literal .doubleQuoted) 1 (Lexeme.quotedLength? '"' false cs)
  else if c = '\x60' && s.options.backtickIdentifiers then
    closedBy .backtick (.literal .backtick) 1 (Lexeme.quotedLength? '\x60' false cs)
  else if c = '$' && s.options.dollarQuotes then
    match Lexeme.dollarMarkerLength? s.previous cs with
    | none => .ok (.code, 1)
    | some length =>
      -- Inside a block the terminator is passed over, and it must not open a string there.
      let marker := (c :: cs).take length
      if marker = s.terminator then .ok (.code, 1)
      else closedBy .dollarQuoted (.literal .dollar) 0
        (Lexeme.dollarQuotedLength? marker ((c :: cs).drop length))
  else if isWord c then .ok s.wordLexeme
  else if isSpace c then .ok (.code, ((c :: cs).takeWhile isSpace).length)
  else .ok (.code, 1)

def event (s : Scanner) (kind : EventKind) (length : Nat) : Event :=
  ⟨kind, s.offset, s.rest.take length⟩

def advance (s : Scanner) (e : Event) : Scanner where
  options := s.options
  before := e.text.reverse ++ s.before
  rest := s.rest.drop e.text.length
  offset := s.offset + byteLength e.text
  terminator := match e.kind with
    | .delimiterChange delimiter => delimiter
    | _ => s.terminator
  openBlocks := match e.kind with
    | .blockBegin _ => s.offset :: s.openBlocks
    | .blockEnd _ => s.openBlocks.tail
    | _ => s.openBlocks
  hasCode := match e.kind with
    | .terminator | .delimiterChange _ => false
    | _ => s.hasCode || e.isCode

inductive Step where
  /-- An event, and the scanner after it. -/
  | event (e : Event) (next : Scanner)
  /-- A construct that is never closed, and the offset where it starts. -/
  | unbalanced (construct : Construct) (offset : Nat)
  /-- The end of the script. -/
  | complete
  deriving DecidableEq, Repr

/-- Takes one step. At the end of a script that is read strictly, the outermost open block is an
error. -/
def step (s : Scanner) : Step :=
  match s.rest with
  | [] =>
    match s.openBlocks.getLast? with
    | some offset => if s.options.strict then .unbalanced .block offset else .complete
    | none => .complete
  | c :: cs =>
    match s.lexeme c cs with
    | .ok (kind, length) => .event (s.event kind length) (s.advance (s.event kind length))
    | .error construct => .unbalanced construct s.offset

end Scanner

inductive Ending where
  | complete
  | unbalanced (construct : Construct) (offset : Nat)
  /-- As many events were taken as allowed. -/
  | capped
  deriving DecidableEq, Repr

/-- The events of a scan, how it ended, and the scanner at its end. -/
structure Scan where
  events : List Event
  ending : Ending
  final : Scanner
  deriving DecidableEq, Repr

/-- Scans on, for at most a number of events. -/
def Scanner.run : Nat → Scanner → Scan
  | 0, s => ⟨[], .capped, s⟩
  | n + 1, s =>
    match s.step with
    | .event e next =>
      let scan := next.run n
      ⟨e :: scan.events, scan.ending, scan.final⟩
    | .unbalanced construct offset => ⟨[], .unbalanced construct offset, s⟩
    | .complete => ⟨[], .complete, s⟩

/-- The scan of a whole script. Every event covers at least one character as long as no terminator
is empty, so there are no more events than characters. -/
def scan (options : SplitOptions) (script : List Char) : Scan :=
  (Scanner.start options script).run (script.length + 1)

def Scan.error? (script : List Char) (scan : Scan) : Option SplitError :=
  match scan.ending with
  | .unbalanced construct offset => some (.unbalanced construct offset (Text.lineAt script offset))
  | _ => none

end SqlBatch
