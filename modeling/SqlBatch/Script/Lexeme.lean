import SqlBatch.Script.Event
import SqlBatch.Script.Error

/-!
# The extent of a lexeme

How far each construct reaches. Every function looks at the text from some place on and answers with
a number of characters, or with nothing when the construct is not there or is never closed.
-/

namespace SqlBatch

namespace Lexeme

open Text

/-- The words after BEGIN that make it start a transaction and not a block. -/
def transactionWords : List String :=
  ["TRANSACTION", "TRAN", "WORK", "DEFERRED", "IMMEDIATE", "EXCLUSIVE", "ISOLATION", "READ"]

/-- The words after END that close a control statement and not a block. -/
def controlWords : List String := ["IF", "LOOP", "WHILE", "REPEAT", "FOR"]

/-- Whether a terminator stands at a place, given the character before the place. A terminator that
starts or ends with a word character has to stand apart from the words around it. -/
def terminatorAt (terminator : List Char) (previous : Option Char) (cs : List Char) : Bool :=
  match after? terminator cs with
  | none => false
  | some following =>
    !(terminator.head?.any isWord && previous.any isWord) &&
      !(terminator.getLast?.any isWord && following.head?.any isWord)

/-- The characters up to the end of the line. -/
def lineLength (cs : List Char) : Nat := (cs.takeWhile (· ≠ '\n')).length

/-- The characters through the end of a block comment, after the opener of the outermost one, when
`depth` comments inside it are open. -/
def blockCommentLength? (nested : Bool) : Nat → List Char → Option Nat
  | depth, '*' :: '/' :: cs =>
    match depth with
    | 0 => some 2
    | depth + 1 => (blockCommentLength? nested depth cs).map (· + 2)
  | depth, '/' :: '*' :: cs =>
    if nested then (blockCommentLength? nested (depth + 1) cs).map (· + 2)
    else (blockCommentLength? nested depth ('*' :: cs)).map (· + 1)
  | depth, _ :: cs => (blockCommentLength? nested depth cs).map (· + 1)
  | _, [] => none

/-- The characters through the closing quote, after the opening one. A doubled quote stands for a
quote; a backslash hides the character after it when `backslash` is set. -/
def quotedLength? (quote : Char) (backslash : Bool) : List Char → Option Nat
  | [] => none
  | [c] => if c = quote then some 1 else none
  | c :: d :: cs =>
    if backslash && c == '\\' then (quotedLength? quote backslash cs).map (· + 2)
    else if c = quote then
      if d = quote then (quotedLength? quote backslash cs).map (· + 2) else some 1
    else (quotedLength? quote backslash (d :: cs)).map (· + 1)

/-- The characters of a dollar marker, given the character before its first dollar and the text
after it. -/
def dollarMarkerLength? (previous : Option Char) (cs : List Char) : Option Nat :=
  if previous.any isWord then none
  else
    let tag := if cs.head?.any isNameStart then cs.takeWhile isWord else []
    if (cs.drop tag.length).head? = some '$' then some (tag.length + 2) else none

/-- The characters through the second marker of a dollar string, given the marker and the text after
its first occurrence. -/
def dollarQuotedLength? (marker cs : List Char) : Option Nat :=
  (position? marker cs).map fun body => marker.length + body + marker.length

/-- The new terminator that the rest of a directive line names, and the characters of the rest
through its line feed. The terminator follows spaces or tabs and ends at a space of any kind. -/
def directive? (cs : List Char) : Option (List Char × Nat) :=
  let gap := cs.takeWhile fun c => c == ' ' || c == '\t'
  let named := cs.drop gap.length
  let delimiter := named.takeWhile fun c => !isSpace c
  let tail := named.drop delimiter.length
  if gap.isEmpty || delimiter.isEmpty || delimiter.any isBlank then none
  else
    let toLineFeed := lineLength tail
    let lineFeed := if toLineFeed < tail.length then 1 else 0
    some (delimiter, gap.length + delimiter.length + toLineFeed + lineFeed)

/-- The word that follows, after any spaces; empty when something else follows. -/
def nextWord (cs : List Char) : List Char := (cs.dropWhile isSpace).takeWhile isWord

/-- Whether BEGIN opens a block, given the word itself and the text after it. It does not at the end
of the script, before a terminator, or before a word of a transaction. -/
def beginOpensBlock (terminator word cs : List Char) : Bool :=
  let gap := cs.takeWhile isSpace
  let next := cs.drop gap.length
  !next.isEmpty && !terminatorAt terminator (word ++ gap).getLast? next &&
    !isKeyword (nextWord cs) transactionWords

/-- How END closes a block, given the text after it: not at all before a control word, through the
word CASE where that follows, and by itself otherwise. The number counts the characters after END.
-/
def endClosesBlock? (cs : List Char) : Option Nat :=
  let word := nextWord cs
  if isKeyword word controlWords then none
  else if isKeyword word ["CASE"] then some ((cs.takeWhile isSpace).length + word.length)
  else some 0

end Lexeme

end SqlBatch
