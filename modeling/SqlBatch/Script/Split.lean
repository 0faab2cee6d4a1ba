import SqlBatch.Script.Scanner
import SqlBatch.Script.Statement
import SqlBatch.Placeholder.Extract

/-!
# Splitting scripts

A statement is what stands between two terminators, without the blanks at its ends. Comments count
as no code, so a statement of comments alone is dropped unless empty statements are asked for. A
directive drops whatever stands before it, which is never code.
-/

namespace SqlBatch

namespace Script

open Text

/-- The statement that a terminator or the end of the script closes, if it is to be reported. Its
text is given last character first. -/
def close (options : SplitOptions) (pending : List Char) (hasCode : Bool)
    (terminator : Option (List Char)) : List Statement :=
  if hasCode || options.keepEmptyStatements then
    let kept := if options.keepTerminators then terminator.getD [] else []
    [{ text := String.ofList (trim pending.reverse ++ kept)
       terminator := terminator.map String.ofList }]
  else []

/-- What a statement keeps of the text of an event. -/
def kept (options : SplitOptions) (e : Event) : List Char :=
  match e.kind with
  | .comment _ => if options.keepComments then e.text else [' ']
  | .terminator | .delimiterChange _ => []
  | .code | .literal _ | .blockBegin _ | .blockEnd _ => e.text

/-- The statements of a list of events, given the text of the current statement so far, last
character first, and whether it has code. -/
def collect (options : SplitOptions) (pending : List Char) (hasCode : Bool) :
    List Event → List Statement
  | [] =>
    if hasCode || (options.keepEmptyStatements && !pending.all isBlank) then
      close options pending hasCode none
    else []
  | e :: es =>
    match e.kind with
    | .terminator => close options pending hasCode (some e.text) ++ collect options [] false es
    | .delimiterChange _ => collect options [] false es
    | .code | .comment _ | .literal _ | .blockBegin _ | .blockEnd _ =>
      collect options ((kept options e).reverse ++ pending) (hasCode || e.isCode) es

/-- The statements of a script, with the terminators that ended them. -/
def splitStatements (options : SplitOptions) (script : String) :
    Except SplitError (List Statement) := do
  options.validate
  let found := scan options script.toList
  match found.error? script.toList with
  | some e => throw e
  | none => return collect options [] false found.events

def split (options : SplitOptions) (script : String) : Except SplitError (List String) := do
  let statements ← splitStatements options script
  return statements.map (·.text)

/-- The statements with their placeholders, the first one at a given index. -/
def withPlaceholdersFrom (options : SplitOptions) :
    Nat → List Statement → Except SplitError (List Statement)
  | _, [] => .ok []
  | index, s :: ss =>
    match Placeholders.extract options s.text with
    | .error e => .error (e.atStatement index)
    | .ok found => do
      let others ← withPlaceholdersFrom options (index + 1) ss
      return s.withPlaceholders found :: others

/-- The statements of a script with their terminators and placeholders. -/
def splitWithPlaceholders (options : SplitOptions) (script : String) :
    Except SplitError (List Statement) := do
  let statements ← splitStatements options script
  withPlaceholdersFrom options 0 statements

end Script

end SqlBatch
