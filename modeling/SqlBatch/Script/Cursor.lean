import SqlBatch.Script.Scanner

/-!
# Scans taken one item at a time

A reader asks a scan for its items one after another: the events, and at last the error if there is
one. After the last item there is nothing more, however often the reader asks.
-/

namespace SqlBatch

/-- A scan under way. -/
structure Cursor where
  script : List Char
  scanner : Scanner
  /-- Whether the scan has told that it is over. -/
  finished : Bool := false
  deriving DecidableEq, Repr

namespace Cursor

def start (options : SplitOptions) (script : List Char) : Cursor where
  script := script
  scanner := Scanner.start options script

def next (c : Cursor) : Option (Except SplitError Event) × Cursor :=
  if c.finished then (none, c)
  else
    match c.scanner.step with
    | .event e scanner => (some (.ok e), { c with scanner })
    | .unbalanced construct offset =>
      (some (.error (.unbalanced construct offset (Text.lineAt c.script offset))),
        { c with finished := true })
    | .complete => (none, { c with finished := true })

/-- What is given to a reader who has asked a number of times before. -/
def answer : Nat → Cursor → Option (Except SplitError Event)
  | 0, c => c.next.1
  | n + 1, c => answer n c.next.2

end Cursor

/-- The items of a scan: its events, and its error if there is one. -/
def Scan.items (script : List Char) (scan : Scan) : List (Except SplitError Event) :=
  scan.events.map .ok ++ (scan.error? script).toList.map .error

end SqlBatch
