/-!
# TOML tables

A table is built line by line. Its text values and truth values are kept, and of any other value
only that it is there. Each table knows how it came about, because that decides what later lines may
add to it: a table with a header of its own is complete once its lines end, one that only leads to
other headers may still get its own header, and one that dotted names made grows by dotted names
alone.
-/

namespace SqlBatch

namespace Toml

/-- How a table came about. -/
inductive Origin where
  | header
  | leading
  | dotted
  deriving DecidableEq, Repr

/-- What a name in a table stands for. -/
inductive Node where
  | text (s : String)
  | boolean (b : Bool)
  /-- A number, a date, a time, an array or a table inside a line. -/
  | other
  | table (origin : Origin) (entries : List (String × Node))
  /-- Tables that share one header, the last one first. -/
  | tables (items : List (List (String × Node)))
  deriving Inhabited

abbrev Entries := List (String × Node)

namespace Entries

/-- The entries with a name set to something else, at its old place if it is there. -/
def set (name : String) (node : Node) : Entries → Entries
  | [] => [(name, node)]
  | (n, old) :: entries =>
    if n = name then (n, node) :: entries else (n, old) :: set name node entries

/-- Changes the table that a path leads to, given how it came about; the tables on the way are made
where they are missing. A path of dotted names does not enter a table with a header. -/
def alter (dotted : Bool) (change : Origin → Entries → Option Entries) :
    List String → Origin → Entries → Option Entries
  | [], origin, entries => change origin entries
  | name :: path, _, entries =>
    match entries.lookup name with
    | none =>
      let made := if dotted then Origin.dotted else .leading
      (alter dotted change path made []).map fun inner => entries.set name (.table made inner)
    | some (.table origin inner) =>
      if dotted && origin = .header then none
      else
        (alter dotted change path origin inner).map fun inner =>
          entries.set name (.table origin inner)
    | some (.tables (last :: others)) =>
      (alter dotted change path .header last).map fun last =>
        entries.set name (.tables (last :: others))
    | some _ => none

/-- Adds a name that is new to a table, reached from another table by dotted names. -/
def insert (path : List String) (name : String) (node : Node) (entries : Entries) :
    Option Entries :=
  let add (origin : Origin) (target : Entries) : Option Entries :=
    if (path.isEmpty || origin = .dotted) && (target.lookup name).isNone then
      some (target ++ [(name, node)])
    else none
  alter true add path .header entries

end Entries

/-- A document that is being read: its tables so far, and the path of the header under which the
next lines stand. -/
structure Document where
  root : Entries := []
  path : List String := []

namespace Document

/-- Goes on under a header, given what the header's name stands for in the table around it and what
it stands for from now on. -/
def openAt (path : List String) (enter : Option Node → Option Node) (d : Document) :
    Option Document := do
  let name ← path.getLast?
  let set (_ : Origin) (parent : Entries) : Option Entries := do
    let node ← enter (parent.lookup name)
    return parent.set name node
  let root ← Entries.alter false set path.dropLast .header d.root
  return { root, path }

/-- Goes on under the header of one table. The table may be there only because other headers lead
through it. -/
def openTable (path : List String) : Document → Option Document :=
  openAt path fun
    | none => some (.table .header [])
    | some (.table .leading inner) => some (.table .header inner)
    | some _ => none

/-- Goes on under one more header of a list of tables. -/
def openNext (path : List String) : Document → Option Document :=
  openAt path fun
    | none => some (.tables [[]])
    | some (.tables items) => some (.tables ([] :: items))
    | some _ => none

/-- Adds what a dotted name stands for to the table of the last header. -/
def insert (path : List String) (name : String) (node : Node) (d : Document) : Option Document := do
  let add (_ : Origin) (current : Entries) : Option Entries := current.insert path name node
  let root ← Entries.alter false add d.path .header d.root
  return { d with root }

end Document

end Toml

end SqlBatch
