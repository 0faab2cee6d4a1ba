import SqlBatch.Connection.Failure
import SqlBatch.Embedded.Session

/-!
# Databases in files

A database is kept in memory or in a file. The name of a file may start at the home directory or
leave out the working directory, or it may be given as a URI with parameters. A database in a file
is opened only where a file can be.
-/

namespace SqlBatch

namespace Embedded

inductive FileContent where
  | database (db : Database)
  /-- Bytes that no database has written. -/
  | bytes (count : Nat)

/-- A path as the names on the way from the root. -/
abbrev Location := List String

/-- The directories and files that databases are opened in. -/
structure Disk where
  /-- The text of the working directory, which starts with a slash. -/
  workingDirectory : String := "/"
  home : Option String := none
  directories : List Location := [[]]
  files : List (Location × FileContent) := []

/-- The names in a path, without those that stay where they are. -/
def pathNames (path : String) : List String :=
  ((path.splitOn "/").filter fun name => !name.isEmpty && name != ".")

namespace Disk

/-- The text of a path that starts at another one; a path from the root starts anew. -/
def join (base path : String) : String :=
  if path.startsWith "/" then path
  else if base.endsWith "/" then base ++ path
  else base ++ "/" ++ path

/-- Where a path leads, whether or not the directories on the way are there. -/
def locate (d : Disk) (path : String) : Location :=
  let step (at_ : Location) (name : String) : Location :=
    if name == ".." then at_.dropLast else at_ ++ [name]
  (pathNames (join d.workingDirectory path)).foldl step []

/-- Whether a path leads to a directory or a file through directories that are there. -/
def contains (d : Disk) (path : String) : Bool :=
  let step (at? : Option Location) (name : String) : Option Location := at?.bind fun place =>
    if !d.directories.contains place then none
    else if name == ".." then some place.dropLast
    else some (place ++ [name])
  match (pathNames (join d.workingDirectory path)).foldl step (some []) with
  | some place => d.directories.contains place || d.files.any fun (file, _) => file == place
  | none => false

/-- The end of a path without slashes, and without names that stay where they are; last character
first. -/
def trimEnd : List Char → List Char
  | '/' :: cs => trimEnd cs
  | '.' :: '/' :: cs => trimEnd cs
  | cs => cs

/-- The text of the directory around a path from the root; the root has none. -/
def parent? (path : String) : Option String :=
  match trimEnd path.toList.reverse with
  | [] => none
  | cs =>
    match trimEnd (cs.dropWhile (· ≠ '/')) with
    | [] => some "/"
    | parent => some (String.ofList parent.reverse)

/-- The text of a path from the root; a URI stays as it is. -/
def expand (d : Disk) (path : String) : Except ConnectionError String :=
  match path.toList with
  | 'f' :: 'i' :: 'l' :: 'e' :: ':' :: _ => .ok path
  | '~' :: '/' :: rest =>
    match d.home with
    | some home => .ok (join d.workingDirectory (join home (String.ofList rest)))
    | none => .error ⟨.configuration, "Unable to determine HOME directory"⟩
  | '~' :: _ => .error ⟨.configuration, "User-specific home directories (~user) are not supported"⟩
  | _ => .ok (join d.workingDirectory path)

/-- The text of a part of a URI, in which a percent sign and two digits stand for a byte. -/
def decodePercent : List Char → List UInt8
  | '%' :: a :: b :: cs =>
    match Text.hexNumber? [a, b] with
    | some n => n.toUInt8 :: decodePercent cs
    | none => "%".toUTF8.toList ++ decodePercent (a :: b :: cs)
  | c :: cs => (String.singleton c).toUTF8.toList ++ decodePercent cs
  | [] => []

/-- The name of a file and the mode in which it is to be opened. -/
structure Target where
  name : String
  mode : Option String := none

/-- What a path or a URI asks for. -/
def target (path : String) : Except String Target :=
  match path.toList with
  | 'f' :: 'i' :: 'l' :: 'e' :: ':' :: rest =>
    let text := rest.takeWhile (· ≠ '#')
    let address := text.takeWhile (· ≠ '?')
    let parameters := (String.ofList (text.dropWhile (· ≠ '?')).tail).splitOn "&"
    let mode := (parameters.filter (·.startsWith "mode=")).getLast?.map fun p =>
      (p.drop 5).toString
    let named (address : List Char) : Target := ⟨Text.ofBytes (decodePercent address), mode⟩
    match address with
    | '/' :: '/' :: rest =>
      let authority := String.ofList (rest.takeWhile (· ≠ '/'))
      if authority == "" || authority == "localhost" then .ok (named (rest.dropWhile (· ≠ '/')))
      else .error s!"invalid uri authority: {authority}"
    | _ => .ok (named address)
  | _ => .ok ⟨path, none⟩

abbrev Opened := Session × Option Location

/-- A session with the database in a file, which is made if it is missing and may be made. -/
def openFile (d : Disk) (path name : String) (create writable : Bool) : Except String Opened :=
  let place := d.locate name
  let refused := s!"unable to open database file: {path}"
  if d.directories.contains place || !d.directories.contains place.dropLast then .error refused
  else
    match d.files.lookup place with
    | some (.database db) => .ok ({ current := db, journal := "wal", writable }, some place)
    | some (.bytes _) => .ok ({ journal := "wal", writable }, some place)
    | none => if create then .ok ({ journal := "wal" }, some place) else .error refused

def openTarget (d : Disk) (path : String) : Except String Opened := do
  let t ← target path
  if t.mode == some "memory" || t.name == ":memory:" then return ({}, none)
  else if t.name.isEmpty then return ({ journal := "delete" }, none)
  else
    match t.mode with
    | none | some "rwc" => d.openFile path t.name true true
    | some "rw" => d.openFile path t.name false true
    | some "ro" => d.openFile path t.name false false
    | some mode => throw s!"no such access mode: {mode}"

/-- Whether a file holds what no database has written. A single byte counts as nothing. -/
def isForeign (d : Disk) (place : Location) : Bool :=
  match d.files.lookup place with
  | some (.bytes count) => 1 < count
  | _ => false

def openAt (d : Disk) (path : String) : Except ConnectionError Opened := do
  if !path.startsWith "file:" then
    match parent? path with
    | some parent =>
      if !d.contains parent then
        throw ⟨.connection, s!"Parent directory does not exist: {parent}"⟩
    | none => pure ()
  match d.openTarget path with
  | .error text => throw ⟨.connection, s!"Failed to open SQLite database at '{path}': {text}"⟩
  | .ok (session, file?) =>
    if file?.any d.isForeign then
      throw ⟨.connection, "Failed to set journal mode: file is not a database"⟩
    else return (session, file?)

def store (d : Disk) (place : Location) (db : Database) : Disk :=
  { d with files := (place, .database db) :: d.files.filter fun (file, _) => file != place }

end Disk

end Embedded

end SqlBatch
