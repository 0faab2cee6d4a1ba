import SqlBatch.Embedded.Table

/-!
# The database

A database is a list of tables. A command is checked against the tables before it runs, and a
command that fails changes nothing. References between tables are not checked row by row but when a
transaction ends.
-/

namespace SqlBatch

namespace Embedded

structure Database where
  tables : List Table := []

namespace Database

def table? (db : Database) (name : String) : Option Table :=
  db.tables.find? fun t => sameName t.name name

/-- The table with a name, which has to be there. -/
def table (db : Database) (name : String) : Except DatabaseError Table :=
  match db.table? name with
  | some t => .ok t
  | none => .error ⟨1, s!"no such table: {name}"⟩

def replace (db : Database) (t : Table) : Database :=
  ⟨db.tables.map fun old => if sameName old.name t.name then t else old⟩

def isKeyOf (t : Table) (cell : Cell) : Bool :=
  match cell.stored .numeric with
  | .integer n => t.keys.contains n.toInt
  | _ => false

/-- Whether some row refers to a key that is not there; a null refers to none. -/
def hasDanglingReference (db : Database) : Bool :=
  db.tables.any fun t =>
    t.columns.zipIdx.any fun (c, index) =>
      match c.references with
      | some parent =>
        (t.valuesOf index).any fun cell =>
          cell != .null && !(db.table? parent).any (isKeyOf · cell)
      | none => false

def errorAt (source : List Char) (start : Nat) (text : String) : DatabaseError :=
  ⟨1, text ++ " in " ++ String.ofList source ++
    s!" at offset {Text.byteLength (source.take start)}"⟩

/-- The error of a command that cannot be read, at the tokens that are left. A text that ends too
early says nothing of a place. -/
def syntaxError (source : List Char) : List Token → DatabaseError
  | [] => ⟨1, "incomplete input"⟩
  | t :: _ =>
    let text := String.ofList t.text
    if t.kind == .unknown then errorAt source t.start ("unrecognized token: \"" ++ text ++ "\"")
    else errorAt source t.start ("near \"" ++ text ++ "\": syntax error")

def titlesOf (source : List Char) (t : Option Table) :
    SelectItem → Except DatabaseError (List String)
  | .value _ title | .count title => .ok [title]
  | .all =>
    match t with
    | some t => .ok (t.columns.map (·.name))
    | none => .error ⟨1, "no tables specified"⟩
  | .column name start =>
    match t.bind fun t => t.columns.find? fun c => sameName c.name name with
    | some c => .ok [c.name]
    | none => .error (errorAt source start s!"no such column: {name}")

/-- Why the rows of a table cannot change, if they cannot: a table that it refers to is missing. -/
def missingParent? (db : Database) (t : Table) : Option DatabaseError :=
  t.columns.findSome? fun c => c.references.bind fun parent =>
    if (db.table? parent).isSome then none
    else some (⟨1, s!"no such table: main.{parent}"⟩ : DatabaseError)

/-- Why rows do not fit a table or the columns named, if they do not. -/
def misfit? (t : Table) (name : String) (columns : Option (List String))
    (rows : List (List Operand)) : Option DatabaseError :=
  let unknown := (columns.getD []).findSome? fun column =>
    if (t.columnIndex? column).isSome then none
    else some (⟨1, s!"table {name} has no column named {column}"⟩ : DatabaseError)
  let uneven := rows.findSome? fun row =>
    match columns with
    | some columns =>
      if row.length = columns.length then none
      else some (⟨1, s!"{row.length} values for {columns.length} columns"⟩ : DatabaseError)
    | none =>
      if row.length = t.columns.length then none
      else
        some ⟨1,
          s!"table {name} has {t.columns.length} columns but {row.length} values were supplied"⟩
  unknown.or uneven

/-- Checks a command against the tables. The answer names the columns that it returns, if it returns
any. -/
def check (db : Database) (source : List Char) : Command → Except DatabaseError (List String)
  | .createTable name start _ =>
    if (db.table? name).isSome then
      .error (errorAt source start s!"table {name} already exists")
    else .ok []
  | .insert name columns rows => do
    let t ← db.table name
    match (misfit? t name columns rows).or (db.missingParent? t) with
    | some e => throw e
    | none => return []
  | .delete name => do
    let t ← db.table name
    match db.missingParent? t with
    | some e => throw e
    | none => return []
  | .select items none => do
    let titles ← items.mapM (titlesOf source none)
    return titles.flatten
  | .select items (some name) => do
    let t ← db.table name
    let titles ← items.mapM (titlesOf source (some t))
    return titles.flatten
  | .pragma name =>
    if sameName name "foreign_keys" then .ok ["foreign_keys"]
    else if sameName name "journal_mode" then .ok ["journal_mode"]
    else .ok []
  | .begin | .commit | .rollback => .ok []

def evaluate (parameters : List Cell) : Operand → Cell
  | .cell c => c
  | .parameter n => parameters.getD (n - 1) .null
  | .castText inner => (evaluate parameters inner).asText

/-- The values of all columns of a row, of which some are given by name. -/
def arrange (t : Table) (columns : Option (List String)) (given : List Cell) : List Cell :=
  match columns with
  | none => given
  | some names =>
    t.columns.map fun c =>
      match (names.zip given).find? fun (name, _) => sameName name c.name with
      | some (_, cell) => cell
      | none => .null

def insert (db : Database) (name : String) (columns : Option (List String))
    (rows : List (List Cell)) : Except DatabaseError Database := do
  let t ← db.table name
  let t ← rows.foldlM (fun t row => t.insert (arrange t columns row)) t
  return db.replace t

def itemCells (parameters : List Cell) (t : Table) (row : StoredRow) : SelectItem → List Cell
  | .value o _ => [evaluate parameters o]
  | .column name _ => [((t.columnIndex? name).bind fun index => row.cells[index]?).getD .null]
  | .all => row.cells
  | .count _ => [.integer (Int64.ofNat t.rows.length)]

def isCount : SelectItem → Bool
  | .count _ => true
  | _ => false

/-- The rows that a query returns. A query that counts rows returns one, and one without a table has
a single row to look at. -/
def query (db : Database) (parameters : List Cell) (items : List SelectItem)
    (name : Option String) : Except DatabaseError (List (List Cell)) := do
  let one : Table := { name := "", columns := [], rows := [⟨1, []⟩] }
  let t ← match name with
    | some name => db.table name
    | none => .ok one
  let rows := if items.any isCount then [t.rows.getLastD ⟨0, []⟩] else t.rows
  return rows.map fun row => items.flatMap (itemCells parameters t row)

end Database

end Embedded

end SqlBatch
