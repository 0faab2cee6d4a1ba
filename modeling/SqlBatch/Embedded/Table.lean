import SqlBatch.Embedded.Command

/-!
# Tables

A table keeps its rows in the order of their numbers. The column that numbers the rows takes the
next number where none is given. A row that violates a constraint is refused, and with it all rows
that were to be inserted together.
-/

namespace SqlBatch

namespace Embedded

/-- What a database says when it refuses something: a code and a text. -/
structure DatabaseError where
  code : Nat
  text : String
  deriving DecidableEq, Repr

structure StoredRow where
  number : Int
  cells : List Cell
  deriving BEq, Inhabited

structure Table where
  name : String
  columns : List Column
  rows : List StoredRow := []

def sameName (a b : String) : Bool := Text.sameWord a.toList b.toList

namespace Comparison

def holds : Comparison → Ordering → Bool
  | lt, o => o == .lt
  | le, o => o != .gt
  | eq, o => o == .eq
  | ne, o => o != .eq
  | ge, o => o != .lt
  | gt, o => o == .gt

end Comparison

namespace Table

def columnIndex? (t : Table) (name : String) : Option Nat :=
  t.columns.findIdx? fun c => sameName c.name name

def nextNumber (t : Table) : Int := (t.rows.getLast?.map fun row => row.number + 1).getD 1

/-- The number of a row whose key column is given; a key has to be a whole number. -/
def numberOf (t : Table) (key : Cell) : Except DatabaseError Int :=
  match key.stored .numeric with
  | .null => .ok t.nextNumber
  | .integer n => .ok n.toInt
  | _ => .error ⟨20, "datatype mismatch"⟩

/-- Whether a value meets the condition of a column; a null meets every condition. -/
def meets (check : Check) (cell : Cell) : Bool :=
  match cell.compareInteger? (Int64.ofInt check.bound) with
  | some order => check.comparison.holds order
  | none => true

/-- The first constraint that cells violate: a null where none may be, then a condition that is not
met. -/
def violation? (t : Table) (cells : List Cell) : Option DatabaseError :=
  let named := t.columns.zip cells
  let missing := named.findSome? fun (c, cell) =>
    if c.notNull && cell == .null then
      some (⟨1299, s!"NOT NULL constraint failed: {t.name}.{c.name}"⟩ : DatabaseError)
    else none
  let unmet := named.findSome? fun (c, _) => c.check.bind fun check =>
    let cell := (named.find? fun (c, _) => sameName c.name check.column).map (·.2)
    if meets check (cell.getD .null) then none
    else some (⟨275, s!"CHECK constraint failed: {check.text}"⟩ : DatabaseError)
  missing.or unmet

/-- The rows with one more at the place of its number. -/
def place (row : StoredRow) : List StoredRow → List StoredRow
  | [] => [row]
  | r :: rows => if row.number < r.number then row :: r :: rows else r :: place row rows

def insert (t : Table) (given : List Cell) : Except DatabaseError Table := do
  let key? := t.columns.findIdx? (·.isKey)
  let number ← match key? with
    | some index => t.numberOf (given.getD index .null)
    | none => .ok t.nextNumber
  let cells := List.zipWith
    (fun c cell => if c.isKey then .ofInt number else Cell.stored c.affinity cell) t.columns given
  match t.violation? cells with
  | some e => throw e
  | none =>
    if t.rows.any (·.number = number) then
      let column := ((key?.bind fun index => t.columns[index]?).map (·.name)).getD ""
      throw ⟨1555, s!"UNIQUE constraint failed: {t.name}.{column}"⟩
    else return { t with rows := place ⟨number, cells⟩ t.rows }

def valuesOf (t : Table) (index : Nat) : List Cell :=
  t.rows.map fun row => row.cells.getD index .null

def keys (t : Table) : List Int := t.rows.map (·.number)

end Table

end Embedded

end SqlBatch
