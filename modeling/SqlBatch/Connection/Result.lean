import SqlBatch.Value.Basic

/-!
# Results of statements
-/

namespace SqlBatch

/-- A row of a result, with the names of its columns. -/
structure Row where
  columns : List String
  values : List Value
  deriving BEq, Inhabited

def Row.get? (row : Row) (index : Nat) : Option Value := row.values[index]?

/-- The value in the first column of a name. -/
def Row.getByName? (row : Row) (name : String) : Option Value := do
  let index ← row.columns.idxOf? name
  row.values[index]?

/-- The rows that a query returns, and the names of its columns. -/
structure QueryResult where
  columns : List String := []
  rows : List Row := []
  deriving BEq, Inhabited

namespace QueryResult

def ofValues (columns : List String) (rows : List (List Value)) : QueryResult :=
  ⟨columns, rows.map (Row.mk columns)⟩

def scalar? (result : QueryResult) : Option Value := result.rows.head?.bind (·.get? 0)

end QueryResult

/-- What a statement that succeeds gives: rows, or the number of rows that it changed. -/
inductive StatementResult where
  | rows (result : QueryResult)
  | affected (count : UInt64)
  deriving BEq

namespace StatementResult

/-- Whether the statement returned rows, if only none. -/
def isQuery : StatementResult → Bool
  | rows _ => true
  | affected _ => false

def result? : StatementResult → Option QueryResult
  | rows result => some result
  | affected _ => none

/-- The number of rows changed; a query changes none. -/
def affectedRows : StatementResult → UInt64
  | rows _ => 0
  | affected count => count

end StatementResult

end SqlBatch
