import SqlBatch.Embedded.Cell
import SqlBatch.Embedded.Token

/-!
# Commands of the database

The database understands a small part of SQL: tables with a few constraints, rows of plain values
that are inserted and all deleted at once, queries without conditions, and transactions. A command
that is malformed is refused at the token where it can no longer be read.
-/

namespace SqlBatch

namespace Embedded

inductive Operand where
  | cell (c : Cell)
  /-- The value of the parameter with a number. -/
  | parameter (number : Nat)
  /-- A value as text. -/
  | castText (operand : Operand)

/-- What a query returns. -/
inductive SelectItem where
  | value (operand : Operand) (title : String)
  /-- A column, and the place of its name. -/
  | column (name : String) (start : Nat)
  | all
  | count (title : String)

inductive Comparison where
  | lt
  | le
  | eq
  | ne
  | ge
  | gt
  deriving DecidableEq, Repr

/-- A condition that the value of a column has to meet, with its text. -/
structure Check where
  column : String
  comparison : Comparison
  bound : Int
  text : String
  deriving DecidableEq, Repr

structure Column where
  name : String
  affinity : Affinity := .none
  /-- The column numbers the rows. -/
  isKey : Bool := false
  notNull : Bool := false
  check : Option Check := none
  /-- The table in whose key the values of the column have to occur when a transaction ends. -/
  references : Option String := none
  deriving DecidableEq, Repr

inductive Command where
  /-- A new table; its name stands at a given place. -/
  | createTable (name : String) (start : Nat) (columns : List Column)
  | insert (table : String) (columns : Option (List String)) (rows : List (List Operand))
  | delete (table : String)
  | select (items : List SelectItem) (table : Option String)
  | pragma (name : String)
  | begin
  | commit
  | rollback

namespace Command

open Token

/-- A reader takes tokens from the front of a list, or fails with the tokens that it cannot read. -/
abbrev Reader := StateT (List Token) (Except (List Token))

/-- The words that are no names. -/
def reserved : List String :=
  ["SELECT", "FROM", "INSERT", "INTO", "VALUES", "DELETE", "CREATE", "TABLE", "COMMIT", "AS", "NOT",
    "NULL", "WHERE", "PRIMARY", "REFERENCES", "CHECK", "UNIQUE", "DEFAULT", "CONSTRAINT", "COLLATE",
    "AND", "OR", "ORDER", "GROUP", "LIMIT", "SET", "UPDATE", "DROP", "ALTER", "JOIN", "ON", "UNION",
    "CASE", "WHEN", "THEN", "ELSE"]

def refuse {α : Type} : Reader α := fun ts => .error ts

def peek : Reader Token := fun
  | [] => .error []
  | t :: ts => .ok (t, t :: ts)

def token (meets : Token → Bool) : Reader Token := fun
  | [] => .error []
  | t :: ts => if meets t then .ok (t, ts) else .error (t :: ts)

/-- Takes a token that meets a condition, if one stands here, and tells whether. -/
def taken (meets : Token → Bool) : Reader Bool := fun
  | [] => .ok (false, [])
  | t :: ts => if meets t then .ok (true, ts) else .ok (false, t :: ts)

def keyword (word : String) : Reader Unit := discard (token (isKeyword word))

def mark (text : String) : Reader Unit := discard (token (isMark text))

def nameOf? (t : Token) : Option String :=
  match t.kind with
  | .word s => if reserved.any (isKeyword · t) then none else some s
  | _ => none

def name : Reader String := do
  match nameOf? (← peek) with
  | some s => do
    discard (token fun _ => true)
    return s
  | none => refuse

def commaList {α : Type} (item : Reader α) : Nat → Reader (List α)
  | 0 => refuse
  | fuel + 1 => do
    let a ← item
    if ← taken (isMark ",") then
      let others ← commaList item fuel
      return a :: others
    else return [a]

/-- Reads one or more things with commas between them, in parentheses. -/
def tuple {α : Type} (item : Reader α) : Reader (List α) := do
  mark "("
  let items ← commaList item (← get).length
  mark ")"
  return items

def integer : Reader Int := do
  let negative ← taken (isMark "-")
  match (← peek).kind with
  | .integer n =>
    discard (token fun _ => true)
    return if negative then -n else n
  | _ => refuse

def operand : Nat → Reader Operand
  | 0 => refuse
  | fuel + 1 => do
    let t ← peek
    match t.kind with
    | .string s =>
      discard (token fun _ => true)
      return .cell (.text s)
    | .parameter n =>
      discard (token fun _ => true)
      return .parameter n
    | .integer _ | .mark => return .cell (.ofInt (← integer))
    | .word _ =>
      if ← taken (isKeyword "NULL") then return .cell .null
      else
        keyword "CAST"
        mark "("
        let inner ← operand fuel
        keyword "AS"
        keyword "TEXT"
        mark ")"
        return .castText inner
    | .unknown => refuse

/-- Reads something together with its text in the source. The text reaches up to the next token,
less the blanks at its end. -/
def withSource {α : Type} (source : List Char) (read : Reader α) : Reader (α × String) := do
  let first ← peek
  let a ← read
  let stop := match ← get with
    | next :: _ => next.start
    | [] => source.length
  let text := (source.take stop).drop first.start
  return (a, String.ofList (text.reverse.dropWhile Text.isGap).reverse)

def selectItem (source : List Char) : Reader SelectItem := do
  let t ← peek
  if ← taken (isMark "*") then return .all
  else if isKeyword "COUNT" t then
    let (_, title) ← withSource source do
      keyword "COUNT"
      mark "("
      mark "*"
      mark ")"
    return .count title
  else if isKeyword "CAST" t || (nameOf? t).isNone then
    let (o, title) ← withSource source (operand (← get).length)
    return .value o title
  else return .column (← name) t.start

def affinityOf (type : List Char) : Affinity :=
  let upper := type.map Char.toUpper
  let mentions (word : String) : Bool := Text.occursIn word.toList upper
  if mentions "INT" then .numeric
  else if mentions "CHAR" || mentions "CLOB" || mentions "TEXT" then .text
  else if mentions "BLOB" || type.isEmpty then .none
  else .numeric

def comparison : Reader Comparison := do
  let t ← peek
  match [("<", Comparison.lt), ("<=", .le), ("=", .eq), ("==", .eq), ("<>", .ne), ("!=", .ne),
      (">=", .ge), (">", .gt)].lookup (String.ofList t.text) with
  | some c =>
    discard (token fun _ => true)
    return c
  | none => refuse

def check (source : List Char) : Reader Check := do
  mark "("
  let ((column, comparison, bound), text) ← withSource source do
    return (← name, ← comparison, ← integer)
  mark ")"
  return { column, comparison, bound, text }

/-- Reads the constraints of a column; only a column with the type INTEGER can number the rows. -/
def constraints (source : List Char) (integerType : Bool) : Nat → Column → Reader Column
  | 0, column => return column
  | fuel + 1, column => do
    if ← taken (isKeyword "PRIMARY") then
      keyword "KEY"
      constraints source integerType fuel { column with isKey := integerType }
    else if ← taken (isKeyword "NOT") then
      keyword "NULL"
      constraints source integerType fuel { column with notNull := true }
    else if ← taken (isKeyword "CHECK") then
      let found ← check source
      constraints source integerType fuel { column with check := some found }
    else if ← taken (isKeyword "REFERENCES") then
      let table ← name
      discard (tuple name)
      constraints source integerType fuel { column with references := some table }
    else if ← taken fun t => ["DEFERRABLE", "INITIALLY", "DEFERRED"].any (isKeyword · t) then
      constraints source integerType fuel column
    else return column

/-- Reads a column: its name, its type of any number of words, and its constraints. -/
def column (source : List Char) : Reader Column := do
  let columnName ← name
  let type := (← get).takeWhile fun t => (nameOf? t).isSome
  modify (·.drop type.length)
  let integerType := match type with
    | [t] => isKeyword "INTEGER" t
    | _ => false
  constraints source integerType (← get).length
    { name := columnName, affinity := affinityOf (type.flatMap (·.text)) }

def read (source : List Char) : Reader Command := do
  if ← taken (isKeyword "CREATE") then
    keyword "TABLE"
    let start := (← peek).start
    let table ← name
    return createTable table start (← tuple (column source))
  else if ← taken (isKeyword "INSERT") then
    keyword "INTO"
    let table ← name
    let columns ← if ((← get).head?.any (isMark "(")) then some <$> tuple name else pure none
    keyword "VALUES"
    return insert table columns (← commaList (tuple do operand (← get).length) (← get).length)
  else if ← taken (isKeyword "DELETE") then
    keyword "FROM"
    return delete (← name)
  else if ← taken (isKeyword "SELECT") then
    let items ← commaList (selectItem source) (← get).length
    if ← taken (isKeyword "FROM") then return select items (some (← name))
    else return select items none
  else if ← taken (isKeyword "PRAGMA") then return pragma (← name)
  else if ← taken (isKeyword "BEGIN") then
    discard (taken fun t => ["DEFERRED", "IMMEDIATE", "EXCLUSIVE"].any (isKeyword · t))
    discard (taken (isKeyword "TRANSACTION"))
    return begin
  else if ← taken fun t => isKeyword "COMMIT" t || isKeyword "END" t then
    discard (taken (isKeyword "TRANSACTION"))
    return commit
  else if ← taken (isKeyword "ROLLBACK") then
    discard (taken (isKeyword "TRANSACTION"))
    return rollback
  else refuse

/-- The command that the tokens of a source write, or the tokens where it can no longer be read. -/
def ofTokens (source : List Char) (tokens : List Token) : Except (List Token) Command :=
  match read source tokens with
  | .ok (command, []) => .ok command
  | .ok (_, rest) => .error rest
  | .error rest => .error rest

end Command

end Embedded

end SqlBatch
