import SqlBatch.Calendar.Reading
import SqlBatch.Decimal.Reading
import SqlBatch.Json.Printer
import SqlBatch.Text.Digits
import SqlBatch.Value.Uuid

/-!
# Values

The values that are bound to placeholders and that queries return.
-/

namespace SqlBatch

inductive Value where
  | null
  | bool (b : Bool)
  | int32 (n : Int32)
  | int64 (n : Int64)
  | float64 (x : Float)
  /-- A decimal number, kept as it was written. -/
  | decimal (s : String)
  | string (s : String)
  | bytes (bs : List UInt8)
  | uuid (u : Uuid)
  | date (d : Calendar.Date)
  | time (t : Calendar.Time)
  | dateTime (t : Calendar.DateTime)
  /-- A moment, as date and time of universal time. -/
  | dateTimeUtc (t : Calendar.DateTime)
  | json (j : Json)
  deriving BEq, Inhabited

namespace Value

def asString? : Value → Option String
  | string s => some s
  | _ => none

/-- The whole number that decimal digits with an optional sign write, if it fits into 64 bits. -/
def parseInt64? (s : String) : Option Int64 :=
  let (negative, digits) := match s.toList with
    | '-' :: ds => (true, ds)
    | '+' :: ds => (false, ds)
    | ds => (false, ds)
  if digits.isEmpty || !digits.all Char.isDigit then none
  else
    let magnitude : Int := Text.digitsValue digits
    let value := if negative then -magnitude else magnitude
    if Int64.minValue.toInt ≤ value ∧ value ≤ Int64.maxValue.toInt then some (Int64.ofInt value)
    else none

/-- The value as a whole number of 64 bits: whole numbers themselves, and texts that write one. -/
def asInt64? : Value → Option Int64
  | int32 n => some n.toInt64
  | int64 n => some n
  | string s => parseInt64? s
  | _ => none

def display : Value → String
  | null => "NULL"
  | bool b => if b then "true" else "false"
  | int32 n => toString n.toInt
  | int64 n => toString n.toInt
  | float64 x => Decimal.Layout.display.text x
  | decimal s => s
  | string s => s
  | bytes bs => s!"<{bs.length} bytes>"
  | uuid u => String.ofList u.text
  | date d => String.ofList d.text
  | time t => String.ofList t.text
  | dateTime t => String.ofList (t.text ' ')
  | dateTimeUtc t => String.ofList (t.text ' ') ++ " UTC"
  | json j => j.render

/-! ### The form of data formats

An object with one field, whose name tells the type; the null value is the bare name. -/

def int32OfJson? (j : Json) : Option Int32 :=
  (j.intBetween? Int32.minValue.toInt Int32.maxValue.toInt).map Int32.ofInt

def int64OfJson? (j : Json) : Option Int64 :=
  (j.intBetween? Int64.minValue.toInt Int64.maxValue.toInt).map Int64.ofInt

def floatOfJson? : Json → Option Float
  | .int n => some (Decimal.floatOfInt n)
  | .float x => some x
  | _ => none

def bytesOfJson? (j : Json) : Option (List UInt8) := do
  let items ← j.items?
  items.mapM fun item => (item.intBetween? 0 255).map fun n => n.toNat.toUInt8

def ofField? (name : String) (j : Json) : Option Value :=
  match name with
  | "Null" => if j == .null then some null else none
  | "Bool" => j.bool?.map bool
  | "Int32" => (int32OfJson? j).map int32
  | "Int64" => (int64OfJson? j).map int64
  | "Float64" => (floatOfJson? j).map float64
  | "Decimal" => j.string?.map decimal
  | "String" => j.string?.map string
  | "Bytes" => (bytesOfJson? j).map bytes
  | "Uuid" => (j.string?.bind Uuid.parse?).map uuid
  | "Date" => (j.string?.bind Calendar.Date.parse?).map date
  | "Time" => (j.string?.bind Calendar.Time.parse?).map time
  | "DateTime" => (j.string?.bind Calendar.DateTime.parse?).map dateTime
  | "DateTimeUtc" => (j.string?.bind Calendar.DateTime.parseUtc?).map dateTimeUtc
  | "Json" => some (json j)
  | _ => none

def ofJson? : Json → Option Value
  | .str "Null" => some null
  | .obj [(name, j)] => ofField? name j
  | _ => none

def toJson : Value → Json
  | null => .str "Null"
  | bool b => .obj [("Bool", .bool b)]
  | int32 n => .obj [("Int32", .int n.toInt)]
  | int64 n => .obj [("Int64", .int n.toInt)]
  | float64 x => .obj [("Float64", .float x)]
  | decimal s => .obj [("Decimal", .str s)]
  | string s => .obj [("String", .str s)]
  | bytes bs => .obj [("Bytes", .arr (bs.map fun b => .int b.toNat))]
  | uuid u => .obj [("Uuid", .str (String.ofList u.text))]
  | date d => .obj [("Date", .str (String.ofList d.text))]
  | time t => .obj [("Time", .str (String.ofList t.text))]
  | dateTime t => .obj [("DateTime", .str (String.ofList (t.text 'T')))]
  | dateTimeUtc t => .obj [("DateTimeUtc", .str (String.ofList (t.text 'T') ++ "Z"))]
  | json j => .obj [("Json", j)]

end Value

end SqlBatch
