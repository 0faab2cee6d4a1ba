import SqlBatch.Dictionary

/-!
# JSON values

Numbers keep the difference between whole numbers and doubles. In an object that was read, the
fields are in the order of their names, by code point, and each name occurs once.
-/

namespace SqlBatch

inductive Json where
  | null
  | bool (b : Bool)
  | int (n : Int)
  | float (x : Float)
  | str (s : String)
  | arr (items : List Json)
  | obj (fields : List (String × Json))
  deriving Inhabited, BEq

namespace Json

/-- The object with the given fields; of two of one name the later one stays. -/
def ofFields (fields : List (String × Json)) : Json := .obj (Dictionary.ofList fields)

def field? (j : Json) (name : String) : Option Json :=
  match j with
  | .obj fields => fields.lookup name
  | _ => none

/-- The value of a field of an object, when it is there and not null. -/
def get? (j : Json) (name : String) : Option Json :=
  match j.field? name with
  | some .null => none
  | found => found

def isObject : Json → Bool
  | .obj _ => true
  | _ => false

def string? : Json → Option String
  | .str s => some s
  | _ => none

def bool? : Json → Option Bool
  | .bool b => some b
  | _ => none

def items? : Json → Option (List Json)
  | .arr items => some items
  | _ => none

def fields? : Json → Option (List (String × Json))
  | .obj fields => some fields
  | _ => none

/-- The fields of a record: those of an object, or the items of an array in the order of the
record's names. -/
def record? (names : List String) : Json → Option (List (String × Json))
  | .obj fields => some fields
  | .arr items => if items.length ≤ names.length then some (names.zip items) else none
  | _ => none

/-- The fields of a record of which an array gives all. -/
def fullRecord? (names : List String) (j : Json) : Option (List (String × Json)) :=
  match j with
  | .arr items => if items.length = names.length then j.record? names else none
  | _ => j.record? names

def intBetween? (low high : Int) : Json → Option Int
  | .int n => if low ≤ n ∧ n ≤ high then some n else none
  | _ => none

/-- A whole number of at most 64 bits that is not negative. -/
def count? (j : Json) : Option Nat := (j.intBetween? 0 (UInt64.size - 1)).map Int.toNat

def strings? (j : Json) : Option (List String) := do
  let items ← j.items?
  items.mapM string?

/-- Reads a field that may be missing or null. -/
def optional? {α : Type} (read : Json → Option α) : Option Json → Option (Option α)
  | none | some .null => some none
  | some j => (read j).map some

def ofOption : Option Json → Json
  | some j => j
  | none => .null

end Json

end SqlBatch
