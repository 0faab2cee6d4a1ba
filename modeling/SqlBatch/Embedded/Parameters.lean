import SqlBatch.Embedded.Token
import SqlBatch.Value.Basic

/-!
# Parameters

The parameters of a statement have numbers, counted from one. A bare question mark takes the next
number, one with digits takes the number that they write, and a name takes the number that the same
name already has or else the next one. A dollar with digits is a name here, so that its number says
nothing of its digits; it gets the value that its digits count nonetheless. Every other parameter
gets the value at its own number.
-/

namespace SqlBatch

namespace Embedded

namespace Parameters

/-- The names of parameters in the order of their numbers; those that are not mentioned by name have
none. -/
abbrev Names := List (Option String)

def maxNumber : Nat := 32766

/-- The names with one set, if it has none yet, and as many parameters before it as it takes. -/
def setName : Nat → String → Names → Names
  | 0, name, [] => [some name]
  | 0, name, old :: names => some (old.getD name) :: names
  | n + 1, name, [] => none :: setName n name []
  | n + 1, name, old :: names => old :: setName n name names

/-- The number of a parameter with a given text, and the names after it; `none` for a number out of
bounds. -/
def number? (text : List Char) (names : Names) : Option (Nat × Names) :=
  match text with
  | ['?'] => some (names.length + 1, names ++ [none])
  | '?' :: digits =>
    let n := Text.digitsValue digits
    if 1 ≤ n ∧ n ≤ maxNumber then some (n, setName (n - 1) (String.ofList text) names) else none
  | _ =>
    let name := some (String.ofList text)
    match names.idxOf? name with
    | some index => some (index + 1, names)
    | none => some (names.length + 1, names ++ [name])

/-- Gives the parameters among tokens their numbers; the first parameter with a number out of bounds
is an error. -/
def assign : Names → List Token → Except Token (List Token × Names)
  | names, [] => .ok ([], names)
  | names, t :: ts =>
    match t.kind with
    | .parameter _ =>
      match number? t.text names with
      | none => .error t
      | some (n, names) =>
        (assign names ts).map fun (ts, names) => ({ t with kind := .parameter n } :: ts, names)
    | _ => (assign names ts).map fun (ts, names) => (t :: ts, names)

/-- The place among the values, counted from zero, that the digits after a dollar count. -/
def numberedPosition? (name : String) : Option Nat :=
  match name.toList with
  | '$' :: digits =>
    let n := Text.digitsValue digits
    if !digits.isEmpty && digits.all Char.isDigit && 1 ≤ n && n < UInt64.size then some (n - 1)
    else none
  | _ => none

/-- The places of the values of parameters, the first of which has a given place of its own. -/
def positionsFrom : Nat → Names → List Nat
  | _, [] => []
  | index, name :: names =>
    (name.bind numberedPosition?).getD index :: positionsFrom (index + 1) names

def positions (names : Names) : List Nat := positionsFrom 0 names

/-- The number of values that parameters need: one more than the last place used. -/
def needed (names : Names) : Nat :=
  (positions names).foldl (fun most position => max most (position + 1)) 0

/-- The values of parameters in the order of their numbers. There have to be exactly as many values
as are needed. -/
def bind (names : Names) (values : List Value) : Option (List Value) :=
  if values.length = needed names then
    some ((positions names).map fun position => values.getD position .null)
  else none

end Parameters

end Embedded

end SqlBatch
