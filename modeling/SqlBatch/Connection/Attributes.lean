import SqlBatch.Dictionary
import SqlBatch.Value.Basic

/-!
# Attributes of statements

Attributes go with every statement of a batch. A connection looks at those that it knows and passes
over the others.
-/

namespace SqlBatch

/-- Named values that go with a statement. -/
structure Attributes where
  entries : Dictionary Value := []
  deriving BEq, Inhabited

namespace Attributes

def insert (name : String) (value : Value) (attributes : Attributes) : Attributes :=
  ⟨Dictionary.insert name value attributes.entries⟩

def get? (attributes : Attributes) (name : String) : Option Value := attributes.entries.lookup name

def size (attributes : Attributes) : Nat := attributes.entries.length

def isEmpty (attributes : Attributes) : Bool := attributes.entries.isEmpty

def ofJson? (j : Json) : Option Attributes := do
  let fields ← j.fields?
  let entries ← fields.mapM fun (name, value) => do
    let value ← Value.ofJson? value
    return (name, value)
  return ⟨Dictionary.ofList entries⟩

def toJson (attributes : Attributes) : Json :=
  .obj (attributes.entries.map fun (name, value) => (name, value.toJson))

theorem get?_insert (name other : String) (value : Value) (attributes : Attributes) :
    (attributes.insert name value).get? other =
      if other = name then some value else attributes.get? other :=
  Dictionary.lookup_insert name other value attributes.entries

end Attributes

end SqlBatch
