import Schemata.DecodeError
import Schemata.Entries

/-!
# Typed values

Types of values that a program works with, as a reading of decoded values and as
values to encode.  A number is read by what it is: an integer also as a float, a
float never as an integer.

**Results.**  `decodeInto` reads the outcome of a decoding, and tells a value that
does not decode from one that only is not of the type.
-/

namespace Schemata
namespace Typed

open Json (Value)

/-- Types that values can be read as. -/
class FromValue (α : Type) where
  ofValue? : Value → Option α

/-- Why a typed value is no value. -/
inductive WriteError where
  /-- A key of a map has no text. -/
  | keyNotText
deriving Repr, DecidableEq

def WriteError.message : WriteError → String
  | .keyNotText => "key must be a string"

/-- Types whose values can be written. -/
class ToValue (α : Type) where
  toValue : α → Except WriteError Value

/-- Types whose values can be keys. -/
class KeyText (α : Type) where
  keyText? : α → Option String

/-- An integer in a range. -/
def integerWithin? (low high : Int) : Value → Option Int
  | .number (.integer value) => if low ≤ value ∧ value ≤ high then some value else none
  | _ => none

/-! ## Scalars -/

instance : FromValue Int64 where
  ofValue? value := (integerWithin? (-0x8000000000000000) 0x7FFFFFFFFFFFFFFF value).map Int64.ofInt

instance : FromValue UInt8 where
  ofValue? value := (integerWithin? 0 255 value).map fun n => UInt8.ofNat n.toNat

instance : FromValue Float where
  ofValue?
    | .number number => some number.toFloat
    | _ => none

instance : FromValue Bool where
  ofValue?
    | .bool value => some value
    | _ => none

instance : FromValue String where
  ofValue? := Value.text?

instance : ToValue Int64 where
  toValue n := .ok (.number (.integer n.toInt))

instance : ToValue UInt64 where
  toValue n := .ok (.number (.integer n.toNat))

instance : ToValue UInt8 where
  toValue n := .ok (.number (.integer n.toNat))

instance : ToValue Bool where
  toValue value := .ok (.bool value)

instance : ToValue String where
  toValue text := .ok (.string text)

instance : ToValue Unit where
  toValue _ := .ok .null

/-- A float that is no number of JSON is written as null. -/
instance : ToValue Float where
  toValue value := .ok (if value.isFinite then .number (.float value) else .null)

instance : KeyText String where
  keyText? text := some text

/-! ## Containers -/

section Containers

variable {α β : Type}

/-- Null is the absence of a value. -/
instance [FromValue α] : FromValue (Option α) where
  ofValue?
    | .null => some none
    | value => (FromValue.ofValue? value).map some

instance [ToValue α] : ToValue (Option α) where
  toValue
    | none => .ok .null
    | some value => ToValue.toValue value

instance [FromValue α] : FromValue (List α) where
  ofValue?
    | .array items => items.mapM FromValue.ofValue?
    | _ => none

instance [ToValue α] : ToValue (List α) where
  toValue items := do pure (.array (← items.mapM ToValue.toValue))

instance [ToValue α] [ToValue β] : ToValue (α × β) where
  toValue pair := do
    let first ← ToValue.toValue pair.1
    let second ← ToValue.toValue pair.2
    pure (.array [first, second])

/-- No pair is a text. -/
instance : KeyText (α × β) where
  keyText? _ := none

/-- Values under keys, in the order of the keys. -/
structure Map (κ α : Type) where
  entries : List (κ × α)

instance [FromValue α] : FromValue (Map String α) where
  ofValue?
    | .object members => do
        let entries ← members.mapM fun (key, value) => do
          some (key, ← FromValue.ofValue? value)
        some ⟨entries.mergeSort fun a b => decide (a.1 ≤ b.1)⟩
    | _ => none

instance [KeyText β] [ToValue α] : ToValue (Map β α) where
  toValue map := do
    let members ← map.entries.mapM fun (key, value) => do
      match KeyText.keyText? key with
      | some key => pure (key, ← ToValue.toValue value)
      | none => throw .keyNotText
    pure (.object members)

end Containers

/-! ## Records -/

/-- A person with a name and an age. -/
structure Person where
  name : String
  age : Float

/-- A person is an object with both fields, or an array of both. -/
instance : FromValue Person where
  ofValue?
    | .object members => do
        let name ← FromValue.ofValue? (← Value.get? "name" members)
        let age ← FromValue.ofValue? (← Value.get? "age" members)
        some ⟨name, age⟩
    | .array [name, age] => do
        let name ← FromValue.ofValue? name
        let age ← FromValue.ofValue? age
        some ⟨name, age⟩
    | _ => none

instance : ToValue Person where
  toValue person := do
    let name ← ToValue.toValue person.name
    let age ← ToValue.toValue person.age
    pure (.object [("name", name), ("age", age)])

/-! ## Decoding into a type -/

/-- Why there is no typed value. -/
inductive Refusal where
  /-- The value does not decode. -/
  | undecodable (error : DecodeError)
  /-- The value decodes to one that is not of the type. -/
  | unfit (value : Value)

/-- The typed value of the outcome of a decoding. -/
def decodeInto {α : Type} [FromValue α] : Outcome Value → Except Refusal α
  | .error error => .error (.undecodable error)
  | .ok value =>
      match FromValue.ofValue? value with
      | some typed => .ok typed
      | none => .error (.unfit value)

end Typed
end Schemata
