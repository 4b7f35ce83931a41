import Schemata.Json.Parser
import Schemata.Literal
import Schemata.NonEmpty
import Schemata.Shape.Fault

/-!
# Reading literals and sequences of integers

A literal may be any scalar.  A sequence must have an item; its integers must
fit 64-bit words with a sign.
-/

namespace Schemata

/-- The literal that a value spells. -/
def Literal.ofValue (value : Json.Value) : Shape.Reading Literal :=
  match value with
  | .null => pure .null
  | .bool value => pure (.bool value)
  | .number value => pure (.number value.toFloat)
  | .string text => pure (.string text)
  | _ => Shape.fail (.noForm "Literal")

/-- The literal that a source spells, in which `room` containers may be nested. -/
def Literal.ofSource (room : Nat) (source : Json.Source) : Shape.Reading Literal := do
  Literal.ofValue (← Shape.buffered room source)

namespace Shape

/-- A sequence with an item. -/
def nonEmpty {α : Type} (items : List α) : Reading (NonEmpty α) :=
  match NonEmpty.ofList? items with
  | some items => pure items
  | none => fail .emptySequence

theorem nonEmpty_toList {α : Type} (items : NonEmpty α) : nonEmpty items.toList = .ok items := by
  rw [nonEmpty, NonEmpty.ofList?_toList]
  rfl

/-- An integer that fits a 64-bit word with a sign. -/
def int64 (source : Json.Source) : Reading Int64 :=
  match source with
  | .number (some (.integer value)) =>
      if value < 0x8000000000000000 then pure (Int64.ofInt value)
      else fail (.outOfRange value "i64")
  | source => unexpectedSource source "i64"

def int64s : List Json.Source → Reading (List Int64)
  | [] => pure []
  | item :: rest => do
      let value ← int64 item
      let values ← int64s rest
      pure (value :: values)

/-- A sequence of integers, at least one. -/
def nonEmptyInt64s (source : Json.Source) : Reading (NonEmpty Int64) :=
  match source with
  | .array items closed => do
      let values ← int64s items
      ending closed
      nonEmpty values
  | source => unexpectedSource source "a sequence"

/-- A reading of a text as a whole. -/
def ofText {α : Type} (read : Json.Source → Reading α) (text : String) : Reading α := do
  let (source, complete) := Json.Source.ofText text
  let value ← read source
  ending complete
  pure value

end Shape
end Schemata
