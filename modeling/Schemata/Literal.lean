import Schemata.Decimal.Layout
import Schemata.Json.Value
import Schemata.Text.Quoted

/-!
# Literals

The scalars that a schema can name: null, a truth value, a float or a text.  A
literal has two readings, as a value (`toValue`) and as generated source
(`source`), and a test for the values that are it (`isMatch`).
-/

namespace Schemata

/-- A scalar named by a schema. -/
inductive Literal where
  | null
  | bool (value : Bool)
  | number (value : Float)
  | string (text : String)

namespace Literal

/-- Whether an untyped value is the literal; numbers are compared as floats. -/
def isMatch : Literal → Json.Value → Bool
  | .null, .null => true
  | .bool a, .bool b => a == b
  | .number a, .number b => b.toFloat == a
  | .string a, .string b => a == b
  | _, _ => false

/-- The literal as an untyped value; a number that is not finite has none and
becomes null. -/
def toValue : Literal → Json.Value
  | .null => .null
  | .bool value => .bool value
  | .number value => if value.isFinite then .number (.float value) else .null
  | .string text => .string text

/-- Numbers in source show every digit, and a point only where one is needed;
a half goes up. -/
def sourceLayout : Decimal.Layout where
  tie := .up
  positional _ := true
  alwaysPoint := false

/-- A number as it is written in source. -/
def numberSource (value : Float) : String :=
  if value.isNaN then "NaN"
  else if value.isInf then (if value < 0.0 then "-Infinity" else "Infinity")
  else sourceLayout.render value

/-- A text as a string literal of source. -/
def stringSource (text : String) : String := Text.quote Text.sourceEscapes text

/-- A literal as it is written in source. -/
def source : Literal → String
  | .null => "null"
  | .bool value => if value then "true" else "false"
  | .number value => numberSource value
  | .string text => stringSource text

/-- Equality of literals; numbers are equal as floats are. -/
def same : Literal → Literal → Bool
  | .null, .null => true
  | .bool a, .bool b => a == b
  | .number a, .number b => a == b
  | .string a, .string b => a == b
  | _, _ => false

/-- The sources of alternatives, between bars. -/
def alternatives (values : List Literal) : String :=
  " | ".intercalate (values.map source)

end Literal
end Schemata
