import Schemata.Json.Value

/-!
# Primitive schemas

The schemas that ask for nothing but the kind of a value.
-/

namespace Schemata

/-- A kind of value that a schema can ask for. -/
inductive Primitive where
  | string
  | number
  | boolean
  /-- An array of anything. -/
  | array
  /-- An object of anything. -/
  | object
deriving Repr, DecidableEq

namespace Primitive

/-- Whether a value is of the kind. -/
def holds : Primitive → Json.Value → Bool
  | .string, .string _ => true
  | .number, .number _ => true
  | .boolean, .bool _ => true
  | .array, .array _ => true
  | .object, .object _ => true
  | _, _ => false

def label : Primitive → String
  | .string => "string"
  | .number => "number"
  | .boolean => "boolean"
  | .array => "array"
  | .object => "object"

/-- The name of the combinator. -/
def combinator : Primitive → String
  | .string => "string"
  | .number => "number"
  | .boolean => "boolean"
  | .array => "UnknownArray"
  | .object => "UnknownRecord"

end Primitive
end Schemata
