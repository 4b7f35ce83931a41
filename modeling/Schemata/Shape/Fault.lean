import Schemata.Json.Printer
import Schemata.Json.Source

/-!
# Faults of shape

What is wrong with a well-formed text that is not of the expected shape, and
the words for it.  A text that is not well formed has no further description.
-/

namespace Schemata
namespace Shape

/-- What stands where something else was expected. -/
inductive Found where
  | null
  | bool (value : Bool)
  | number (value : Json.Number)
  | string (text : String)
  | sequence
  | map
  /-- The name of a variant without its contents. -/
  | bareVariant

/-- A fault of shape. -/
inductive Fault where
  | wrongType (found : Found) (expected : String)
  | outOfRange (value : Int) (expected : String)
  | wrongLength (length : Nat) (expected : String)
  | unknownVariant (name : String) (variants : List String)
  | missingField (name : String)
  | duplicateField (name : String)
  /-- A value of none of the forms that a type has. -/
  | noForm (type : String)
  | emptySequence

/-- Why a text has no reading. -/
inductive Failure where
  /-- The text is not well formed. -/
  | malformed
  | misshapen (fault : Fault)

/-- A reading, or the first fault. -/
abbrev Reading (α : Type) := Except Failure α

/-- The failure of a reading by a fault of shape. -/
def fail {α : Type} (fault : Fault) : Reading α := .error (.misshapen fault)

/-- The failure of a reading by a fault of form. -/
def malformed {α : Type} : Reading α := .error .malformed

/-- Floats in the messages of a format without a text form of its own: every
digit, and a point in any case. -/
def plainFloatLayout : Decimal.Layout where
  tie := .up
  positional _ := true
  alwaysPoint := true

def jsonFloatText (value : Float) : String := Json.floatLayout.render value

def plainFloatText (value : Float) : String :=
  if value.isNaN then "NaN"
  else if value.isInf then (if value < 0.0 then "-inf" else "inf")
  else plainFloatLayout.render value

def ticked (text : String) : String := "\x60" ++ text ++ "\x60"

/-- A number of things, in words. -/
def counted (count : Nat) (thing : String) : String :=
  toString count ++ " " ++ thing ++ (if count = 1 then "" else "s")

/-- The words for what was found. -/
def Found.text (floatText : Float → String) : Found → String
  | .null => "null"
  | .bool value => "boolean " ++ ticked (if value then "true" else "false")
  | .number (.integer value) => "integer " ++ ticked (toString value)
  | .number (.float value) => "floating point " ++ ticked (floatText value)
  | .string text => "string " ++ Text.display text
  | .sequence => "sequence"
  | .map => "map"
  | .bareVariant => "unit variant"

def Fault.message (floatText : Float → String) : Fault → String
  | .wrongType found expected =>
      "invalid type: " ++ found.text floatText ++ ", expected " ++ expected
  | .outOfRange value expected =>
      "invalid value: integer " ++ ticked (toString value) ++ ", expected " ++ expected
  | .wrongLength length expected =>
      "invalid length " ++ toString length ++ ", expected " ++ expected
  | .unknownVariant name variants =>
      "unknown variant " ++ ticked name ++ ", expected one of " ++
        ", ".intercalate (variants.map ticked)
  | .missingField name => "missing field " ++ ticked name
  | .duplicateField name => "duplicate field " ++ ticked name
  | .noForm type => "data did not match any variant of untagged enum " ++ type
  | .emptySequence => "sequence requires at least one element"

/-- What a value is called where it is not expected. -/
def Found.ofValue : Json.Value → Found
  | .null => .null
  | .bool value => .bool value
  | .number value => .number value
  | .string text => .string text
  | .array _ => .sequence
  | .object _ => .map

/-- The failure of a value that stands where something else was expected. -/
def unexpected {α : Type} (value : Json.Value) (expected : String) : Reading α :=
  fail (.wrongType (.ofValue value) expected)

/-- The failure of a source that stands where something else was expected.  Of
an array or object no more than its beginning is looked at. -/
def unexpectedSource {α : Type} (source : Json.Source) (expected : String) : Reading α :=
  match source with
  | .null => fail (.wrongType .null expected)
  | .bool value => fail (.wrongType (.bool value) expected)
  | .number (some value) => fail (.wrongType (.number value) expected)
  | .string (some text) => fail (.wrongType (.string text) expected)
  | .array _ _ => fail (.wrongType .sequence expected)
  | .object _ _ => fail (.wrongType .map expected)
  | .number none => malformed
  | .string none => malformed
  | .broken => malformed

/-- A text. -/
def text (value : Json.Value) : Reading String :=
  match value with
  | .string text => pure text
  | value => unexpected value "a string"

/-- A text in a source. -/
def sourceText (source : Json.Source) : Reading String :=
  match source with
  | .string (some text) => pure text
  | source => unexpectedSource source "a string"

/-- A source that is skipped. -/
def skip (source : Json.Source) : Reading Unit :=
  if source.wellFormed then pure () else malformed

/-- A source that is taken as a value, repeated keys included. -/
def buffered (room : Nat) (source : Json.Source) : Reading Json.Value :=
  match source.valueWithin? room with
  | some value => pure value
  | none => malformed

/-- The end of an array or object. -/
def ending (closed : Bool) : Reading Unit := if closed then pure () else malformed

/-- A key of an object. -/
def key (key : Option String) : Reading String :=
  match key with
  | some key => pure key
  | none => malformed

end Shape
end Schemata
