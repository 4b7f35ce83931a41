import Schemata.Decimal.Layout
import Schemata.Json.Value
import Schemata.Text.Quoted

/-!
# JSON text

`Value.compact` writes a value without blanks, `Value.pretty` with two blanks
for each level.  Both keep the order of members.
-/

namespace Schemata
namespace Json

/-- Floats have the fewest digits that read back, positionally from `1e-5` to
below `1e16` with a point in any case, otherwise with a signed exponent.  A
half goes to the even neighbour. -/
def floatLayout : Decimal.Layout where
  tie := .toEven
  positional order := -5 ≤ order && order < 16
  alwaysPoint := true

/-- The text of a number; one that is not finite has no JSON form. -/
def Number.text : Number → String
  | .integer value => toString value
  | .float value => if value.isFinite then floatLayout.render value else "null"

/-- A text as a JSON string. -/
def stringText (text : String) : String := Text.quote Text.jsonEscapes text

namespace Value

mutual
/-- The text of a value without blanks. -/
def compact : Value → String
  | .null => "null"
  | .bool value => if value then "true" else "false"
  | .number value => value.text
  | .string text => stringText text
  | .array items => "[" ++ ",".intercalate (compactItems items) ++ "]"
  | .object members => "\x7b" ++ ",".intercalate (compactMembers members) ++ "\x7d"

def compactItems : List Value → List String
  | [] => []
  | item :: rest => compact item :: compactItems rest

def compactMembers : List (String × Value) → List String
  | [] => []
  | (key, value) :: rest => (stringText key ++ ":" ++ compact value) :: compactMembers rest
end

/-- A line break and the indentation of a level. -/
def newline (level : Nat) : String :=
  "\n" ++ String.ofList (List.replicate (2 * level) ' ')

/-- Parts on lines of their own between brackets; nothing stays on one line. -/
def block (opening closing : String) (level : Nat) (parts : List String) : String :=
  if parts.isEmpty then opening ++ closing
  else
    opening ++ newline (level + 1) ++ ("," ++ newline (level + 1)).intercalate parts ++
      newline level ++ closing

mutual
/-- The text of a value whose first line stands at a level. -/
def prettyAt (level : Nat) : Value → String
  | .array items => block "[" "]" level (prettyItems (level + 1) items)
  | .object members => block "\x7b" "\x7d" level (prettyMembers (level + 1) members)
  | .null => "null"
  | .bool value => if value then "true" else "false"
  | .number value => value.text
  | .string text => stringText text

def prettyItems (level : Nat) : List Value → List String
  | [] => []
  | item :: rest => prettyAt level item :: prettyItems level rest

def prettyMembers (level : Nat) : List (String × Value) → List String
  | [] => []
  | (key, value) :: rest =>
      (stringText key ++ ": " ++ prettyAt level value) :: prettyMembers level rest
end

def pretty (value : Value) : String := prettyAt 0 value

end Value
end Json
end Schemata
