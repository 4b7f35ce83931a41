import Schemata.DecodeError
import Schemata.Json.Value

/-!
# Named functions on values

The functions that a session offers to change schemas with: mappings of values,
predicates on values, and parsers that may refuse a value.

**Results.**  `Mapping.apply`, `Predicate.holds` and `Parsing.step` say what they
do, `byName?` finds a function by the name that it has in a list.
-/

namespace Schemata
namespace Session

open Json (Value)

/-- What has a name in a list. -/
def byName? {α : Type} (named : List (String × α)) (name : String) : Option α := named.lookup name

/-! ## Mappings -/

/-- A mapping of values. -/
inductive Mapping where
  | keep
  | upper
  | lower
  | increment
  | decrement
  | wrap
  | unwrap
  | erase

namespace Mapping

/-- The mappings by name. -/
def named : List (String × Mapping) := [
  ("id", .keep),
  ("upper", .upper),
  ("lower", .lower),
  ("add1", .increment),
  ("sub1", .decrement),
  ("wrap", .wrap),
  ("unwrap", .unwrap),
  ("null", .erase)]

/-- A change to the characters of a string. -/
def onText (change : Char → Char) : Value → Value
  | .string text => .string (String.ofList (text.toList.map change))
  | value => value

/-- A sum with a 64-bit integer, where it is one too. -/
def shifted (offset : Int) : Value → Value
  | .number number =>
      match number.toInt64? with
      | some value =>
          match (Json.Number.integer (value + offset)).toInt64? with
          | some sum => .number (.integer sum)
          | none => .number number
      | none => .number number
  | value => value

/-- What a mapping does: letters and integers change only in values that are
text or integers, and only ASCII letters have another case. -/
def apply : Mapping → Value → Value
  | .keep, value => value
  | .upper, value => onText Char.toUpper value
  | .lower, value => onText Char.toLower value
  | .increment, value => shifted 1 value
  | .decrement, value => shifted (-1) value
  | .wrap, value => .array [value]
  | .unwrap, .array [item] => item
  | .unwrap, value => value
  | .erase, _ => .null

end Mapping

/-! ## Predicates -/

/-- A predicate on values. -/
inductive Predicate where
  | always
  | never
  | nonEmpty
  | positive
  | even

namespace Predicate

/-- The predicates by name. -/
def named : List (String × Predicate) := [
  ("always", .always),
  ("never", .never),
  ("nonempty", .nonEmpty),
  ("positive", .positive),
  ("even", .even)]

def isEven : Value → Bool
  | .number number =>
      match number.toInt64? with
      | some value => value % 2 == 0
      | none => false
  | _ => false

/-- Whether a value is in a predicate. -/
def holds : Predicate → Value → Bool
  | .always, _ => true
  | .never, _ => false
  | .nonEmpty, .string text => !text.isEmpty
  | .nonEmpty, .array items => !items.isEmpty
  | .nonEmpty, .object members => !members.isEmpty
  | .nonEmpty, _ => false
  | .positive, .number (.integer value) => 0 < value
  | .positive, .number (.float value) => 0.0 < value
  | .positive, _ => false
  | .even, value => isEven value

end Predicate

/-! ## Parsers -/

/-- A parser of values. -/
inductive Parsing where
  | keep
  | evenNumber
  | twoFaults
  | firstItem

namespace Parsing

/-- The parsers by name. -/
def named : List (String × Parsing) := [
  ("keep", .keep),
  ("even_number", .evenNumber),
  ("both", .twoFaults),
  ("first_item", .firstItem)]

/-- What a parser makes of a value. -/
def step : Parsing → Value → Outcome Value
  | .keep, value => .ok value
  | .evenNumber, value =>
      if Predicate.isEven value then .ok value else .error (.leaf value "even number")
  | .twoFaults, value => .error (DecodeError.missing ++ DecodeError.leaf value "nothing")
  | .firstItem, .array (item :: _) => .ok item
  | .firstItem, _ => .error .missing

end Parsing

end Session
end Schemata
