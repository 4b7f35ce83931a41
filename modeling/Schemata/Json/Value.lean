/-!
# JSON values

A number is an integer or a float, and the two are different values even where
they are equal as numbers.  The members of an object keep the order in which
they were written; a reader never produces two members of one key.

`Value.same` is equality of values: the order of keys does not count, and
floats compare as floats do, so that a value that holds no number (which no
JSON text spells) differs from itself.
-/

namespace Schemata
namespace Json

/-- A number of a JSON value. -/
inductive Number where
  /-- A whole number, in the range of 64-bit words with or without a sign. -/
  | integer (value : Int)
  | float (value : Float)

/-- An untyped value. -/
inductive Value where
  | null
  | bool (value : Bool)
  | number (value : Number)
  | string (text : String)
  | array (items : List Value)
  | object (members : List (String × Value))

instance : Inhabited Value := ⟨.null⟩

/-- The members of an object, in order. -/
abbrev Members := List (String × Value)

namespace Number

def toFloat : Number → Float
  | .integer value => Float.ofInt value
  | .float value => value

/-- Equality of numbers of one form. -/
def same : Number → Number → Bool
  | .integer a, .integer b => a == b
  | .float a, .float b => a == b
  | _, _ => false

/-- The integer, if it fits a signed 64-bit word. -/
def toInt64? : Number → Option Int
  | .integer value =>
      if -0x8000000000000000 ≤ value ∧ value < 0x8000000000000000 then some value else none
  | .float _ => none

end Number

namespace Value

def get? (key : String) (members : Members) : Option Value := members.lookup key

def members? : Value → Option Members
  | .object members => some members
  | _ => none

def items? : Value → Option (List Value)
  | .array items => some items
  | _ => none

def text? : Value → Option String
  | .string text => some text
  | _ => none

def member? (key : String) : Value → Option Value
  | .object members => get? key members
  | _ => none

mutual
/-- Equality of values, up to the order of keys. -/
def same : Value → Value → Bool
  | .null, .null => true
  | .bool a, .bool b => a == b
  | .number a, .number b => a.same b
  | .string a, .string b => a == b
  | .array a, .array b => sameItems a b
  | .object a, .object b => a.length == b.length && sameMembers a b
  | _, _ => false

def sameItems : List Value → List Value → Bool
  | [], [] => true
  | a :: as, b :: bs => same a b && sameItems as bs
  | _, _ => false

/-- Every member on the left has an equal value on the right. -/
def sameMembers : List (String × Value) → List (String × Value) → Bool
  | [], _ => true
  | (key, a) :: as, bs =>
      (match get? key bs with
        | some b => same a b
        | none => false) && sameMembers as bs
end

mutual
/-- The number of arrays and objects on the longest way down. -/
def depth : Value → Nat
  | .array items => itemsDepth items + 1
  | .object members => membersDepth members + 1
  | _ => 0

def itemsDepth : List Value → Nat
  | [] => 0
  | item :: rest => max (depth item) (itemsDepth rest)

def membersDepth : List (String × Value) → Nat
  | [] => 0
  | (_, value) :: rest => max (depth value) (membersDepth rest)
end

end Value
end Json
end Schemata
