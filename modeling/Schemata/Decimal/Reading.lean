/-!
# Reading floats

`nearest` is the float nearest to a decimal, ties to even.  `ofText?` reads the
usual spellings of a float: a sign, digits with at most one point, an optional
exponent, and the words for the values that have no digits, in any case.
-/

namespace Schemata
namespace Decimal

def digitValue (c : Char) : Nat := c.toNat - '0'.toNat

/-- The number that a run of digits continues from `start`. -/
def natOfDigits (digits : List Char) (start : Nat) : Nat :=
  digits.foldl (fun value c => 10 * value + digitValue c) start

def infinity : Float := 1.0 / 0.0

def notANumber : Float := 0.0 / 0.0

/-- The float nearest to `digits · 10 ^ exponent`.  Beyond the range of floats
the exponent alone decides, so that no large power is built. -/
def nearest (digits : Nat) (exponent : Int) : Float :=
  if digits = 0 then 0.0
  else
    let order := exponent + (toString digits).length
    if 400 < order then infinity
    else if order < -400 then 0.0
    else if 0 ≤ exponent then Float.ofScientific digits false exponent.toNat
    else Float.ofScientific digits true (-exponent).toNat

/-- The integer that follows the mark of an exponent. -/
def exponentOf? : List Char → Option Int
  | '+' :: digits => magnitude? digits
  | '-' :: digits => (magnitude? digits).map (- ·)
  | digits => magnitude? digits
where
  /-- A run of digits, at least one. -/
  magnitude? (digits : List Char) : Option Int :=
    if digits.isEmpty || !digits.all Char.isDigit then none
    else some (natOfDigits digits 0)

/-- A number without a sign. -/
def unsigned? (text : List Char) : Option Float :=
  let lower := String.ofList (text.map Char.toLower)
  if lower = "inf" || lower = "infinity" then some infinity
  else if lower = "nan" then some notANumber
  else
    let whole := text.takeWhile Char.isDigit
    let rest := text.dropWhile Char.isDigit
    let (fraction, rest) :=
      match rest with
      | '.' :: after => (after.takeWhile Char.isDigit, after.dropWhile Char.isDigit)
      | _ => ([], rest)
    if whole.isEmpty && fraction.isEmpty then none
    else
      let digits := natOfDigits (whole ++ fraction) 0
      let value (exponent : Int) := nearest digits (exponent - fraction.length)
      match rest with
      | [] => some (value 0)
      | 'e' :: exponent => (exponentOf? exponent).map value
      | 'E' :: exponent => (exponentOf? exponent).map value
      | _ => none

/-- The float that a text spells. -/
def ofText? (text : String) : Option Float :=
  match text.toList with
  | '-' :: rest => (unsigned? rest).map (- ·)
  | '+' :: rest => unsigned? rest
  | rest => unsigned? rest

end Decimal
end Schemata
