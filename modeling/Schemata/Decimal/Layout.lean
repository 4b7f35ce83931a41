import Schemata.Decimal.Shortest

/-!
# Writing floats

A `Layout` holds the decisions of one output format; `Layout.render` writes the
shortest decimal of a finite float by it.  A positional text shows every digit;
a scientific text has one digit before the point and a signed exponent.
-/

namespace Schemata
namespace Decimal

/-- The decisions of an output format about finite floats. -/
structure Layout where
  /-- Which of two equally near decimals is written. -/
  tie : Tie
  /-- Whether a number whose first digit stands for `10 ^ e` is written
  positionally. -/
  positional : Int → Bool
  /-- Whether a positional number always shows a decimal point. -/
  alwaysPoint : Bool

/-- Digits after the point, after the zeros that put them there. -/
def fractionText (zeros : Nat) (digits : String) : String :=
  "." ++ String.ofList (List.replicate zeros '0') ++ digits

/-- Every digit of a decimal, without an exponent. -/
def Scientific.positional (d : Scientific) (alwaysPoint : Bool) : String :=
  let digits := toString d.digits
  if 0 ≤ d.exponent then
    digits ++ String.ofList (List.replicate d.exponent.toNat '0') ++
      (if alwaysPoint then ".0" else "")
  else
    let places := (-d.exponent).toNat
    if places < digits.length then
      (digits.take (digits.length - places)).toString ++ "." ++
        (digits.drop (digits.length - places)).toString
    else
      "0" ++ fractionText (places - digits.length) digits

/-- The power of ten that the first digit stands for. -/
def Scientific.order (d : Scientific) : Int :=
  d.exponent + (toString d.digits).length - 1

/-- A digit, the digits after the point if any, and a signed exponent. -/
def Scientific.exponential (d : Scientific) : String :=
  let digits := toString d.digits
  let fraction := if digits.length = 1 then "" else "." ++ (digits.drop 1).toString
  let sign := if 0 ≤ d.order then "+" else "-"
  (digits.take 1).toString ++ fraction ++ "e" ++ sign ++ toString d.order.natAbs

/-- The text of a decimal in a format. -/
def Layout.text (layout : Layout) (d : Scientific) : String :=
  if d.digits = 0 || layout.positional d.order then d.positional layout.alwaysPoint
  else d.exponential

def Layout.render (layout : Layout) (x : Float) : String :=
  let sign := if x.toBits >>> 63 = 1 then "-" else ""
  sign ++ layout.text ((Binary.ofBits x.toBits).shortest layout.tie)

end Decimal
end Schemata
