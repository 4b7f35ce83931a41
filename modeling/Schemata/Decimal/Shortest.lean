/-!
# The shortest decimal of a binary float

**Input.**  The bits of a finite float, read as `significand · 2 ^ exponent`.

**Algorithm.**  The reals that round to the float form an interval around it;
its ends belong to it exactly when the significand is even.  For one, two, …
seventeen digits the two neighbours of the float on that decimal grid are
tested against the interval in exact natural arithmetic.  The first grid with a
hit wins, and of two hits the nearer one; an exact tie is settled by the
caller's rule.

**Results.**  `shortest` is the decimal with the fewest digits that reads back
as the float.  Zeros at the end of the digits are moved into the exponent.
-/

namespace Schemata
namespace Decimal

/-- The value `digits · 10 ^ exponent`. -/
structure Scientific where
  digits : Nat
  exponent : Int
deriving Repr, DecidableEq

/-- A finite magnitude `significand · 2 ^ exponent` among the binary floats. -/
structure Binary where
  significand : Nat
  exponent : Int
  /-- The gap to the float below is half the gap to the float above. -/
  narrowBelow : Bool
deriving Repr, DecidableEq

/-- The magnitude that the bits of a finite float stand for. -/
def Binary.ofBits (bits : UInt64) : Binary :=
  let biased := ((bits >>> 52) &&& 0x7FF).toNat
  let fraction := (bits &&& 0xFFFFFFFFFFFFF).toNat
  if biased = 0 then ⟨fraction, -1074, false⟩
  else ⟨0x10000000000000 + fraction, (biased : Int) - 1075, fraction = 0 ∧ 1 < biased⟩

/-- What happens to a value that lies halfway between two candidates. -/
inductive Tie where
  /-- The candidate with an even last digit is taken. -/
  | toEven
  /-- The larger candidate is taken. -/
  | up
deriving Repr, DecidableEq

/-- The exact order of `a · 10 ^ i` and `n · 2 ^ j`. -/
def compareScaled (a : Nat) (i : Int) (n : Nat) (j : Int) : Ordering :=
  compare (a * Nat.pow 10 i.toNat * Nat.pow 2 (-j).toNat)
    (n * Nat.pow 2 j.toNat * Nat.pow 10 (-i).toNat)

/-- Membership of a decimal in the interval of reals that round to a float. -/
def Binary.readsBack (x : Binary) (d : Scientific) : Bool :=
  let low := compareScaled d.digits d.exponent
    (if x.narrowBelow then 4 * x.significand - 1 else 4 * x.significand - 2) (x.exponent - 2)
  let high := compareScaled d.digits d.exponent (4 * x.significand + 2) (x.exponent - 2)
  if x.significand % 2 = 0 then low != .lt && high != .gt
  else low == .gt && high == .lt

/-- The first `k` from `start` on with `x < 10 ^ k`, sought for `fuel` steps. -/
def Binary.scaleFrom (x : Binary) : Nat → Int → Int
  | 0, k => k
  | fuel + 1, k =>
      if compareScaled 1 k x.significand x.exponent == .gt then k
      else x.scaleFrom fuel (k + 1)

/-- The least `k` with `x < 10 ^ k`, for a magnitude above zero.  The binary
logarithm gives a start that is at most four too small. -/
def Binary.scale (x : Binary) : Int :=
  let log := (x.significand.log2 : Int) + x.exponent
  x.scaleFrom 6 ((log * 1233).fdiv 4096 - 1)

/-- The quotient and remainder of a magnitude by `10 ^ grid`, over the common
denominator returned last. -/
def Binary.onGrid (x : Binary) (grid : Int) : Nat × Nat × Nat :=
  let numerator := x.significand * Nat.pow 2 x.exponent.toNat * Nat.pow 10 (-grid).toNat
  let denominator := Nat.pow 2 (-x.exponent).toNat * Nat.pow 10 grid.toNat
  (numerator / denominator, numerator % denominator, denominator)

/-- The better neighbour on a decimal grid, if one reads back as the float. -/
def Binary.candidate? (x : Binary) (tie : Tie) (grid : Int) : Option Scientific :=
  let (quotient, remainder, denominator) := x.onGrid grid
  let below : Scientific := ⟨quotient, grid⟩
  let above : Scientific := ⟨quotient + 1, grid⟩
  match x.readsBack below, x.readsBack above with
  | false, false => none
  | true, false => some below
  | false, true => some above
  | true, true =>
      match compare (2 * remainder) denominator, tie with
      | .lt, _ => some below
      | .gt, _ => some above
      | .eq, .up => some above
      | .eq, .toEven => some (if quotient % 2 = 0 then below else above)

/-- The search over grids of `count`, `count + 1`, … digits. -/
def Binary.search (x : Binary) (tie : Tie) (scale : Int) : Nat → Nat → Option Scientific
  | 0, _ => none
  | fuel + 1, count =>
      match x.candidate? tie (scale - count) with
      | some d => some d
      | none => x.search tie scale fuel (count + 1)

/-- The same value with up to `fuel` zeros moved from the digits to the exponent. -/
def Scientific.strip : Nat → Scientific → Scientific
  | 0, d => d
  | fuel + 1, d =>
      if d.digits % 10 = 0 then Scientific.strip fuel ⟨d.digits / 10, d.exponent + 1⟩ else d

/-- The exact decimal value of a magnitude. -/
def Binary.exact (x : Binary) : Scientific :=
  if 0 ≤ x.exponent then ⟨x.significand * Nat.pow 2 x.exponent.toNat, 0⟩
  else ⟨x.significand * Nat.pow 5 (-x.exponent).toNat, x.exponent⟩

/-- The decimal with the fewest digits that reads back as the float. -/
def Binary.shortest (x : Binary) (tie : Tie) : Scientific :=
  if x.significand = 0 then ⟨0, 0⟩
  else ((x.search tie x.scale 17 1).getD x.exact).strip 17

end Decimal
end Schemata
