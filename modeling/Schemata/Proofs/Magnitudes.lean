import Mathlib.Algebra.Order.Field.Power
import Mathlib.Algebra.Order.Ring.Rat
import Mathlib.Data.Nat.Cast.Order.Ring
import Mathlib.Tactic.FieldSimp
import Mathlib.Tactic.Linarith
import Mathlib.Tactic.NormNum
import Mathlib.Tactic.Positivity
import Mathlib.Tactic.Ring
import Schemata.Decimal.Shortest

/-!
# Distinct magnitudes have distinct shortest decimals

**Input.**  The magnitudes that the bits of floats stand for, and their shortest decimals.

**Algorithm.**  The search for the shortest decimal compares in natural numbers what are
rational numbers (`compareScaled_eq`).  So a decimal that is found lies in the interval of the
numbers that round to the magnitude, and so does the exact value, to which the search falls
back.  The intervals of two magnitudes have at most an end in common, and then an odd
significand leaves it out.

**Results.**

* `Binary.shortest_rounds`: the shortest decimal of a magnitude above zero rounds to it.
* `Binary.Rounds.unique`: a number rounds to one magnitude only.
* `Binary.shortest_injective`: magnitudes with shortest decimals of one value are the same.
* `bits_eq_of_parts`: a float is given by its sign and its magnitude.
-/

namespace Schemata
namespace Decimal

/-- The number that a decimal stands for. -/
def Scientific.value (d : Scientific) : ℚ := d.digits * 10 ^ d.exponent

namespace Binary

/-- The number that a magnitude stands for. -/
def value (x : Binary) : ℚ := x.significand * 2 ^ x.exponent

/-- A quarter of the place of the last binary digit. -/
def quarter (x : Binary) : ℚ := 2 ^ (x.exponent - 2)

/-- The least number of the interval, in quarters. -/
def low (x : Binary) : Nat :=
  if x.narrowBelow then 4 * x.significand - 1 else 4 * x.significand - 2

def high (x : Binary) : Nat := 4 * x.significand + 2

/-- The numbers that round to a magnitude: those between its ends, and the ends themselves where
the significand is even. -/
def Rounds (x : Binary) (v : ℚ) : Prop :=
  if x.significand % 2 = 0 then x.low * x.quarter ≤ v ∧ v ≤ x.high * x.quarter
  else x.low * x.quarter < v ∧ v < x.high * x.quarter

end Binary

theorem zpow_mul_toNat {b : ℚ} (hb : b ≠ 0) (k : Int) : b ^ k * b ^ (-k).toNat = b ^ k.toNat := by
  obtain ⟨n, rfl | rfl⟩ := k.eq_nat_or_neg
  · simp
  · simp [hb]

/-- Comparing scaled numbers is comparing rational numbers. -/
theorem compareScaled_eq (a : Nat) (i : Int) (n : Nat) (j : Int) :
    compareScaled a i n j = compare ((a : ℚ) * 10 ^ i) (n * 2 ^ j) := by
  let common : ℚ := 10 ^ (-i).toNat * 2 ^ (-j).toNat
  have hcommon : 0 < common := by positivity
  have hleft : ((a * 10 ^ i.toNat * 2 ^ (-j).toNat : Nat) : ℚ) = a * 10 ^ i * common := by
    push_cast [common, ← zpow_mul_toNat (b := 10) (by norm_num) i]
    ring
  have hright : ((n * 2 ^ j.toNat * 10 ^ (-i).toNat : Nat) : ℚ) = n * 2 ^ j * common := by
    push_cast [common, ← zpow_mul_toNat (b := 2) (by norm_num) j]
    ring
  calc compareScaled a i n j
      = cmp (a * 10 ^ i.toNat * 2 ^ (-j).toNat) (n * 2 ^ j.toNat * 10 ^ (-i).toNat) :=
        (cmp_eq_compare _ _).symm
    _ = cmp ((a : ℚ) * 10 ^ i * common) (n * 2 ^ j * common) := by
        rw [← (Nat.strictMono_cast (α := ℚ)).cmp_map_eq, hleft, hright]
    _ = cmp ((a : ℚ) * 10 ^ i) (n * 2 ^ j) :=
        (strictMono_mul_right_of_pos hcommon).cmp_map_eq _ _
    _ = compare ((a : ℚ) * 10 ^ i) (n * 2 ^ j) := cmp_eq_compare _ _

namespace Binary

variable {x y : Binary} {d : Scientific} {tie : Tie} {v : ℚ}

/-- A decimal reads back as a magnitude where its number rounds to it. -/
theorem readsBack_iff : x.readsBack d = true ↔ x.Rounds d.value := by
  have hlow : compareScaled d.digits d.exponent
      (if x.narrowBelow then 4 * x.significand - 1 else 4 * x.significand - 2)
      (x.exponent - 2) = compare d.value (x.low * x.quarter) := compareScaled_eq _ _ _ _
  have hhigh : compareScaled d.digits d.exponent (4 * x.significand + 2) (x.exponent - 2) =
      compare d.value (x.high * x.quarter) := compareScaled_eq _ _ _ _
  simp only [readsBack, hlow, hhigh, Rounds]
  split
  · rw [Bool.and_eq_true, bne_iff_ne, bne_iff_ne, compare_ge_iff_ge, compare_le_iff_le]
  · rw [Bool.and_eq_true, beq_iff_eq, beq_iff_eq, compare_gt_iff_gt, compare_lt_iff_lt]

/-! ### The shortest decimal reads back -/

theorem candidate?_rounds {grid : Int} (h : x.candidate? tie grid = some d) :
    x.Rounds d.value := by
  rw [← readsBack_iff]
  simp only [candidate?] at h
  split at h
  case h_1 => cases h
  case h_2 hbelow _ =>
    obtain rfl := Option.some.inj h
    exact hbelow
  case h_3 _ habove =>
    obtain rfl := Option.some.inj h
    exact habove
  case h_4 hbelow habove =>
    split at h
    case h_1 =>
      obtain rfl := Option.some.inj h
      exact hbelow
    case h_2 =>
      obtain rfl := Option.some.inj h
      exact habove
    case h_3 =>
      obtain rfl := Option.some.inj h
      exact habove
    case h_4 =>
      obtain rfl := Option.some.inj h
      split
      · exact hbelow
      · exact habove

theorem search_rounds {scale : Int} : ∀ {fuel count : Nat},
    x.search tie scale fuel count = some d → x.Rounds d.value
  | 0, _, h => nomatch h
  | fuel + 1, count, h => by
      rw [search] at h
      split at h
      case h_1 hcandidate =>
        obtain rfl := Option.some.inj h
        exact candidate?_rounds hcandidate
      case h_2 => exact search_rounds h

theorem exact_value (x : Binary) : x.exact.value = x.value := by
  rw [exact, Scientific.value, value]
  split
  case isTrue h =>
    obtain ⟨n, hn⟩ := Int.eq_ofNat_of_zero_le h
    simp [hn]
  case isFalse h =>
    obtain ⟨n, hn⟩ := Int.eq_ofNat_of_zero_le (a := -x.exponent) (by omega)
    have hexponent : x.exponent = -(n : Int) := by omega
    have hten : (10 : ℚ) ^ n = 5 ^ n * 2 ^ n := by
      rw [← mul_pow]
      norm_num
    simp only [hexponent, neg_neg, Int.toNat_natCast, Nat.pow_eq, zpow_neg, zpow_natCast, hten]
    push_cast
    field_simp

/-- The number of a magnitude above zero rounds to it. -/
theorem rounds_value (h : x.significand ≠ 0) : x.Rounds x.value := by
  have hquarter : 0 < x.quarter := by
    rw [quarter]
    positivity
  have hvalue : x.value = (4 * x.significand : Nat) * x.quarter := by
    have htwo : (2 : ℚ) ^ x.exponent = 4 * 2 ^ (x.exponent - 2) := by
      rw [zpow_sub₀ (by norm_num)]
      ring
    push_cast
    rw [value, quarter, htwo]
    ring
  have hlow : x.low < 4 * x.significand := by
    rw [low]
    split <;> omega
  have hlow : x.low * x.quarter < x.value := by
    rw [hvalue]
    exact mul_lt_mul_of_pos_right (Nat.cast_lt.2 hlow) hquarter
  have hhigh : x.value < x.high * x.quarter := by
    rw [hvalue]
    exact mul_lt_mul_of_pos_right (Nat.cast_lt.2 (by rw [high]; omega)) hquarter
  rw [Rounds]
  split
  · exact ⟨hlow.le, hhigh.le⟩
  · exact ⟨hlow, hhigh⟩

end Binary

/-- Zeros that are moved into the exponent do not change the number. -/
theorem Scientific.strip_value : ∀ (fuel : Nat) (d : Scientific), (d.strip fuel).value = d.value
  | 0, _ => rfl
  | fuel + 1, d => by
      rw [strip]
      split
      case isTrue h =>
        have hdigits : (d.digits : ℚ) = 10 * (d.digits / 10 : Nat) := by
          exact_mod_cast (Nat.mul_div_cancel' (Nat.dvd_of_mod_eq_zero h)).symm
        rw [strip_value fuel, value, value, hdigits, zpow_add₀ (by norm_num)]
        ring
      case isFalse => rfl

namespace Binary

variable {x y : Binary} {d : Scientific} {tie : Tie} {v : ℚ}

theorem shortest_rounds (tie : Tie) (h : x.significand ≠ 0) :
    x.Rounds (x.shortest tie).value := by
  rw [shortest, if_neg h, Scientific.strip_value]
  cases hsearch : x.search tie x.scale 17 1 with
  | none => simpa [exact_value] using rounds_value h
  | some d => exact search_rounds hsearch

theorem shortest_value_zero (tie : Tie) (h : x.significand = 0) : (x.shortest tie).value = 0 := by
  rw [shortest, if_pos h]
  simp [Scientific.value]

/-! ### Intervals of floats are disjoint -/

/-- A magnitude as the bits of a float give it: the significand has all of its digits, unless the
exponent is the least one. -/
structure Normal (x : Binary) : Prop where
  least : -1074 ≤ x.exponent
  bound : x.significand < 2 ^ 53
  full : -1074 < x.exponent → 2 ^ 52 ≤ x.significand
  narrow : x.narrowBelow = true ↔ x.significand = 2 ^ 52 ∧ -1074 < x.exponent

/-- A magnitude is below another one: its exponent is less, or else its significand is. -/
def Below (x y : Binary) : Prop :=
  x.exponent < y.exponent ∨ x.exponent = y.exponent ∧ x.significand < y.significand

/-- The interval of a magnitude ends before that of a greater one begins, and they share an end
only if one of them does without it. -/
theorem high_le_low (hx : x.Normal) (hy : y.Normal) (h : x.Below y) :
    x.high * x.quarter ≤ y.low * y.quarter ∧
      (x.significand % 2 = 0 → y.significand % 2 = 0 →
        x.high * x.quarter < y.low * y.quarter) := by
  have hquarter : 0 < x.quarter := by
    rw [quarter]
    positivity
  rcases h with hexponent | ⟨hexponent, hsignificand⟩
  · obtain ⟨k, hk⟩ : ∃ k : Nat, y.exponent - 2 = x.exponent - 2 + 1 + k :=
      ⟨(y.exponent - x.exponent - 1).toNat, by omega⟩
    have hscale : y.quarter = (2 * 2 ^ k : Nat) * x.quarter := by
      rw [quarter, quarter, hk, zpow_add₀ (by norm_num), zpow_add₀ (by norm_num), zpow_one,
        zpow_natCast]
      push_cast
      ring
    have hone : 1 ≤ 2 ^ k := Nat.one_le_two_pow
    have hlow : 2 ^ 54 - 1 ≤ y.low := by
      have hfull := hy.full (by have := hx.least; omega)
      have hnarrow := hy.narrow
      rw [low]
      split
      · omega
      · have : y.significand ≠ 2 ^ 52 := fun heq =>
          ‹¬_› (hnarrow.2 ⟨heq, by have := hx.least; omega⟩)
        omega
    have htwice : 2 * y.low ≤ y.low * (2 * 2 ^ k) := by nlinarith
    have hbound := hx.bound
    rw [hscale, ← mul_assoc, ← Nat.cast_mul]
    constructor
    · exact mul_le_mul_of_nonneg_right (Nat.cast_le.2 (by rw [high]; omega)) hquarter.le
    · intro hx2 _
      exact mul_lt_mul_of_pos_right (Nat.cast_lt.2 (by rw [high]; omega)) hquarter
  · have hscale : y.quarter = x.quarter := by rw [quarter, quarter, hexponent]
    have hlow : 4 * y.significand - 2 ≤ y.low := by
      rw [low]
      split <;> omega
    rw [hscale]
    constructor
    · exact mul_le_mul_of_nonneg_right (Nat.cast_le.2 (by rw [high]; omega)) hquarter.le
    · intro hx2 hy2
      exact mul_lt_mul_of_pos_right (Nat.cast_lt.2 (by rw [high]; omega)) hquarter

theorem Rounds.bounds (h : x.Rounds v) : x.low * x.quarter ≤ v ∧ v ≤ x.high * x.quarter := by
  rw [Rounds] at h
  split at h
  · exact h
  · exact ⟨h.1.le, h.2.le⟩

theorem Rounds.bounds_of_odd (h : x.Rounds v) (hodd : x.significand % 2 ≠ 0) :
    x.low * x.quarter < v ∧ v < x.high * x.quarter := by
  rwa [Rounds, if_neg hodd] at h

theorem not_rounds_of_below (hx : x.Normal) (hy : y.Normal) (h : x.Below y) (hv : x.Rounds v) :
    ¬ y.Rounds v := by
  intro hv'
  obtain ⟨hle, hlt⟩ := high_le_low hx hy h
  obtain ⟨_, hxv⟩ := hv.bounds
  obtain ⟨hyv, _⟩ := hv'.bounds
  by_cases hxodd : x.significand % 2 = 0
  · by_cases hyodd : y.significand % 2 = 0
    · exact absurd (hxv.trans_lt (hlt hxodd hyodd)) (not_lt.2 hyv)
    · exact absurd (hle.trans_lt (hv'.bounds_of_odd hyodd).1) (not_lt.2 hxv)
  · exact absurd ((hv.bounds_of_odd hxodd).2.trans_le hle) (not_lt.2 hyv)

/-- A number rounds to one magnitude only. -/
theorem Rounds.unique (hx : x.Normal) (hy : y.Normal) (hv : x.Rounds v) (hv' : y.Rounds v) :
    x.exponent = y.exponent ∧ x.significand = y.significand := by
  by_cases hxy : x.Below y
  · exact absurd hv' (not_rounds_of_below hx hy hxy hv)
  · by_cases hyx : y.Below x
    · exact absurd hv (not_rounds_of_below hy hx hyx hv')
    · rw [Below] at hxy hyx
      omega

/-- A number that rounds to a magnitude above zero is above zero. -/
theorem Rounds.pos (hx : x.significand ≠ 0) (hv : x.Rounds v) : 0 < v := by
  have hquarter : 0 < x.quarter := by
    rw [quarter]
    positivity
  have hlow : 0 < x.low := by
    rw [low]
    split <;> omega
  exact (mul_pos (Nat.cast_pos.2 hlow) hquarter).trans_le hv.bounds.1

/-- **Distinct magnitudes have distinct shortest decimals.** -/
theorem shortest_injective (hx : x.Normal) (hy : y.Normal)
    (h : (x.shortest tie).value = (y.shortest tie).value) :
    x.exponent = y.exponent ∧ x.significand = y.significand := by
  by_cases hx0 : x.significand = 0
  · by_cases hy0 : y.significand = 0
    · have hxfull := hx.full
      have hyfull := hy.full
      have hxleast := hx.least
      have hyleast := hy.least
      omega
    · rw [shortest_value_zero tie hx0] at h
      exact absurd h (Rounds.pos hy0 (shortest_rounds tie hy0)).ne
  · by_cases hy0 : y.significand = 0
    · rw [shortest_value_zero tie hy0] at h
      exact absurd h.symm (Rounds.pos hx0 (shortest_rounds tie hx0)).ne
    · have hv := shortest_rounds tie hx0
      rw [h] at hv
      exact hv.unique hx hy (shortest_rounds tie hy0)

/-! ### The bits of a float -/

/-- A magnitude is given by the exponent and the fraction of a float. -/
theorem ofBits_eq (bits : UInt64) :
    ofBits bits =
      if bits.toNat / 2 ^ 52 % 2 ^ 11 = 0 then ⟨bits.toNat % 2 ^ 52, -1074, false⟩
      else ⟨2 ^ 52 + bits.toNat % 2 ^ 52, (bits.toNat / 2 ^ 52 % 2 ^ 11 : Nat) - 1075,
        bits.toNat % 2 ^ 52 = 0 ∧ 1 < bits.toNat / 2 ^ 52 % 2 ^ 11⟩ := by
  have hexponent : ((bits >>> 52) &&& 0x7FF).toNat = bits.toNat / 2 ^ 52 % 2 ^ 11 := by
    rw [UInt64.toNat_and, UInt64.toNat_shiftRight, Nat.shiftRight_eq_div_pow]
    exact Nat.and_two_pow_sub_one_eq_mod _ 11
  have hfraction : (bits &&& 0xFFFFFFFFFFFFF).toNat = bits.toNat % 2 ^ 52 := by
    rw [UInt64.toNat_and]
    exact Nat.and_two_pow_sub_one_eq_mod _ 52
  simp only [ofBits, hexponent, hfraction]
  rfl

theorem ofBits_normal (bits : UInt64) : (ofBits bits).Normal := by
  rw [ofBits_eq]
  split
  case isTrue =>
    refine ⟨le_rfl, ?_, ?_, ?_⟩
    · show bits.toNat % 2 ^ 52 < 2 ^ 53
      omega
    · intro h
      exact absurd h (lt_irrefl _)
    · simp
  case isFalse =>
    refine ⟨?_, ?_, ?_, ?_⟩
    · show -1074 ≤ ((bits.toNat / 2 ^ 52 % 2 ^ 11 : Nat) : Int) - 1075
      omega
    · show 2 ^ 52 + bits.toNat % 2 ^ 52 < 2 ^ 53
      omega
    · intro _
      exact Nat.le_add_right _ _
    · simp only [decide_eq_true_eq]
      omega

end Binary

theorem signed_iff (bits : UInt64) : bits >>> 63 = 1 ↔ 2 ^ 63 ≤ bits.toNat := by
  have hlt := bits.toNat_lt
  rw [← UInt64.toNat_inj, UInt64.toNat_shiftRight, Nat.shiftRight_eq_div_pow]
  show bits.toNat / 2 ^ 63 = 1 ↔ _
  omega

/-- The sign, the exponent and the significand of a float give its bits back. -/
theorem bits_eq_of_parts {bits bits' : UInt64} (hsign : bits >>> 63 = 1 ↔ bits' >>> 63 = 1)
    (hexponent : (Binary.ofBits bits).exponent = (Binary.ofBits bits').exponent)
    (hsignificand : (Binary.ofBits bits).significand = (Binary.ofBits bits').significand) :
    bits = bits' := by
  have hlt := bits.toNat_lt
  have hlt' := bits'.toNat_lt
  rw [signed_iff, signed_iff] at hsign
  rw [Binary.ofBits_eq, Binary.ofBits_eq] at hexponent hsignificand
  have hfields : bits.toNat / 2 ^ 52 % 2 ^ 11 = bits'.toNat / 2 ^ 52 % 2 ^ 11 ∧
      bits.toNat % 2 ^ 52 = bits'.toNat % 2 ^ 52 := by
    by_cases hzero : bits.toNat / 2 ^ 52 % 2 ^ 11 = 0
    · by_cases hzero' : bits'.toNat / 2 ^ 52 % 2 ^ 11 = 0
      · rw [if_pos hzero, if_pos hzero'] at hsignificand
        exact ⟨hzero.trans hzero'.symm, hsignificand⟩
      · rw [if_pos hzero, if_neg hzero'] at hsignificand
        dsimp only at hsignificand
        omega
    · by_cases hzero' : bits'.toNat / 2 ^ 52 % 2 ^ 11 = 0
      · rw [if_neg hzero, if_pos hzero'] at hsignificand
        dsimp only at hsignificand
        omega
      · rw [if_neg hzero, if_neg hzero'] at hexponent hsignificand
        dsimp only at hexponent hsignificand
        omega
  exact UInt64.toNat_inj.1 (by omega)

end Decimal
end Schemata
