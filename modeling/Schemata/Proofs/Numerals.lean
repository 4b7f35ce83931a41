import Schemata.Literal
import Schemata.Proofs.Magnitudes
import Schemata.Proofs.Naming

/-!
# Distinct floats have distinct texts

**Input.**  Floats, and their texts in generated source.

**Algorithm.**  A text without an exponent is read from the left: a sign, digits up to the
point, digits after it.  So it shows one number, and that is the shortest decimal of the
magnitude.  The two infinite floats are words instead.

**Results.**

* `Shows.unique`: a text of digits shows one number only.
* `shows_positional`: the positional text of a decimal shows its number.
* `Literal.numberSource_injective`: distinct floats have distinct texts, those that are no
  number aside.
-/

namespace Schemata
namespace Decimal

/-! ## Positional texts -/

/-- The digits after the point, if any, with the point before them. -/
def pointed : List Char → List Char
  | [] => []
  | fraction => '.' :: fraction

/-- A text shows a number digit by digit. -/
def Shows (text : List Char) (v : ℚ) : Prop :=
  ∃ whole fraction, whole ≠ [] ∧ (∀ c ∈ whole ++ fraction, c.isDigit = true) ∧
    text = whole ++ pointed fraction ∧
    v = Nat.ofDigitChars 10 (whole ++ fraction) 0 / 10 ^ fraction.length

theorem pointed_of_ne_nil {fraction : List Char} (h : fraction ≠ []) :
    pointed fraction = '.' :: fraction := by
  cases fraction with
  | nil => exact absurd rfl h
  | cons _ _ => rfl

theorem pointed_injective {fraction fraction' : List Char}
    (h : pointed fraction = pointed fraction') : fraction = fraction' := by
  cases fraction <;> cases fraction' <;> simp_all [pointed]

theorem not_isDigit_head?_pointed (fraction : List Char) :
    ∀ c ∈ (pointed fraction).head?, c.isDigit = false := by
  cases fraction <;> simp [pointed]

/-- A text shows one number only. -/
theorem Shows.unique {text : List Char} {v w : ℚ} (hv : Shows text v) (hw : Shows text w) :
    v = w := by
  obtain ⟨whole, fraction, _, hdigits, htext, rfl⟩ := hv
  obtain ⟨whole', fraction', _, hdigits', htext', rfl⟩ := hw
  obtain ⟨rfl, hfraction⟩ := Text.run_unique Char.isDigit
    (fun c hc => hdigits c (List.mem_append_left _ hc))
    (fun c hc => hdigits' c (List.mem_append_left _ hc))
    (not_isDigit_head?_pointed fraction) (not_isDigit_head?_pointed fraction')
    (htext.symm.trans htext')
  rw [pointed_injective hfraction]

theorem Shows.exists_cons {text : List Char} {v : ℚ} (h : Shows text v) :
    ∃ c rest, text = c :: rest ∧ c.isDigit = true := by
  obtain ⟨whole, fraction, hne, hdigits, rfl, _⟩ := h
  obtain ⟨c, rest, rfl⟩ := List.exists_cons_of_ne_nil hne
  exact ⟨c, rest ++ pointed fraction, rfl, hdigits c (by simp)⟩

theorem Shows.forall_mem {text : List Char} {v : ℚ} (h : Shows text v) :
    ∀ c ∈ text, c.isDigit = true ∨ c = '.' := by
  obtain ⟨whole, fraction, _, hdigits, rfl, _⟩ := h
  intro c hc
  rcases List.mem_append.1 hc with hc | hc
  · exact .inl (hdigits c (List.mem_append_left _ hc))
  · cases fraction with
    | nil => cases hc
    | cons d rest =>
        rcases List.mem_cons.1 hc with rfl | hc
        · exact .inr rfl
        · exact .inl (hdigits c (List.mem_append_right _ hc))

section Digits

variable (digits n : Nat)

theorem isDigit_of_mem_toDigits : ∀ c ∈ Nat.toDigits 10 digits, c.isDigit = true :=
  fun _ hc => Nat.isDigit_of_mem_toDigits (by decide) (by decide) hc

theorem isDigit_of_mem_zeros : ∀ c ∈ List.replicate n '0', c.isDigit = true := by
  intro c hc
  obtain ⟨_, rfl⟩ := List.mem_replicate.1 hc
  rfl

/-- Digits, and zeros after them. -/
theorem shows_whole :
    Shows (Nat.toDigits 10 digits ++ List.replicate n '0') (digits * 10 ^ n) := by
  refine ⟨_, [], ?_, ?_, (List.append_nil _).symm, ?_⟩
  · exact List.append_ne_nil_of_left_ne_nil Nat.toDigits_ne_nil _
  · rw [List.append_nil]
    exact fun c hc => (List.mem_append.1 hc).elim
      (isDigit_of_mem_toDigits digits c) (isDigit_of_mem_zeros n c)
  · rw [List.append_nil, Nat.ofDigitChars_append, Nat.ofDigitChars_ten_toDigits,
      Nat.ofDigitChars_replicate_zero]
    simp [mul_comm]

variable {n}

/-- Digits with a point among them, before the last `n`. -/
theorem shows_split (hn : n ≠ 0) (hlength : n < (Nat.toDigits 10 digits).length) :
    Shows ((Nat.toDigits 10 digits).take ((Nat.toDigits 10 digits).length - n) ++ '.' ::
      (Nat.toDigits 10 digits).drop ((Nat.toDigits 10 digits).length - n))
      (digits / 10 ^ n) := by
  have hdrop :
      ((Nat.toDigits 10 digits).drop ((Nat.toDigits 10 digits).length - n)).length = n := by
    rw [List.length_drop]
    omega
  have hne := List.ne_nil_of_length_pos (hdrop.symm ▸ Nat.pos_of_ne_zero hn)
  refine ⟨_, _, ?_, ?_, congrArg _ (pointed_of_ne_nil hne).symm, ?_⟩
  · exact List.ne_nil_of_length_pos (by rw [List.length_take]; omega)
  · rw [List.take_append_drop]
    exact isDigit_of_mem_toDigits digits
  · rw [List.take_append_drop, Nat.ofDigitChars_ten_toDigits, hdrop]

variable (n)

/-- Digits after the point, with zeros before them. -/
theorem shows_below :
    Shows ('0' :: '.' :: (List.replicate n '0' ++ Nat.toDigits 10 digits))
      (digits / 10 ^ (n + (Nat.toDigits 10 digits).length)) := by
  have hne : List.replicate n '0' ++ Nat.toDigits 10 digits ≠ [] :=
    List.append_ne_nil_of_right_ne_nil _ Nat.toDigits_ne_nil
  refine ⟨['0'], _, List.cons_ne_nil _ _, ?_, congrArg _ (pointed_of_ne_nil hne).symm, ?_⟩
  · intro c hc
    rcases List.mem_append.1 hc with hc | hc
    · exact isDigit_of_mem_zeros 1 c hc
    · exact (List.mem_append.1 hc).elim
        (isDigit_of_mem_zeros n c) (isDigit_of_mem_toDigits digits c)
  · rw [List.length_append, List.length_replicate, Nat.ofDigitChars_append,
      Nat.ofDigitChars_append]
    show _ = (Nat.ofDigitChars 10 (Nat.toDigits 10 digits)
      (Nat.ofDigitChars 10 (List.replicate n '0') 0) : ℚ) / _
    rw [Nat.ofDigitChars_replicate_zero, Nat.mul_zero, Nat.ofDigitChars_ten_toDigits]

end Digits

/-- The positional text of a decimal shows its number. -/
theorem shows_positional (d : Scientific) : Shows (d.positional false).toList d.value := by
  have hlength : (toString d.digits).length = (Nat.toDigits 10 d.digits).length := by
    rw [← String.length_toList]
    exact congrArg List.length Nat.toList_repr
  rw [Scientific.positional]
  split
  case isTrue hexponent =>
    obtain ⟨n, hn⟩ := Int.eq_ofNat_of_zero_le hexponent
    simpa [Scientific.value, hn] using shows_whole d.digits n
  case isFalse hexponent =>
    obtain ⟨n, hn⟩ := Int.eq_ofNat_of_zero_le (a := -d.exponent) (by omega)
    have hvalue : d.value = d.digits / 10 ^ n := by
      rw [Scientific.value, show d.exponent = -(n : Int) by omega, zpow_neg, zpow_natCast,
        div_eq_mul_inv]
    simp only [hn, Int.toNat_natCast, hlength, hvalue]
    split
    case isTrue hplaces => simpa using shows_split d.digits (by omega) hplaces
    case isFalse hplaces =>
      have h := shows_below d.digits (n - (Nat.toDigits 10 d.digits).length)
      rw [Nat.sub_add_cancel (not_lt.1 hplaces)] at h
      simpa [fractionText] using h

end Decimal

/-! ## Numbers in source -/

namespace Literal

open Decimal (Shows Binary)

/-- A text with a sign before it where a condition holds. -/
def signed (negative : Prop) [Decidable negative] (text : String) : String :=
  (if negative then "-" else "") ++ text

/-- A sign is read off a text that does not begin with one. -/
theorem signed_unique {p q : Prop} [Decidable p] [Decidable q] {text text' : String}
    (htext : text.toList.head? ≠ some '-') (htext' : text'.toList.head? ≠ some '-')
    (h : signed p text = signed q text') : (p ↔ q) ∧ text = text' := by
  rw [← String.toList_inj, signed, signed, String.toList_append, String.toList_append] at h
  by_cases hp : p
  · by_cases hq : q
    · rw [if_pos hp, if_pos hq] at h
      exact ⟨iff_of_true hp hq, String.toList_inj.1 (List.cons.inj h).2⟩
    · rw [if_pos hp, if_neg hq] at h
      exact absurd (congrArg List.head? h).symm htext'
  · by_cases hq : q
    · rw [if_neg hp, if_pos hq] at h
      exact absurd (congrArg List.head? h) htext
    · rw [if_neg hp, if_neg hq] at h
      exact ⟨iff_of_false hp hq, String.toList_inj.1 h⟩

/-- The text of a float without its sign. -/
def magnitudeText (x : Float) : String :=
  sourceLayout.text ((Binary.ofBits x.toBits).shortest sourceLayout.tie)

theorem shows_magnitudeText (x : Float) :
    Shows (magnitudeText x).toList ((Binary.ofBits x.toBits).shortest sourceLayout.tie).value := by
  have htext : ∀ d, sourceLayout.text d = d.positional false := fun d => by
    simp [Decimal.Layout.text, sourceLayout]
  rw [magnitudeText, htext]
  exact Decimal.shows_positional _

/-- The text of a magnitude begins with a digit. -/
theorem head?_magnitudeText (x : Float) :
    ∃ c, (magnitudeText x).toList.head? = some c ∧ c.isDigit = true := by
  obtain ⟨c, rest, hc, hdigit⟩ := (shows_magnitudeText x).exists_cons
  exact ⟨c, by rw [hc]; rfl, hdigit⟩

theorem magnitudeText_unsigned (x : Float) : (magnitudeText x).toList.head? ≠ some '-' := by
  obtain ⟨c, hc, hdigit⟩ := head?_magnitudeText x
  rw [hc]
  rintro ⟨⟩
  cases hdigit

theorem magnitudeText_ne_infinity (x : Float) : magnitudeText x ≠ "Infinity" := by
  obtain ⟨c, hc, hdigit⟩ := head?_magnitudeText x
  intro h
  rw [h] at hc
  obtain rfl := Option.some.inj hc
  cases hdigit

/-- The text of a float that is a number: a sign, and a word or a magnitude. -/
theorem numberSource_eq {x : Float} (hx : x.isNaN = false) :
    numberSource x =
      if x.isInf then signed (x < 0.0) "Infinity"
      else signed (x.toBits >>> 63 = 1) (magnitudeText x) := by
  rw [numberSource, hx, if_neg Bool.false_ne_true]
  split
  · rw [signed]
    split <;> rfl
  · rfl

/-- The bits of a float give it back. -/
theorem eq_of_toBits {x y : Float} (h : x.toBits = y.toBits) : x = y := by
  obtain ⟨⟨bits, _⟩⟩ := x
  obtain ⟨⟨bits', _⟩⟩ := y
  obtain rfl : bits = bits' := h
  rfl

/-- The sign and the magnitude of a float give it back. -/
theorem eq_of_magnitudeText {x y : Float} (hsign : x.toBits >>> 63 = 1 ↔ y.toBits >>> 63 = 1)
    (h : magnitudeText x = magnitudeText y) : x = y := by
  have hvalue := (shows_magnitudeText x).unique (h ▸ shows_magnitudeText y)
  obtain ⟨hexponent, hsignificand⟩ := Binary.shortest_injective (Binary.ofBits_normal _)
    (Binary.ofBits_normal _) hvalue
  exact eq_of_toBits (Decimal.bits_eq_of_parts hsign hexponent hsignificand)

section Infinity

open Float.Model (UnpackedFloat)
open Float.Model.UnpackedFloat (unpackMantissa unpackExponent unpackSign)

/-- The parts of an infinite float: an exponent of ones, a fraction of zeros, and its sign. -/
theorem parts_of_infinity {bits : BitVec 64} {sign : UnpackedFloat.Sign}
    (h : UnpackedFloat.unpack .binary64 bits = .infinity sign) :
    @unpackExponent .binary64 bits = -1#11 ∧ @unpackMantissa .binary64 bits = 0#52 ∧
      UnpackedFloat.Sign.ofBitVec (@unpackSign .binary64 bits) = sign := by
  unfold UnpackedFloat.unpack at h
  dsimp only at h
  by_cases hones : @unpackExponent .binary64 bits = -1#11
  case pos =>
    rw [if_pos hones] at h
    by_cases hzero : @unpackMantissa .binary64 bits = 0#52
    case pos =>
      rw [if_pos hzero] at h
      exact ⟨hones, hzero, UnpackedFloat.infinity.inj h⟩
    case neg =>
      rw [if_neg hzero] at h
      cases h
  case neg =>
    rw [if_neg hones] at h
    by_cases hsubnormal : @unpackExponent .binary64 bits = 0#11
    case pos =>
      rw [if_pos hsubnormal] at h
      by_cases hzero : @unpackMantissa .binary64 bits = 0#52
      case pos =>
        rw [dif_pos hzero] at h
        cases h
      case neg =>
        rw [dif_neg hzero] at h
        cases h
    case neg =>
      rw [if_neg hsubnormal] at h
      cases h

theorem ofBitVec_eq_negative (sign : BitVec 1) :
    UnpackedFloat.Sign.ofBitVec sign = .negative ↔ sign.toNat = 1 := by
  rw [UnpackedFloat.Sign.ofBitVec]
  split
  case isTrue hpositive => simp [hpositive]
  case isFalse hpositive =>
    have hne : sign.toNat ≠ 0 := fun h => hpositive (BitVec.eq_of_toNat_eq h)
    exact iff_of_true rfl (by omega)

/-- The bits of an infinite float: all of its exponent, none of its fraction, and its sign. -/
theorem bits_of_infinity {bits : BitVec 64} {sign : UnpackedFloat.Sign}
    (h : UnpackedFloat.unpack .binary64 bits = .infinity sign) :
    bits.toNat % 2 ^ 63 = 0x7FF0000000000000 ∧ (sign = .negative ↔ 2 ^ 63 ≤ bits.toNat) := by
  have hlt : bits.toNat < 2 ^ 64 := bits.isLt
  have hexponent : (@unpackExponent .binary64 bits).toNat = bits.toNat / 2 ^ 52 % 2 ^ 11 := by
    simp [unpackExponent, BitVec.extractLsb_toNat, Nat.shiftRight_eq_div_pow]
  have hfraction : (@unpackMantissa .binary64 bits).toNat = bits.toNat % 2 ^ 52 := by
    simp [unpackMantissa, BitVec.extractLsb_toNat]
  have hsign : (@unpackSign .binary64 bits).toNat = bits.toNat / 2 ^ 63 % 2 := by
    unfold unpackSign
    simp [BitVec.extractLsb_toNat, Nat.shiftRight_eq_div_pow]
  obtain ⟨hones, hzero, rfl⟩ := parts_of_infinity h
  rw [hones] at hexponent
  rw [hzero] at hfraction
  rw [ofBitVec_eq_negative, hsign]
  have hexponent : bits.toNat / 2 ^ 52 % 2 ^ 11 = 2047 := hexponent.symm
  have hfraction : bits.toNat % 2 ^ 52 = 0 := hfraction.symm
  omega

theorem toBits_of_isInf {x : Float} (h : x.isInf = true) :
    x.toBits.toNat % 2 ^ 63 = 0x7FF0000000000000 ∧ (x < 0.0 ↔ 2 ^ 63 ≤ x.toBits.toNat) := by
  have hzero : (0.0 : Float).toModel.unpack = .zero .positive := rfl
  have hlt : x < 0.0 ↔ x.toModel.lt (0.0 : Float).toModel = true := by
    show Float.lt x 0.0 = true ↔ _
    rw [Float.lt, decide_eq_true_iff]
    rfl
  rw [Float.isInf, Float.Model.isInf] at h
  cases hunpack : x.toModel.unpack with
  | infinity sign =>
      obtain ⟨hbits, hsign⟩ := bits_of_infinity hunpack
      refine ⟨hbits, ?_⟩
      rw [hlt, Float.Model.lt, hunpack, hzero]
      refine Iff.trans ?_ hsign
      cases sign with
      | positive => exact iff_of_false nofun nofun
      | negative => exact iff_of_true rfl rfl
  | _ =>
      rw [hunpack] at h
      cases h

/-- There is one infinite float of each sign. -/
theorem eq_of_isInf {x y : Float} (hx : x.isInf = true) (hy : y.isInf = true)
    (h : x < 0.0 ↔ y < 0.0) : x = y := by
  obtain ⟨hxbits, hxsign⟩ := toBits_of_isInf hx
  obtain ⟨hybits, hysign⟩ := toBits_of_isInf hy
  rw [hxsign, hysign] at h
  have hxlt := x.toBits.toNat_lt
  have hylt := y.toBits.toNat_lt
  exact eq_of_toBits (UInt64.toNat_inj.1 (by omega))

end Infinity

/-- **Distinct floats have distinct texts**, those that are no number aside. -/
theorem numberSource_injective {x y : Float} (hx : x.isNaN = false) (hy : y.isNaN = false)
    (h : numberSource x = numberSource y) : x = y := by
  have hword : "Infinity".toList.head? ≠ some '-' := by decide
  rw [numberSource_eq hx, numberSource_eq hy] at h
  cases hxinf : x.isInf with
  | true =>
      cases hyinf : y.isInf with
      | true =>
          rw [hxinf, hyinf, if_pos rfl, if_pos rfl] at h
          exact eq_of_isInf hxinf hyinf (signed_unique hword hword h).1
      | false =>
          rw [hxinf, hyinf, if_pos rfl, if_neg Bool.false_ne_true] at h
          have htext := (signed_unique hword (magnitudeText_unsigned y) h).2
          exact absurd htext.symm (magnitudeText_ne_infinity y)
  | false =>
      cases hyinf : y.isInf with
      | true =>
          rw [hxinf, hyinf, if_pos rfl, if_neg Bool.false_ne_true] at h
          have htext := (signed_unique (magnitudeText_unsigned x) hword h).2
          exact absurd htext (magnitudeText_ne_infinity x)
      | false =>
          rw [hxinf, hyinf, if_neg Bool.false_ne_true, if_neg Bool.false_ne_true] at h
          obtain ⟨hsign, htext⟩ :=
            signed_unique (magnitudeText_unsigned x) (magnitudeText_unsigned y) h
          exact eq_of_magnitudeText hsign htext

end Literal
end Schemata
