import Mathlib.Algebra.Field.Rat
import Mathlib.Algebra.GroupWithZero.Basic
import Mathlib.Tactic.NormNum
import Mathlib.Tactic.Positivity
import Ragged.Proofs.Number.Integers

/-!
# The number that bits stand for

`Binary64.value?` reads a float as the standard has it: a sign bit, eleven bits of exponent and 52
of fraction, and what they stand for is a rational number. Nothing is said of that in the
definitions that compute with floats. These decode to a significand and a power of two, and find
integers by dividing naturals. The two agree:

> a float is an integer just if that is the number it stands for.

So `Binary64.integer?` cuts nothing off and `Binary64.isZero` finds the two zeros and no others.
-/

set_option autoImplicit false

namespace Ragged

/-- The rational number that decoded bits stand for, if there is one. -/
def Datum.value? : Datum → Option ℚ
  | .finite negative m e => some ((if negative then -1 else 1) * m * 2 ^ e)
  | _ => none

namespace Binary64

/-- The rational number that 64 bits stand for, if there is one. With an empty exponent field there
is no leading bit in front of the fraction, and a full one is for infinities and what is no number.
-/
def value? (x : Binary64) : Option ℚ :=
  let sign : ℚ := if x.bits.toNat / 2 ^ 63 = 1 then -1 else 1
  let field : ℕ := x.bits.toNat / 2 ^ 52 % 2 ^ 11
  let fraction : ℕ := x.bits.toNat % 2 ^ 52
  if field = 2047 then none
  else if field = 0 then some (sign * fraction * 2 ^ (-1074 : ℤ))
  else some (sign * (2 ^ 52 + fraction : ℕ) * 2 ^ ((field : ℤ) - 1075))

/-- Decoding finds the three fields. -/
theorem value?_eq (x : Binary64) : x.value? = x.datum.value? := by
  have hlt := x.bits.toNat_lt
  have hsign : (x.bits.toNat / 2 ^ 63 % 2 == 1) = decide (x.bits.toNat / 2 ^ 63 = 1) := by
    rw [Nat.mod_eq_of_lt (by omega)]
    rfl
  have hdatum : x.datum =
      if x.bits.toNat / 2 ^ 52 % 2 ^ 11 = 2047 then
        if x.bits.toNat % 2 ^ 52 = 0 then .infinite (x.bits.toNat / 2 ^ 63 % 2 == 1) else .nan
      else if x.bits.toNat / 2 ^ 52 % 2 ^ 11 = 0 then
        .finite (x.bits.toNat / 2 ^ 63 % 2 == 1) (x.bits.toNat % 2 ^ 52) (-1074)
      else
        .finite (x.bits.toNat / 2 ^ 63 % 2 == 1) (2 ^ 52 + x.bits.toNat % 2 ^ 52)
          (-1074 + (x.bits.toNat / 2 ^ 52 % 2 ^ 11 - 1 : ℕ)) := rfl
  rw [hdatum, hsign, value?]
  split
  · split <;> rfl
  split
  · simp only [Datum.value?, decide_eq_true_eq]
  · have hexponent : (-1074 : ℤ) + (x.bits.toNat / 2 ^ 52 % 2 ^ 11 - 1 : ℕ) =
        (x.bits.toNat / 2 ^ 52 % 2 ^ 11 : ℕ) - 1075 := by omega
    simp only [Datum.value?, decide_eq_true_eq, hexponent]

end Binary64

namespace Datum

/-- **A number is the integer that it stands for**, if it stands for one. -/
theorem integer?_eq_some_iff_value? {d : Datum} {i : ℤ} :
    d.integer? = some i ↔ d.value? = some (i : ℚ) := by
  cases d with
  | nan => simp [integer?, fraction?, value?]
  | infinite negative => simp [integer?, fraction?, value?]
  | finite negative m e =>
    have hpow : (2 : ℚ) ^ e * 2 ^ (-e).toNat = 2 ^ e.toNat := by
      rw [← zpow_natCast, ← zpow_natCast, ← zpow_add₀ two_ne_zero]
      congr 1
      omega
    have hpos : (2 : ℚ) ^ (-e).toNat ≠ 0 := pow_ne_zero _ two_ne_zero
    rw [integer?_eq_some_iff, value?, Option.some.injEq, ← mul_left_inj' hpos, mul_assoc, hpow,
      ← Int.cast_inj (α := ℚ)]
    cases negative with
    | false =>
      push_cast
      rw [one_mul, eq_comm]
    | true =>
      push_cast
      rw [if_pos rfl, if_pos rfl, neg_one_mul, neg_mul, eq_comm]

end Datum

namespace Binary64

variable {x : Binary64}

theorem integer?_eq_some_iff {i : ℤ} : x.integer? = some i ↔ x.value? = some (i : ℚ) := by
  rw [value?_eq, integer?, Datum.integer?_eq_some_iff_value?]

/-- What equals zero is a number that is zero. -/
theorem isZero_iff_integer? : x.isZero = true ↔ x.integer? = some 0 := by
  rw [isZero, numEq, integer?]
  have hzero : zero.datum = .finite false 0 (-1074) := by decide
  rw [hzero]
  cases x.datum with
  | nan => simp [Datum.numEq, Datum.integer?, Datum.fraction?]
  | infinite negative => simp [Datum.numEq, Datum.integer?, Datum.fraction?]
  | finite negative m e =>
    have hpow : ((2 ^ (- -1074 : ℤ).toNat : ℕ) : ℤ) ≠ 0 := by positivity
    rw [Datum.integer?_eq_some_iff]
    simp only [Datum.numEq, Datum.fraction?]
    rw [beq_iff_eq, if_neg Bool.false_ne_true, Nat.zero_mul, Int.natCast_zero, zero_mul,
      mul_eq_zero, or_iff_left hpow, eq_comm]

/-- **The two zeros are the bits that are empty but for the sign.** -/
theorem isZero_iff : x.isZero = true ↔ x.bits = 0 ∨ x.bits = 0x8000000000000000 := by
  have hlt := x.bits.toNat_lt
  constructor
  · intro h
    rw [isZero_iff_integer?, integer?_eq_some_iff, value?] at h
    have hsign : (if x.bits.toNat / 2 ^ 63 = 1 then -1 else 1 : ℚ) ≠ 0 := by
      split <;> norm_num
    have hpow : ∀ e : ℤ, (2 : ℚ) ^ e ≠ 0 := fun e => zpow_ne_zero e two_ne_zero
    split at h
    · exact absurd h (by simp)
    split at h
    next hfield =>
      -- without a leading bit it is the fraction that is zero
      have hfraction : x.bits.toNat % 2 ^ 52 = 0 := by
        have hprod := mul_eq_zero.mp ((Option.some.inj h).trans Int.cast_zero)
        have hfraction := (mul_eq_zero.mp (hprod.resolve_right (hpow _))).resolve_left hsign
        exact_mod_cast hfraction
      have hbits : x.bits.toNat = 0 ∨ x.bits.toNat = 0x8000000000000000 := by omega
      exact hbits.imp (fun h => UInt64.toNat_inj.mp h) fun h => UInt64.toNat_inj.mp h
    next hfield =>
      have hpos : ((2 ^ 52 + x.bits.toNat % 2 ^ 52 : ℕ) : ℚ) ≠ 0 := by positivity
      exact absurd ((Option.some.inj h).trans Int.cast_zero)
        (mul_ne_zero (mul_ne_zero hsign hpos) (hpow _))
  · obtain ⟨bits⟩ := x
    rintro (rfl | rfl)
    · decide +kernel
    · decide +kernel

end Binary64

end Ragged
