import Ragged.Proofs.Number.Integers

/-!
# Integers beyond a format

An integer rounds to the nearest number of a format, also when it is a little above the greatest one.
From half a unit above on it rounds to infinity:

> an integer rounds to a finite number just if its magnitude is below `Format.overflow`.

With the power of two of the greatest number it depends on the significand, which must be all ones
and be rounded up. Any lesser power of two stays finite, and any greater one does not.
-/

set_option autoImplicit false

namespace Ragged

namespace Format

variable {f : Format}

/-- The least natural number that rounds to infinity: the greatest finite number and half of the
unit in which its significand counts. -/
def overflow (f : Format) : Nat :=
  (2 ^ (f.fraction + 2) - 1) * 2 ^ (2 ^ (f.exponent - 1) - f.fraction - 2)

/-- A natural number has its power of two from its first bit, and its significand is rounded in the
unit that goes with it. -/
theorem roundMagnitude_one (hf : 2 ≤ f.exponent) {n : Nat} (hn : n ≠ 0) :
    f.roundMagnitude n 1 =
      min f.infinity ((n.log2 + 2 ^ (f.exponent - 1) - 2) * 2 ^ f.fraction +
        nearest (n * 2 ^ (f.fraction - n.log2)) (2 ^ (n.log2 - f.fraction))) := by
  obtain ⟨htwo, -⟩ := two_pow_exponent hf
  have hunit : max ((n.log2 : Int) - (0 : Nat) - f.fraction) f.minExponent =
      (n.log2 : Int) - f.fraction := by
    unfold minExponent
    omega
  have hplace : ((n.log2 : Int) - f.fraction - f.minExponent).toNat =
      n.log2 + 2 ^ (f.exponent - 1) - 2 := by
    unfold minExponent
    omega
  have hup : (-((n.log2 : Int) - f.fraction)).toNat = f.fraction - n.log2 := by omega
  have hdown : ((n.log2 : Int) - f.fraction).toNat = n.log2 - f.fraction := by omega
  have hround := roundMagnitude_two_pow hn 0 hunit
  rwa [hplace, hup, hdown, Nat.pow_zero, Nat.one_mul] at hround

/-- The significand has its first bit set. -/
theorem le_nearest {n p : Nat} (hn : n ≠ 0) :
    2 ^ p ≤ nearest (n * 2 ^ (p - n.log2)) (2 ^ (n.log2 - p)) := by
  have hdiv : 2 ^ p ≤ n * 2 ^ (p - n.log2) / 2 ^ (n.log2 - p) := by
    rw [Nat.le_div_iff_mul_le (Nat.two_pow_pos _), ← Nat.pow_add]
    calc 2 ^ (p + (n.log2 - p)) = 2 ^ n.log2 * 2 ^ (p - n.log2) := by
          rw [← Nat.pow_add]; congr 1; omega
      _ ≤ n * 2 ^ (p - n.log2) := Nat.mul_le_mul_right _ (Nat.log2_self_le hn)
  unfold nearest
  split <;> omega

/-- And it has one bit more than the fraction, unless it is rounded up to the next power of two. -/
theorem nearest_le (n p : Nat) :
    nearest (n * 2 ^ (p - n.log2)) (2 ^ (n.log2 - p)) ≤ 2 ^ (p + 1) := by
  have hdiv : n * 2 ^ (p - n.log2) / 2 ^ (n.log2 - p) < 2 ^ (p + 1) := by
    rw [Nat.div_lt_iff_lt_mul (Nat.two_pow_pos _), ← Nat.pow_add]
    calc n * 2 ^ (p - n.log2) < 2 ^ (n.log2 + 1) * 2 ^ (p - n.log2) :=
          Nat.mul_lt_mul_of_pos_right Nat.lt_log2_self (Nat.two_pow_pos _)
      _ = 2 ^ (p + 1 + (n.log2 - p)) := by rw [← Nat.pow_add]; congr 1; omega
  unfold nearest
  split <;> omega

/-- A significand below twice some power of two is rounded up to it from half a unit before. -/
theorem le_nearest_iff {n b P : Nat} (hb : 0 < b) (hP : 0 < P) (hn : n < 2 * P * (2 * b)) :
    2 * P ≤ nearest n (2 * b) ↔ (4 * P - 1) * b ≤ n := by
  have hq : n / (2 * b) < 2 * P := Nat.div_lt_of_lt_mul (by rwa [Nat.mul_comm])
  have hr : n % (2 * b) < 2 * b := Nat.mod_lt _ (by omega)
  have hsum : 2 * b * (n / (2 * b)) + n % (2 * b) = n := Nat.div_add_mod _ _
  generalize hQ : n / (2 * b) = q at hq hsum
  generalize hR : n % (2 * b) = r at hr hsum
  have hlast : (4 * P - 1) * b = 2 * b * (2 * P - 1) + b := by
    obtain ⟨P, rfl⟩ := Nat.exists_eq_add_of_lt hP
    rw [show 4 * (0 + P + 1) - 1 = 4 * P + 3 by omega, show 2 * (0 + P + 1) - 1 = 2 * P + 1 by omega]
    ring
  rw [hlast]
  simp only [nearest, hQ, hR]
  rcases Nat.lt_or_ge q (2 * P - 1) with hsmall | hlarge
  · -- one up is still too few
    have hbelow : 2 * b * (q + 1) ≤ 2 * b * (2 * P - 1) := Nat.mul_le_mul_left _ hsmall
    rw [Nat.mul_succ] at hbelow
    constructor
    · intro h
      split at h <;> omega
    · intro h
      omega
  · obtain rfl : q = 2 * P - 1 := by omega
    have hodd : (2 * P - 1) % 2 = 1 := by omega
    constructor
    · intro h
      split at h <;> omega
    · intro h
      rw [if_pos (by omega)]
      omega

/-- The threshold is between the power of two of the greatest number and the next. -/
theorem overflow_bounds (hfraction : f.fraction + 2 ≤ 2 ^ (f.exponent - 1)) :
    2 ^ (2 ^ (f.exponent - 1) - 1) ≤ f.overflow ∧ f.overflow ≤ 2 ^ 2 ^ (f.exponent - 1) := by
  have hpos : 0 < 2 ^ f.fraction := Nat.two_pow_pos _
  have hsucc : 2 ^ (f.fraction + 1) = 2 ^ f.fraction * 2 := Nat.pow_succ ..
  have hfour : 2 ^ (f.fraction + 2) = 2 ^ f.fraction * 4 := Nat.pow_add ..
  have hlower : 2 ^ (2 ^ (f.exponent - 1) - 1) =
      2 ^ (f.fraction + 1) * 2 ^ (2 ^ (f.exponent - 1) - f.fraction - 2) := by
    rw [← Nat.pow_add]; congr 1; omega
  have hupper : 2 ^ 2 ^ (f.exponent - 1) =
      2 ^ (f.fraction + 2) * 2 ^ (2 ^ (f.exponent - 1) - f.fraction - 2) := by
    rw [← Nat.pow_add]; congr 1; omega
  rw [hlower, hupper]
  exact ⟨Nat.mul_le_mul_right _ (by omega), Nat.mul_le_mul_right _ (by omega)⟩

/-- **What rounds to infinity** among the natural numbers is what is not below `overflow`. -/
theorem infinity_le_roundMagnitude_iff (hf : 2 ≤ f.exponent)
    (hfraction : f.fraction + 2 ≤ 2 ^ (f.exponent - 1)) (n : Nat) :
    f.infinity ≤ f.roundMagnitude n 1 ↔ f.overflow ≤ n := by
  obtain ⟨htwo, hhalf⟩ := two_pow_exponent hf
  obtain ⟨hlower, hupper⟩ := overflow_bounds hfraction
  have hpos : 0 < 2 ^ f.fraction := Nat.two_pow_pos _
  by_cases hn : n = 0
  · subst hn
    have hinfinity : 0 < f.infinity := Nat.mul_pos (by omega) hpos
    have hoverflow : 0 < f.overflow := Nat.lt_of_lt_of_le (Nat.two_pow_pos _) hlower
    rw [roundMagnitude, if_pos rfl]
    omega
  have hself : 2 ^ n.log2 ≤ n := Nat.log2_self_le hn
  have hlt : n < 2 ^ (n.log2 + 1) := Nat.lt_log2_self
  have hlow := le_nearest (p := f.fraction) hn
  have hhigh := nearest_le n f.fraction
  have hsucc : 2 ^ (f.fraction + 1) = 2 * 2 ^ f.fraction := Nat.pow_succ' ..
  rw [roundMagnitude_one hf hn, Nat.le_min, and_iff_right (Nat.le_refl _)]
  rcases Nat.lt_trichotomy n.log2 (2 ^ (f.exponent - 1) - 1) with hless | heq | hmore
  · -- a power of two less: finite whatever the significand
    have hpow : 2 ^ (n.log2 + 1) ≤ 2 ^ (2 ^ (f.exponent - 1) - 1) :=
      Nat.pow_le_pow_right (by decide) (by omega)
    refine iff_of_false ?_ (by omega)
    rw [Nat.not_le]
    calc _ ≤ (n.log2 + 2 ^ (f.exponent - 1) - 2) * 2 ^ f.fraction + 2 * 2 ^ f.fraction := by omega
      _ = (n.log2 + 2 ^ (f.exponent - 1) - 2 + 2) * 2 ^ f.fraction := (Nat.add_mul ..).symm
      _ < f.infinity := Nat.mul_lt_mul_of_pos_right (by omega) hpos
  · -- the power of two of the greatest number: all depends on the significand
    have hbottom : 2 ^ (n.log2 - f.fraction) =
        2 * 2 ^ (2 ^ (f.exponent - 1) - f.fraction - 2) := by
      rw [← Nat.pow_succ']; congr 1; omega
    have htop : n * 2 ^ (f.fraction - n.log2) = n := by
      rw [show f.fraction - n.log2 = 0 by omega, Nat.pow_zero, Nat.mul_one]
    have hsmall : n < 2 * 2 ^ f.fraction * (2 * 2 ^ (2 ^ (f.exponent - 1) - f.fraction - 2)) := by
      rw [← hbottom, ← hsucc, ← Nat.pow_add]
      rwa [show f.fraction + 1 + (n.log2 - f.fraction) = n.log2 + 1 by omega]
    have hplace : f.infinity = (n.log2 + 2 ^ (f.exponent - 1) - 2) * 2 ^ f.fraction +
        2 * 2 ^ f.fraction := by
      rw [← Nat.add_mul, infinity]
      congr 1
      omega
    rw [hplace, Nat.add_le_add_iff_left, htop, hbottom,
      le_nearest_iff (Nat.two_pow_pos _) hpos hsmall, overflow, Nat.pow_add, Nat.mul_comm 4]
  · -- a power of two more
    have hpow : 2 ^ 2 ^ (f.exponent - 1) ≤ 2 ^ n.log2 :=
      Nat.pow_le_pow_right (by decide) (by omega)
    refine iff_of_true ?_ (by omega)
    calc f.infinity ≤ (n.log2 + 2 ^ (f.exponent - 1) - 2 + 1) * 2 ^ f.fraction :=
          Nat.mul_le_mul_right _ (by omega)
      _ = (n.log2 + 2 ^ (f.exponent - 1) - 2) * 2 ^ f.fraction + 2 ^ f.fraction := Nat.succ_mul ..
      _ ≤ _ := Nat.add_le_add_left hlow _

/-- What was rounded is finite unless it was rounded to infinity. -/
theorem isFinite_decode_round (negative : Bool) (num den : Nat) :
    (f.decode (f.round negative num den)).isFinite = true ↔
      f.roundMagnitude num den < f.infinity := by
  have hpos : 0 < 2 ^ f.fraction := Nat.two_pow_pos _
  have hexponent : 0 < 2 ^ f.exponent := Nat.two_pow_pos _
  have hle := roundMagnitude_le (f := f) num den
  rw [round]
  generalize f.roundMagnitude num den = bits at hle
  -- infinity has no fraction, so what is below it has a lesser exponent field
  have hfield : bits / 2 ^ f.fraction ≤ 2 ^ f.exponent - 1 :=
    Nat.div_le_of_le_mul (by rwa [Nat.mul_comm])
  have hbelow : bits < f.infinity ↔ bits / 2 ^ f.fraction ≠ 2 ^ f.exponent - 1 := by
    rw [infinity, ← Nat.div_lt_iff_lt_mul hpos]
    omega
  have hdecode := decode_fields negative (show bits / 2 ^ f.fraction < 2 ^ f.exponent by omega)
    (Nat.mod_lt bits hpos)
  rw [Nat.div_add_mod'] at hdecode
  rw [hbelow, hdecode]
  by_cases hlast : bits / 2 ^ f.fraction = 2 ^ f.exponent - 1
  · rw [if_pos hlast]
    refine iff_of_false ?_ (not_not_intro hlast)
    split <;> exact fun h => Bool.noConfusion h
  · rw [if_neg hlast]
    refine iff_of_true ?_ hlast
    split <;> rfl

end Format

end Ragged
