import Mathlib.Data.Nat.Log
import Mathlib.Tactic.Ring
import Ragged.Number.Binary

/-!
# Integers among the floats

`Binary64.ofInt?` rounds an integer and looks whether the float it gets is still that integer. That
this finds the float if there is one is the fact of this file:

> an integer that some float is exactly is the integer of the float that it rounds to.

A float is a significand times a power of two. If an integer is of that form, then rounding keeps as
many of its first bits as a significand has, and there is nothing behind them to be lost. The bits of
the result are a sum, of the power of two and the significand, and `decode` finds both again.
-/

set_option autoImplicit false

namespace Ragged

/-! ## What decoded numbers are -/

namespace Datum

theorem integer?_eq_some_iff {negative : Bool} {m : Nat} {e i : Int} :
    (finite negative m e).integer? = some i ↔
      i * ((2 ^ (-e).toNat : Nat) : Int) =
        if negative then -((m * 2 ^ e.toNat : Nat) : Int) else ((m * 2 ^ e.toNat : Nat) : Int) := by
  have hpos : ((2 ^ (-e).toNat : Nat) : Int) ≠ 0 := by exact_mod_cast (Nat.two_pow_pos _).ne'
  simp only [integer?, fraction?]
  generalize (if negative = true then -((m * 2 ^ e.toNat : Nat) : Int)
    else ((m * 2 ^ e.toNat : Nat) : Int)) = n
  generalize ((2 ^ (-e).toNat : Nat) : Int) = d at hpos
  split
  · rename_i hmod
    rw [Option.some.injEq, Int.ediv_eq_iff_eq_mul_left hpos (Int.dvd_of_emod_eq_zero hmod), eq_comm]
  · rename_i hmod
    refine ⟨fun h => absurd h (by simp), fun h => absurd ?_ hmod⟩
    rw [← h, Int.mul_emod_left]

/-- The magnitude of an integer is the significand times the power of two. -/
theorem natAbs_of_integer? {negative : Bool} {m : Nat} {e i : Int}
    (h : (finite negative m e).integer? = some i) :
    i.natAbs * 2 ^ (-e).toNat = m * 2 ^ e.toNat := by
  have h := congrArg Int.natAbs (integer?_eq_some_iff.mp h)
  rw [Int.natAbs_mul, Int.natAbs_natCast] at h
  rw [h]
  split
  · rw [Int.natAbs_neg, Int.natAbs_natCast]
  · rw [Int.natAbs_natCast]

/-- And if that is its magnitude and the sign is right, it is the integer. -/
theorem integer?_of_natAbs {m : Nat} {e i : Int}
    (h : i.natAbs * 2 ^ (-e).toNat = m * 2 ^ e.toNat) :
    (finite (decide (i < 0)) m e).integer? = some i := by
  rw [integer?_eq_some_iff, ← h]
  by_cases hneg : i < 0
  · rw [decide_eq_true hneg, if_pos rfl, Int.natCast_mul, ← Int.neg_mul]
    congr 1
    omega
  · rw [decide_eq_false hneg, if_neg (by decide), Int.natCast_mul]
    congr 1
    omega

theorem exists_of_integer? {d : Datum} {i : Int} (h : d.integer? = some i) :
    ∃ negative m e, d = .finite negative m e := by
  cases d with
  | finite negative m e => exact ⟨negative, m, e, rfl⟩
  | _ => exact absurd h (by simp [integer?, fraction?])

end Datum

namespace Format

variable {f : Format}

theorem two_pow_exponent (hf : 2 ≤ f.exponent) :
    2 ≤ 2 ^ (f.exponent - 1) ∧ 2 ^ f.exponent = 2 ^ (f.exponent - 1) * 2 := by
  constructor
  · calc 2 = 2 ^ 1 := rfl
      _ ≤ 2 ^ (f.exponent - 1) := Nat.pow_le_pow_right (by decide) (by omega)
  · rw [← Nat.pow_succ]
    congr 1
    omega

/-- Significands have one bit more than the fraction, and the greatest power of two is that of the
greatest number. -/
theorem decode_bounds (hf : 2 ≤ f.exponent) {bits m : Nat} {negative : Bool} {e : Int}
    (h : f.decode bits = .finite negative m e) :
    m < 2 ^ (f.fraction + 1) ∧ e + f.fraction < (2 ^ (f.exponent - 1) : Nat) := by
  have hfraction : bits % 2 ^ f.fraction < 2 ^ f.fraction := Nat.mod_lt _ (Nat.two_pow_pos _)
  have hfield : bits / 2 ^ f.fraction % 2 ^ f.exponent < 2 ^ f.exponent :=
    Nat.mod_lt _ (Nat.two_pow_pos _)
  obtain ⟨htwo, hhalf⟩ := two_pow_exponent hf
  rw [Nat.pow_succ]
  simp only [decode, minExponent] at h
  split at h
  · split at h <;> exact absurd h (by simp)
  · split at h
    · obtain ⟨-, rfl, rfl⟩ := Datum.finite.inj h
      omega
    · obtain ⟨-, rfl, rfl⟩ := Datum.finite.inj h
      omega

/-- Bits put together from their three fields: what they mean is read off the fields. -/
theorem decode_fields (negative : Bool) {field fraction : Nat} (hfield : field < 2 ^ f.exponent)
    (hfraction : fraction < 2 ^ f.fraction) :
    f.decode (field * 2 ^ f.fraction + fraction + if negative then f.signWeight else 0) =
      if field = 2 ^ f.exponent - 1 then
        if fraction = 0 then .infinite negative else .nan
      else if field = 0 then .finite negative fraction f.minExponent
      else .finite negative (2 ^ f.fraction + fraction) (f.minExponent + (field - 1 : Nat)) := by
  -- fraction, exponent and sign one behind the other, from below
  have hbits : (field * 2 ^ f.fraction + fraction + if negative then f.signWeight else 0) =
      2 ^ f.fraction * (field + 2 ^ f.exponent * negative.toNat) + fraction := by
    rw [signWeight, Nat.pow_add]
    cases negative
    · simp only [Bool.false_eq_true, if_false, Bool.toNat_false]
      ring
    · simp only [if_true, Bool.toNat_true]
      ring
  have hdiv : (2 ^ f.fraction * (field + 2 ^ f.exponent * negative.toNat) + fraction) /
      2 ^ f.fraction = field + 2 ^ f.exponent * negative.toNat := by
    rw [Nat.mul_add_div (Nat.two_pow_pos _), Nat.div_eq_of_lt hfraction, Nat.add_zero]
  have hmod : (2 ^ f.fraction * (field + 2 ^ f.exponent * negative.toNat) + fraction) %
      2 ^ f.fraction = fraction := by
    rw [Nat.mul_add_mod, Nat.mod_eq_of_lt hfraction]
  have hlow : (field + 2 ^ f.exponent * negative.toNat) % 2 ^ f.exponent = field := by
    rw [Nat.add_mul_mod_self_left, Nat.mod_eq_of_lt hfield]
  have hhigh : (field + 2 ^ f.exponent * negative.toNat) / 2 ^ f.exponent = negative.toNat := by
    rw [Nat.add_mul_div_left _ _ (Nat.two_pow_pos _), Nat.div_eq_of_lt hfield, Nat.zero_add]
  have hsign : (negative.toNat % 2 == 1) = negative := by cases negative <;> rfl
  rw [hbits]
  simp only [decode, signWeight, Nat.pow_add, ← Nat.div_div_eq_div_mul, hdiv, hmod, hlow, hhigh,
    hsign]

/-- A significand with its first bit set and a power of two, as the bits they are put into. -/
theorem decode_sum {q k : Nat} (negative : Bool) (hlow : 2 ^ f.fraction ≤ q)
    (hhigh : q < 2 ^ (f.fraction + 1)) (hk : k + 2 < 2 ^ f.exponent) :
    f.decode (k * 2 ^ f.fraction + q + if negative then f.signWeight else 0) =
      .finite negative q (f.minExponent + k) := by
  obtain ⟨r, rfl⟩ := Nat.exists_eq_add_of_le hlow
  have hr : r < 2 ^ f.fraction := by
    rw [Nat.pow_succ] at hhigh
    omega
  -- the first bit counts as one more in the exponent field
  rw [← Nat.add_assoc, ← Nat.succ_mul, decode_fields negative (by omega) hr, if_neg (by omega),
    if_neg (by omega), Nat.succ_sub_one]

/-! ## Rounding what is exact -/

theorem log2_mul_two_pow {n : Nat} (hn : n ≠ 0) (k : Nat) : (n * 2 ^ k).log2 = n.log2 + k := by
  induction k with
  | zero => rw [Nat.pow_zero, Nat.mul_one, Nat.add_zero]
  | succ k ih =>
    rw [Nat.pow_succ, ← Nat.mul_assoc, Nat.mul_comm,
      Nat.log2_two_mul (Nat.mul_ne_zero hn (Nat.two_pow_pos k).ne'), ih]
    rfl

/-- If a number is a significand of at most `p + 1` bits times a power of two, then its first `p + 1`
bits are all of it. -/
theorem exists_significand {n m x y p : Nat} (hn : n ≠ 0) (hm : m < 2 ^ (p + 1))
    (h : n * 2 ^ x = m * 2 ^ y) :
    n.log2 + x ≤ p + y ∧
      ∃ q, 2 ^ p ≤ q ∧ q < 2 ^ (p + 1) ∧ n * 2 ^ (p - n.log2) = q * 2 ^ (n.log2 - p) := by
  have hm0 : m ≠ 0 := by
    rintro rfl
    rw [Nat.zero_mul] at h
    exact absurd h (Nat.mul_ne_zero hn (Nat.two_pow_pos x).ne')
  have hlog : n.log2 + x = m.log2 + y := by
    rw [← log2_mul_two_pow hn, h, log2_mul_two_pow hm0]
  have hmp : m.log2 ≤ p := Nat.lt_succ_iff.mp ((Nat.log2_lt hm0).mpr hm)
  refine ⟨by omega, m * 2 ^ (p - m.log2), ?_, ?_, ?_⟩
  · calc 2 ^ p = 2 ^ m.log2 * 2 ^ (p - m.log2) := by rw [← Nat.pow_add]; congr 1; omega
      _ ≤ m * 2 ^ (p - m.log2) := Nat.mul_le_mul_right _ (Nat.log2_self_le hm0)
  · calc m * 2 ^ (p - m.log2) < 2 ^ (m.log2 + 1) * 2 ^ (p - m.log2) :=
          Nat.mul_lt_mul_of_pos_right Nat.lt_log2_self (Nat.two_pow_pos _)
      _ = 2 ^ (p + 1) := by rw [← Nat.pow_add]; congr 1; omega
  · -- both sides times `2 ^ x`, where the equation can be used
    apply Nat.eq_of_mul_eq_mul_right (Nat.two_pow_pos x)
    calc n * 2 ^ (p - n.log2) * 2 ^ x = n * 2 ^ x * 2 ^ (p - n.log2) := by ring
      _ = m * 2 ^ (y + (p - n.log2)) := by rw [h, Nat.mul_assoc, ← Nat.pow_add]
      _ = m * 2 ^ (p - m.log2 + (n.log2 - p) + x) := by congr 2; omega
      _ = m * 2 ^ (p - m.log2) * 2 ^ (n.log2 - p) * 2 ^ x := by
        rw [Nat.pow_add, Nat.pow_add]; ring

/-- A power of two in both parts of a fraction cancels. -/
theorem roundMagnitude_mul_two_pow (num : Nat) {den : Nat} (hd : den ≠ 0) (k : Nat) :
    f.roundMagnitude (num * 2 ^ k) (den * 2 ^ k) = f.roundMagnitude num den := by
  by_cases hn : num = 0
  · simp [roundMagnitude, hn]
  have hpos : 0 < 2 ^ k := Nat.two_pow_pos k
  have hguess (p : Nat) : (((num.log2 + k : Nat) : Int) - (den.log2 + k : Nat) - p - 1) =
      (num.log2 : Int) - den.log2 - p - 1 := by omega
  have hright (b : Nat) : den * 2 ^ k * b = den * b * 2 ^ k := Nat.mul_right_comm ..
  have hdiv (a b : Nat) : num * 2 ^ k * a / (den * b * 2 ^ k) = num * a / (den * b) := by
    rw [Nat.mul_right_comm, Nat.mul_div_mul_right _ _ hpos]
  have hmod (a b : Nat) : num * 2 ^ k * a % (den * b * 2 ^ k) = num * a % (den * b) * 2 ^ k := by
    rw [Nat.mul_right_comm, Nat.mul_mod_mul_right]
  -- twice the remainder is compared with the divisor, and `2 ^ k` is a factor of both
  have htwice (r : Nat) : 2 * (r * 2 ^ k) = 2 * r * 2 ^ k := (Nat.mul_assoc ..).symm
  have hgt (a b : Nat) : (a * 2 ^ k > b * 2 ^ k) = (a > b) :=
    propext (Nat.mul_lt_mul_right hpos)
  have heq (a b : Nat) : (a * 2 ^ k = b * 2 ^ k) = (a = b) :=
    propext (Nat.mul_left_inj hpos.ne')
  simp only [roundMagnitude, log2_mul_two_pow hn, log2_mul_two_pow hd, hguess, hright, hdiv, hmod,
    htwice, hgt, heq, if_neg hn, if_neg (Nat.mul_ne_zero hn hpos.ne')]

/-- The integer nearest to a quotient, of two the even one. -/
def nearest (top bottom : Nat) : Nat :=
  if 2 * (top % bottom) > bottom ∨ (2 * (top % bottom) = bottom ∧ top / bottom % 2 = 1) then
    top / bottom + 1
  else top / bottom

theorem nearest_mul (q : Nat) {bottom : Nat} (h : 0 < bottom) : nearest (q * bottom) bottom = q := by
  rw [nearest, Nat.mul_mod_left, Nat.mul_div_cancel _ h, if_neg (by omega)]

/-- If the divisor is a power of two, the unit is found by the numbers of bits alone. -/
theorem roundMagnitude_two_pow {n : Nat} (hn : n ≠ 0) (d : Nat) {e : Int}
    (he : max ((n.log2 : Int) - d - f.fraction) f.minExponent = e) :
    f.roundMagnitude n (2 ^ d) =
      min f.infinity ((e - f.minExponent).toNat * 2 ^ f.fraction +
        nearest (n * 2 ^ (-e).toNat) (2 ^ d * 2 ^ e.toNat)) := by
  -- so the guess is always one too low
  have hdown : ¬n * 2 ^ (-((n.log2 : Int) - d - f.fraction - 1)).toNat /
      (2 ^ d * 2 ^ ((n.log2 : Int) - d - f.fraction - 1).toNat) < 2 ^ (f.fraction + 1) := by
    rw [Nat.not_lt, Nat.le_div_iff_mul_le (Nat.mul_pos (Nat.two_pow_pos _) (Nat.two_pow_pos _)),
      ← Nat.pow_add, ← Nat.pow_add]
    calc 2 ^ (f.fraction + 1 + (d + ((n.log2 : Int) - d - f.fraction - 1).toNat))
        = 2 ^ n.log2 * 2 ^ (-((n.log2 : Int) - d - f.fraction - 1)).toNat := by
          rw [← Nat.pow_add]; congr 1; omega
      _ ≤ n * 2 ^ (-((n.log2 : Int) - d - f.fraction - 1)).toNat :=
          Nat.mul_le_mul_right _ (Nat.log2_self_le hn)
  simp only [roundMagnitude, Nat.log2_two_pow]
  rw [if_neg hn, if_neg hdown, Int.sub_add_cancel, he]
  rfl

/-- A significand and the number of its unit, counted from the least, as numbers of the format have
them: all bits of the significand are used unless the unit is the least. -/
structure Placed (f : Format) (q k : Nat) : Prop where
  fits : q < 2 ^ (f.fraction + 1)
  full : 2 ^ f.fraction ≤ q ∨ k = 0
  range : k + 2 < 2 ^ f.exponent

/-- **Nothing is rounded off a number of the format.** -/
theorem roundMagnitude_scaled {q k : Nat} (h : f.Placed q k) :
    f.roundMagnitude (scaled q (f.minExponent + k)).1 (scaled q (f.minExponent + k)).2 =
      k * 2 ^ f.fraction + q := by
  obtain ⟨hhigh, hlow, hk⟩ := h
  have hpos : 0 < 2 ^ f.fraction := Nat.two_pow_pos _
  by_cases hq : q = 0
  · subst hq
    obtain rfl : k = 0 := hlow.resolve_left (by omega)
    simp [roundMagnitude, scaled]
  have hlog : q.log2 ≤ f.fraction := Nat.lt_succ_iff.mp ((Nat.log2_lt hq).mpr hhigh)
  have hunit : max ((q.log2 : Int) + (f.minExponent + k) - f.fraction) f.minExponent =
      f.minExponent + k := by
    rcases hlow with hlow | rfl
    · have := (Nat.le_log2 hq).mpr hlow
      omega
    · omega
  have hplace : (f.minExponent + k - f.minExponent).toNat = k := by omega
  generalize f.minExponent + k = e at hunit hplace
  have hbits : max (((q * 2 ^ e.toNat).log2 : Int) - (-e).toNat - f.fraction) f.minExponent = e := by
    rw [log2_mul_two_pow hq]
    omega
  have htop : q * 2 ^ e.toNat * 2 ^ (-e).toNat = q * (2 ^ (-e).toNat * 2 ^ e.toNat) := by ring
  rw [scaled, roundMagnitude_two_pow (Nat.mul_ne_zero hq (Nat.two_pow_pos _).ne') _ hbits, hplace,
    htop, nearest_mul _ (Nat.mul_pos (Nat.two_pow_pos _) (Nat.two_pow_pos _))]
  apply Nat.min_eq_right
  -- below infinity
  calc k * 2 ^ f.fraction + q ≤ k * 2 ^ f.fraction + 2 * 2 ^ f.fraction := by
        rw [Nat.pow_succ] at hhigh
        omega
    _ = (k + 2) * 2 ^ f.fraction := (Nat.add_mul ..).symm
    _ ≤ f.infinity := Nat.mul_le_mul_right _ (by omega)

/-- Nothing is rounded off a number that is a significand and zeros behind it. -/
theorem roundMagnitude_of_exact (hf : 2 ≤ f.exponent) {n q : Nat}
    (hrange : n.log2 < 2 ^ (f.exponent - 1)) (hlow : 2 ^ f.fraction ≤ q)
    (hhigh : q < 2 ^ (f.fraction + 1))
    (hq : n * 2 ^ (f.fraction - n.log2) = q * 2 ^ (n.log2 - f.fraction)) :
    f.roundMagnitude n 1 = (n.log2 + 2 ^ (f.exponent - 1) - 2) * 2 ^ f.fraction + q := by
  obtain ⟨htwo, hhalf⟩ := two_pow_exponent hf
  have hunit : f.minExponent + (n.log2 + 2 ^ (f.exponent - 1) - 2 : Nat) =
      (n.log2 : Int) - f.fraction := by
    unfold minExponent
    omega
  have hscaled : scaled q ((n.log2 : Int) - f.fraction) =
      (n * 2 ^ (f.fraction - n.log2), 1 * 2 ^ (f.fraction - n.log2)) := by
    rw [scaled, hq, Nat.one_mul]
    congr 2
    all_goals congr 1
    all_goals omega
  have hround := @roundMagnitude_scaled f q (n.log2 + 2 ^ (f.exponent - 1) - 2)
    ⟨hhigh, .inl hlow, by omega⟩
  rw [hunit, hscaled, roundMagnitude_mul_two_pow n Nat.one_ne_zero] at hround
  exact hround

theorem roundMagnitude_le (num den : Nat) : f.roundMagnitude num den ≤ f.infinity := by
  unfold roundMagnitude
  split
  · exact Nat.zero_le _
  · exact Nat.min_le_left _ _

/-- The sign bit is the highest. -/
theorem round_lt (negative : Bool) (num den : Nat) : f.round negative num den < 2 * f.signWeight := by
  have hinf : f.infinity < f.signWeight := by
    rw [infinity, signWeight, Nat.add_comm, Nat.pow_add]
    refine Nat.mul_lt_mul_of_pos_right ?_ (Nat.two_pow_pos _)
    exact Nat.sub_lt (Nat.two_pow_pos _) (by decide)
  have hmagnitude := roundMagnitude_le (f := f) num den
  unfold round
  split <;> omega

theorem decode_round_of_exact (hf : 2 ≤ f.exponent) (negative : Bool) {n q : Nat}
    (hrange : n.log2 < 2 ^ (f.exponent - 1)) (hlow : 2 ^ f.fraction ≤ q)
    (hhigh : q < 2 ^ (f.fraction + 1))
    (hq : n * 2 ^ (f.fraction - n.log2) = q * 2 ^ (n.log2 - f.fraction)) :
    f.decode (f.round negative n 1) = .finite negative q ((n.log2 : Int) - f.fraction) := by
  obtain ⟨htwo, hhalf⟩ := two_pow_exponent hf
  rw [round, roundMagnitude_of_exact hf hrange hlow hhigh hq, decode_sum negative hlow hhigh (by omega),
    minExponent]
  congr 1
  omega

theorem decode_round_zero (hf : 2 ≤ f.exponent) (negative : Bool) (den : Nat) :
    f.decode (f.round negative 0 den) = .finite negative 0 f.minExponent := by
  obtain ⟨htwo, hhalf⟩ := two_pow_exponent hf
  have hbits : f.round negative 0 den =
      0 * 2 ^ f.fraction + 0 + if negative then f.signWeight else 0 := by
    rw [round, roundMagnitude, if_pos rfl, Nat.zero_mul]
  rw [hbits, decode_fields negative (Nat.two_pow_pos _) (Nat.two_pow_pos _), if_neg (by omega),
    if_pos rfl]

/-! ## The integers of a format -/

/-- Whether an integer is one of the numbers of a format: all its significant bits are bits of one
significand, and it is below the power of two at which the format ends. -/
def HasInteger (f : Format) (i : Int) : Prop :=
  i.natAbs < 2 ^ 2 ^ (f.exponent - 1) ∧ ∃ m e, m < 2 ^ (f.fraction + 1) ∧ i.natAbs = m * 2 ^ e

/-- All integers of no more bits than a significand are numbers of the format. -/
theorem hasInteger_of_natAbs_lt (hf : f.fraction < 2 ^ (f.exponent - 1)) {i : Int}
    (h : i.natAbs < 2 ^ (f.fraction + 1)) : f.HasInteger i :=
  ⟨Nat.lt_of_lt_of_le h (Nat.pow_le_pow_right (by decide) hf), i.natAbs, 0, h, (Nat.mul_one _).symm⟩

/-- What some bits decode to is one of the numbers. -/
theorem hasInteger_of_decode (hf : 2 ≤ f.exponent) {bits : Nat} {i : Int}
    (h : (f.decode bits).integer? = some i) : f.HasInteger i := by
  by_cases hi : i = 0
  · subst hi
    exact ⟨Nat.two_pow_pos _, 0, 0, Nat.two_pow_pos _, rfl⟩
  have hn : i.natAbs ≠ 0 := by omega
  obtain ⟨negative, m, e, hx⟩ := Datum.exists_of_integer? h
  obtain ⟨hm, he⟩ := decode_bounds hf hx
  rw [hx] at h
  obtain ⟨hlog, q, -, hhigh, hq⟩ := exists_significand hn hm (Datum.natAbs_of_integer? h)
  have hlt : i.natAbs < 2 ^ (i.natAbs.log2 + 1) := Nat.lt_log2_self
  refine ⟨Nat.lt_of_lt_of_le hlt (Nat.pow_le_pow_right (by decide) (by omega)), ?_⟩
  rcases Nat.le_total f.fraction i.natAbs.log2 with hle | hle
  · rw [Nat.sub_eq_zero_of_le hle, Nat.pow_zero, Nat.mul_one] at hq
    exact ⟨q, _, hhigh, hq⟩
  · refine ⟨i.natAbs, 0, Nat.lt_of_lt_of_le hlt ?_, (Nat.mul_one _).symm⟩
    exact Nat.pow_le_pow_right (by decide) (by omega)

/-- **An integer that is a number of the format is the integer of what it rounds to.** -/
theorem integer?_round (hf : 2 ≤ f.exponent) {i : Int} (h : f.HasInteger i) :
    (f.decode (f.round (decide (i < 0)) i.natAbs 1)).integer? = some i := by
  obtain ⟨hlt, m, e, hm, heq⟩ := h
  by_cases hi : i = 0
  · subst hi
    rw [Int.natAbs_zero, decode_round_zero hf]
    exact Datum.integer?_of_natAbs (by simp)
  have hn : i.natAbs ≠ 0 := by omega
  have hrange : i.natAbs.log2 < 2 ^ (f.exponent - 1) := (Nat.log2_lt hn).mpr hlt
  have hscaled : i.natAbs * 2 ^ 0 = m * 2 ^ e := by rw [Nat.pow_zero, Nat.mul_one, heq]
  obtain ⟨-, q, hlow, hhigh, hq⟩ := exists_significand hn hm hscaled
  rw [decode_round_of_exact hf _ hrange hlow hhigh hq]
  apply Datum.integer?_of_natAbs
  rw [show (-((i.natAbs.log2 : Int) - f.fraction)).toNat = f.fraction - i.natAbs.log2 by omega,
    show ((i.natAbs.log2 : Int) - f.fraction).toNat = i.natAbs.log2 - f.fraction by omega, hq]

end Format

namespace Binary64

theorem datum_ofInt (i : Int) :
    (ofInt i).datum = Format.double.decode (Format.double.round (decide (i < 0)) i.natAbs 1) := by
  have hbits : 2 * Format.double.signWeight = 2 ^ 64 := by decide
  have hlt := Format.round_lt (f := .double) (decide (i < 0)) i.natAbs 1
  rw [hbits] at hlt
  rw [datum, ofInt, ofQuotient]
  congr 1
  exact UInt64.toNat_ofNat_of_lt' hlt

/-- What some float is, is one of the numbers of the format. -/
theorem hasInteger {x : Binary64} {i : Int} (h : x.integer? = some i) :
    Format.double.HasInteger i :=
  Format.hasInteger_of_decode (by decide) h

/-- **An integer that is a float is the integer of the float that it rounds to.** -/
theorem integer?_ofInt {i : Int} (h : Format.double.HasInteger i) :
    (ofInt i).integer? = some i := by
  rw [integer?, datum_ofInt]
  exact Format.integer?_round (by decide) h

/-- So none is found if no float is that integer, and only then. -/
theorem ofInt?_eq_none_iff {i : Int} : ofInt? i = none ↔ ∀ x : Binary64, x.integer? ≠ some i := by
  simp only [ofInt?]
  constructor
  · intro h x hx
    rw [if_pos (integer?_ofInt (hasInteger hx))] at h
    exact absurd h (by simp)
  · intro h
    rw [if_neg (h (ofInt i))]

end Binary64

end Ragged
