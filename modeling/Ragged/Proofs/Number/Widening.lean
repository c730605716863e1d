import Ragged.Proofs.Number.Narrowing

/-!
# Wider and back again

A number of 16 or 32 bits is read as one of 64. That loses nothing:

> a number that is brought into a wider format and back is the number it was.

Bits and what they mean determine each other, so rounding what bits decode to gives these bits
(`ofDatum_decode`). In the wider format a significand is filled up with zeros below, and a fraction
over powers of two does not notice (`ofDatum_shift`). Back to 16 bits the lower half of the bits is
cleared first. It is clear already, as the zeros that were filled in reach that far.

What is not a number is one number in each format, whatever its bits were. So bits of that kind
need not come back, but what they are read as does.
-/

set_option autoImplicit false

namespace Ragged

namespace Format

variable {f g : Format}

/-! ## Bits and what they mean -/

/-- Bits are put together from three fields. -/
theorem exists_fields {bits : Nat} (h : bits < 2 * f.signWeight) :
    ∃ (negative : Bool) (field fraction : Nat), field < 2 ^ f.exponent ∧
      fraction < 2 ^ f.fraction ∧
      bits = field * 2 ^ f.fraction + fraction + if negative then f.signWeight else 0 := by
  have hfraction : bits % 2 ^ f.fraction < 2 ^ f.fraction := Nat.mod_lt _ (Nat.two_pow_pos _)
  have hsum : bits % f.signWeight =
      bits / 2 ^ f.fraction % 2 ^ f.exponent * 2 ^ f.fraction + bits % 2 ^ f.fraction := by
    rw [signWeight, Nat.pow_add, Nat.mod_mul, Nat.mul_comm, Nat.add_comm]
  refine ⟨decide (f.signWeight ≤ bits), bits / 2 ^ f.fraction % 2 ^ f.exponent,
    bits % 2 ^ f.fraction, Nat.mod_lt _ (Nat.two_pow_pos _), hfraction, ?_⟩
  rw [← hsum]
  by_cases hsign : f.signWeight ≤ bits
  · rw [decide_eq_true hsign, if_pos rfl, Nat.mod_eq_sub_mod hsign, Nat.mod_eq_of_lt (by omega)]
    omega
  · rw [decide_eq_false hsign, if_neg (by simp), Nat.mod_eq_of_lt (by omega)]
    rfl

/-- What bits can mean, and which bits then these are. -/
theorem decode_cases (hf : 2 ≤ f.exponent) {bits : Nat} (h : bits < 2 * f.signWeight) :
    f.decode bits = .nan ∨
      (∃ negative : Bool, f.decode bits = .infinite negative ∧
        bits = f.infinity + if negative then f.signWeight else 0) ∨
      ∃ (negative : Bool) (m k : Nat), f.decode bits = .finite negative m (f.minExponent + k) ∧
        f.Placed m k ∧ bits = k * 2 ^ f.fraction + m + if negative then f.signWeight else 0 := by
  obtain ⟨htwo, hhalf⟩ := two_pow_exponent hf
  obtain ⟨negative, field, fraction, hfield, hfraction, rfl⟩ := exists_fields h
  rw [decode_fields negative hfield hfraction]
  have hsucc : 2 ^ (f.fraction + 1) = 2 ^ f.fraction * 2 := Nat.pow_succ ..
  by_cases hlast : field = 2 ^ f.exponent - 1
  · subst hlast
    rw [if_pos rfl]
    by_cases hzero : fraction = 0
    · subst hzero
      exact .inr (.inl ⟨negative, if_pos rfl, rfl⟩)
    · exact .inl (if_neg hzero)
  · rw [if_neg hlast]
    right; right
    cases field with
    | zero =>
      refine ⟨negative, fraction, 0, ?_, ⟨by omega, .inr rfl, by omega⟩, rfl⟩
      rw [if_pos rfl, Int.natCast_zero, Int.add_zero]
    | succ k =>
      refine ⟨negative, 2 ^ f.fraction + fraction, k, if_neg (Nat.succ_ne_zero k),
        ⟨by omega, .inl (Nat.le_add_right _ _), by omega⟩, ?_⟩
      rw [Nat.succ_mul, Nat.add_assoc (k * 2 ^ f.fraction)]

/-- Rounding a number of the format gives the bits it is put into. -/
theorem ofDatum_finite (negative : Bool) {m k : Nat} (h : f.Placed m k) :
    f.ofDatum (.finite negative m (f.minExponent + k)) =
      k * 2 ^ f.fraction + m + if negative then f.signWeight else 0 := by
  rw [← roundMagnitude_scaled h]
  rfl

/-- **The bits of a number are those that it rounds to.** -/
theorem ofDatum_decode (hf : 2 ≤ f.exponent) {bits : Nat} (h : bits < 2 * f.signWeight)
    (hnan : f.decode bits ≠ .nan) : f.ofDatum (f.decode bits) = bits := by
  rcases decode_cases hf h with hd | ⟨negative, hd, hbits⟩ | ⟨negative, m, k, hd, hplaced, hbits⟩
  · exact absurd hd hnan
  · rw [hd, hbits]
    rfl
  · rw [hd, ofDatum_finite negative hplaced, ← hbits]

/-- Of zero only the sign is stored. -/
theorem ofDatum_zero (negative : Bool) (e : Int) :
    f.ofDatum (.finite negative 0 e) = if negative then f.signWeight else 0 := by
  simp [ofDatum, scaled, round, roundMagnitude]

theorem decode_ofDatum_infinite (negative : Bool) :
    f.decode (f.ofDatum (.infinite negative)) = .infinite negative := by
  have hpos : 0 < 2 ^ f.exponent := Nat.two_pow_pos _
  have hd := decode_fields (f := f) negative (Nat.sub_lt hpos Nat.one_pos) (Nat.two_pow_pos _)
  rw [if_pos rfl, if_pos rfl] at hd
  exact hd

/-! ## Filled up with zeros -/

/-- Zeros behind a significand are as many in the denominator of a smaller unit. -/
theorem exists_shift (m j : Nat) (e : Int) :
    ∃ k, m * 2 ^ j * 2 ^ (e - j).toNat = m * 2 ^ e.toNat * 2 ^ k ∧
      2 ^ (-(e - j)).toNat = 2 ^ (-e).toNat * 2 ^ k := by
  refine ⟨(-(e - j)).toNat - (-e).toNat, ?_, ?_⟩
  · rw [Nat.mul_assoc, Nat.mul_assoc, ← Nat.pow_add, ← Nat.pow_add]
    congr 2
    omega
  · rw [← Nat.pow_add]
    congr 1
    omega

/-- So they make no difference to what is rounded, -/
theorem ofDatum_shift (negative : Bool) (m j : Nat) (e : Int) :
    f.ofDatum (.finite negative (m * 2 ^ j) (e - j)) = f.ofDatum (.finite negative m e) := by
  obtain ⟨k, hnum, hden⟩ := exists_shift m j e
  show f.round negative _ _ = f.round negative _ _
  simp only [round]
  rw [hnum, hden, roundMagnitude_mul_two_pow _ (Nat.two_pow_pos _).ne']

/-- nor to the integer that it is. -/
theorem integer?_shift (negative : Bool) (m j : Nat) (e i : Int) :
    (Datum.finite negative (m * 2 ^ j) (e - j)).integer? = some i ↔
      (Datum.finite negative m e).integer? = some i := by
  obtain ⟨k, hnum, hden⟩ := exists_shift m j e
  have hpos : ((2 ^ k : Nat) : Int) ≠ 0 := by exact_mod_cast (Nat.two_pow_pos k).ne'
  rw [Datum.integer?_eq_some_iff, Datum.integer?_eq_some_iff, hnum, hden, Int.natCast_mul _ (2 ^ k),
    Int.natCast_mul _ (2 ^ k), ← Int.mul_assoc, ← Int.neg_mul, ← ite_mul]
  exact Int.mul_eq_mul_right_iff hpos

/-- Every number of the first format is one of the second. -/
structure Within (f g : Format) : Prop where
  exponent : 2 ≤ f.exponent
  exponent_le : f.exponent ≤ g.exponent
  fraction_le : f.fraction ≤ g.fraction
  /-- The least number, with its significand filled up, is not below the least unit. -/
  minExponent_le : g.minExponent + g.fraction ≤ f.minExponent

theorem half_within_double : half.Within double := ⟨by decide, by decide, by decide, by decide⟩

theorem single_within_double : single.Within double := ⟨by decide, by decide, by decide, by decide⟩

theorem HasInteger.of_within (h : f.Within g) {i : Int} (hi : f.HasInteger i) : g.HasInteger i := by
  obtain ⟨hlt, m, e, hm, heq⟩ := hi
  refine ⟨Nat.lt_of_lt_of_le hlt ?_, m, e, Nat.lt_of_lt_of_le hm ?_, heq⟩
  · have hle := h.exponent_le
    exact Nat.pow_le_pow_right (by decide) (Nat.pow_le_pow_right (by decide) (by omega))
  · have hle := h.fraction_le
    exact Nat.pow_le_pow_right (by decide) (by omega)

/-- In a wider format a significand is filled up to all its bits. -/
theorem exists_widened (h : f.Within g) {m k : Nat} (hm : m ≠ 0) (hplaced : f.Placed m k) :
    ∃ j k', g.fraction - f.fraction ≤ j ∧ g.Placed (m * 2 ^ j) k' ∧
      2 ^ g.fraction ≤ m * 2 ^ j ∧
      g.minExponent + (k' : Nat) = f.minExponent + (k : Nat) - (j : Nat) := by
  obtain ⟨hexponent, hle, hfraction, hmin⟩ := h
  have hlog : m.log2 ≤ f.fraction := Nat.lt_succ_iff.mp ((Nat.log2_lt hm).mpr hplaced.fits)
  have hlow : 2 ^ g.fraction ≤ m * 2 ^ (g.fraction - m.log2) := by
    calc 2 ^ g.fraction = 2 ^ m.log2 * 2 ^ (g.fraction - m.log2) := by
          rw [← Nat.pow_add]; congr 1; omega
      _ ≤ m * 2 ^ (g.fraction - m.log2) := Nat.mul_le_mul_right _ (Nat.log2_self_le hm)
  have hhigh : m * 2 ^ (g.fraction - m.log2) < 2 ^ (g.fraction + 1) := by
    calc m * 2 ^ (g.fraction - m.log2) < 2 ^ (m.log2 + 1) * 2 ^ (g.fraction - m.log2) :=
          Nat.mul_lt_mul_of_pos_right Nat.lt_log2_self (Nat.two_pow_pos _)
      _ = 2 ^ (g.fraction + 1) := by rw [← Nat.pow_add]; congr 1; omega
  -- the greatest unit is not above the greatest of the wider format
  obtain ⟨htwo, hhalf⟩ := two_pow_exponent hexponent
  obtain ⟨htwo', hhalf'⟩ := two_pow_exponent (Nat.le_trans hexponent hle)
  have hpow : 2 ^ (f.exponent - 1) ≤ 2 ^ (g.exponent - 1) :=
    Nat.pow_le_pow_right (by decide) (by omega)
  have hrange := hplaced.range
  unfold minExponent at hmin ⊢
  refine ⟨g.fraction - m.log2,
    (2 - (2 ^ (f.exponent - 1) : Nat) - f.fraction + k - (g.fraction - m.log2 : Nat) -
      (2 - (2 ^ (g.exponent - 1) : Nat) - g.fraction) : Int).toNat,
    by omega, ⟨hhigh, .inl hlow, by omega⟩, hlow, by omega⟩

/-- What a number is read as in a wider format: itself, in a smaller unit. -/
theorem decode_widened (h : f.Within g) (negative : Bool) {m k : Nat} (hm : m ≠ 0)
    (hplaced : f.Placed m k) :
    ∃ j : Nat, g.decode (g.ofDatum (.finite negative m (f.minExponent + k))) =
      .finite negative (m * 2 ^ j) (f.minExponent + k - j) := by
  obtain ⟨j, k', -, hplaced', hlow, hunit⟩ := exists_widened h hm hplaced
  refine ⟨j, ?_⟩
  rw [← ofDatum_shift negative m j, ← hunit, ofDatum_finite negative hplaced',
    decode_sum negative hlow hplaced'.fits hplaced'.range]

theorem decode_widened_zero (h : f.Within g) (negative : Bool) (e : Int) :
    g.decode (g.ofDatum (.finite negative 0 e)) = .finite negative 0 g.minExponent := by
  have hround := decode_round_zero (Nat.le_trans h.exponent h.exponent_le) negative 1
  rw [ofDatum_zero]
  rwa [round, roundMagnitude, if_pos rfl, Nat.zero_add] at hround

/-- **A number goes into a wider format and back.** -/
theorem ofDatum_widened (h : f.Within g) {bits : Nat} (hbits : bits < 2 * f.signWeight)
    (hnan : f.decode bits ≠ .nan) :
    f.ofDatum (g.decode (g.ofDatum (f.decode bits))) = bits := by
  have hsame := ofDatum_decode h.exponent hbits hnan
  rcases decode_cases h.exponent hbits with hd | ⟨negative, hd, -⟩ |
    ⟨negative, m, k, hd, hplaced, -⟩
  · exact absurd hd hnan
  · rw [hd, decode_ofDatum_infinite, ← hd, hsame]
  · rw [hd] at hsame ⊢
    by_cases hm : m = 0
    · subst hm
      rw [decode_widened_zero h, ofDatum_zero, ← hsame, ofDatum_zero]
    · obtain ⟨j, hj⟩ := decode_widened h negative hm hplaced
      rw [hj, ofDatum_shift, hsame]

/-- **In a wider format a number is an integer just if it was that integer.** -/
theorem integer?_widened (h : f.Within g) {bits : Nat} (hbits : bits < 2 * f.signWeight)
    (hfinite : (f.decode bits).isFinite = true) {i : Int} :
    (g.decode (g.ofDatum (f.decode bits))).integer? = some i ↔
      (f.decode bits).integer? = some i := by
  rcases decode_cases h.exponent hbits with hd | ⟨negative, hd, -⟩ |
    ⟨negative, m, k, hd, hplaced, -⟩
  · exact absurd hd (Datum.ne_nan_of_isFinite hfinite)
  · rw [hd] at hfinite
    exact absurd hfinite (by simp [Datum.isFinite])
  · rw [hd]
    by_cases hm : m = 0
    · subst hm
      rw [decode_widened_zero h, Datum.integer?_eq_some_iff, Datum.integer?_eq_some_iff]
      simp
    · obtain ⟨j, hj⟩ := decode_widened h negative hm hplaced
      rw [hj, integer?_shift]

/-- The zeros that numbers of 16 bits are filled up with are at least 42. -/
theorem mod_ofDatum_half {bits : Nat} (hbits : bits < 2 * half.signWeight)
    (hnan : half.decode bits ≠ .nan) : double.ofDatum (half.decode bits) % 2 ^ 32 = 0 := by
  have hsign : double.signWeight = 2 ^ 63 := by decide
  rcases decode_cases (f := half) (by decide) hbits with hd | ⟨negative, hd, -⟩ |
    ⟨negative, m, k, hd, hplaced, -⟩
  · exact absurd hd hnan
  · rw [hd]
    cases negative <;> decide
  · rw [hd]
    by_cases hm : m = 0
    · subst hm
      rw [ofDatum_zero, hsign]
      cases negative <;> decide
    · obtain ⟨j, k', hj, hplaced', -, hunit⟩ := exists_widened half_within_double hm hplaced
      obtain ⟨i, rfl⟩ := Nat.exists_eq_add_of_le (show 32 ≤ j from Nat.le_trans (by decide) hj)
      rw [← ofDatum_shift negative m (32 + i), ← hunit, ofDatum_finite negative hplaced', hsign,
        show double.fraction = 52 from rfl, Nat.pow_add, Nat.mul_left_comm]
      split <;> omega

end Format

open Format

namespace Binary64

theorem datum_ofDatum (d : Datum) : (ofDatum d).datum = double.decode (double.ofDatum d) := by
  have hlt : double.ofDatum d < 2 ^ 64 := ofDatum_lt d
  rw [datum, ofDatum, UInt64.toNat_ofNat_of_lt' hlt]

/-- What is not finite is not made so. -/
theorem isFinite_ofDatum {d : Datum} (h : d.isFinite = false) : (ofDatum d).isFinite = false := by
  rw [isFinite, datum_ofDatum]
  cases d with
  | nan => decide
  | infinite negative => rw [decode_ofDatum_infinite]; rfl
  | finite negative m e => exact absurd h (by simp [Datum.isFinite])

end Binary64

/-! ## Numbers of 32 bits -/

namespace Binary32

theorem toBinary32_toBinary64 {x : Binary32} (h : x.datum ≠ .nan) :
    x.toBinary64.toBinary32 = x := by
  have hlt : x.bits.toNat < 2 * single.signWeight := x.bits.toNat_lt
  rw [Binary64.toBinary32, toBinary64, Binary64.datum_ofDatum, datum,
    ofDatum_widened single_within_double hlt h, UInt32.ofNat_toNat]

theorem integer?_toBinary64 {x : Binary32} (h : x.isFinite = true) {i : Int} :
    x.toBinary64.integer? = some i ↔ x.datum.integer? = some i := by
  rw [Binary64.integer?, toBinary64, Binary64.datum_ofDatum]
  exact integer?_widened single_within_double x.bits.toNat_lt h

/-- **A number of 32 bits that was read is stored again**, and read as before. -/
theorem exists_narrow32? (x : Binary32) :
    ∃ y, x.toBinary64.narrow32? = some y ∧ y.toBinary64 = x.toBinary64 := by
  have hread : x.toBinary64.toBinary32.toBinary64 = x.toBinary64 := by
    by_cases hnan : x.datum = .nan
    · have hcanonical : x.toBinary64 = .ofDatum .nan := congrArg Binary64.ofDatum hnan
      rw [hcanonical]
      decide
    · rw [toBinary32_toBinary64 hnan]
  refine ⟨_, if_pos ?_, hread⟩
  cases hfinite : x.isFinite with
  | false =>
    have hwide : x.toBinary64.isFinite = false := Binary64.isFinite_ofDatum hfinite
    rw [hwide, Bool.not_false, Bool.or_true]
  | true =>
    rw [toBinary32_toBinary64 (Datum.ne_nan_of_isFinite hfinite), hfinite, Bool.true_or]

end Binary32

/-- An integer that is taken at 32 bits comes back just if it is a number there. -/
theorem Binary64.integer?_narrow32?_iff {x : Binary64} {i : Int} (hx : x.integer? = some i)
    {y : Binary32} (hy : x.narrow32? = some y) :
    y.toBinary64.integer? = some i ↔ single.HasInteger i := by
  obtain ⟨rfl, hfinite⟩ := (narrow32?_eq_some_iff (Datum.isFinite_of_integer? hx)).mp hy
  rw [Binary32.integer?_toBinary64 hfinite]
  exact ⟨hasInteger_of_decode (by decide), integer?_toBinary32 hx⟩

/-! ## Numbers of 16 bits -/

namespace Binary16

theorem toBinary16_toBinary64 {x : Binary16} (h : x.datum ≠ .nan) :
    x.toBinary64.toBinary16 = x := by
  have hlt : x.bits.toNat < 2 * half.signWeight := x.bits.toNat_lt
  have hback := ofDatum_widened half_within_double hlt h
  have hdatum : x.toBinary64.datum = double.decode (double.ofDatum x.datum) :=
    Binary64.datum_ofDatum x.datum
  have hnan : x.toBinary64.datum ≠ .nan := by
    intro hnan
    have hbits : half.ofDatum .nan = x.bits.toNat := by rw [← hback, ← hnan, hdatum, datum]
    exact h (by rw [datum, ← hbits]; decide)
  have hmod : x.toBinary64.bits.toNat % 2 ^ 32 = 0 := by
    have hwide : double.ofDatum x.datum < 2 ^ 64 := ofDatum_lt x.datum
    rw [toBinary64, Binary64.ofDatum, UInt64.toNat_ofNat_of_lt' hwide]
    exact mod_ofDatum_half hlt h
  rw [Binary64.toBinary16_eq hnan, Binary64.upperHalf_of_mod hmod, hdatum, datum, hback, UInt16.ofNat_toNat]

theorem integer?_toBinary64 {x : Binary16} (h : x.isFinite = true) {i : Int} :
    x.toBinary64.integer? = some i ↔ x.datum.integer? = some i := by
  rw [Binary64.integer?, toBinary64, Binary64.datum_ofDatum]
  exact integer?_widened half_within_double x.bits.toNat_lt h

/-- **A number of 16 bits that was read is stored again**, and read as before. -/
theorem exists_narrow16? (x : Binary16) :
    ∃ y, x.toBinary64.narrow16? = some y ∧ y.toBinary64 = x.toBinary64 := by
  have hread : x.toBinary64.toBinary16.toBinary64 = x.toBinary64 := by
    by_cases hnan : x.datum = .nan
    · have hcanonical : x.toBinary64 = .ofDatum .nan := congrArg Binary64.ofDatum hnan
      rw [hcanonical]
      decide
    · rw [toBinary16_toBinary64 hnan]
  refine ⟨_, if_pos ?_, hread⟩
  cases hfinite : x.isFinite with
  | false =>
    have hwide : x.toBinary64.isFinite = false := Binary64.isFinite_ofDatum hfinite
    rw [hwide, Bool.not_false, Bool.or_true]
  | true =>
    rw [toBinary16_toBinary64 (Datum.ne_nan_of_isFinite hfinite), hfinite, Bool.true_or]

end Binary16

/-- An integer that is taken at 16 bits comes back just if it is a number there. -/
theorem Binary64.integer?_narrow16?_iff {i : Int} (hx : (ofInt i).integer? = some i) {y : Binary16}
    (hy : (ofInt i).narrow16? = some y) :
    y.toBinary64.integer? = some i ↔ half.HasInteger i := by
  obtain ⟨rfl, hfinite⟩ := (narrow16?_eq_some_iff (Datum.isFinite_of_integer? hx)).mp hy
  rw [Binary16.integer?_toBinary64 hfinite]
  exact ⟨hasInteger_of_decode (by decide), integer?_toBinary16 hx⟩

end Ragged
