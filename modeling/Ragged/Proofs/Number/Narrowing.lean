import Ragged.Leaf.Convert
import Ragged.Proofs.Number.Overflow

/-!
# Integers from one format to another

A float goes into another format by being decoded, and rounded there. What rounds to an integer of
that format is all that matters:

> a number that is an integer is the same integer in every format that has it, and stays finite in
> every format that does not end below it.

So an integer comes through 32 bits and back if it is one of the numbers of 32 bits. It does so
through 16 bits too, although the lower half of the bits is cleared first: an integer that is not
beyond 16 bits has its significant bits in the upper half, and one that is beyond stays so.
-/

set_option autoImplicit false

namespace Ragged

/-- The sign of a number that is an integer other than zero is that of the integer. -/
theorem Datum.negative_of_integer? {negative : Bool} {m : Nat} {e i : Int}
    (h : (finite negative m e).integer? = some i) (hi : i ≠ 0) : negative = decide (i < 0) := by
  have h := integer?_eq_some_iff.mp h
  have hpos : (0 : Int) < ((2 ^ (-e).toNat : Nat) : Int) := by exact_mod_cast Nat.two_pow_pos _
  generalize ((2 ^ (-e).toNat : Nat) : Int) = p at h hpos
  rcases Int.lt_or_gt_of_ne hi with hneg | hneg
  · have hprod := Int.mul_neg_of_neg_of_pos hneg hpos
    cases negative with
    | false => exact absurd h (by simp only [Bool.false_eq_true, if_false]; omega)
    | true => simp [hneg]
  · have hprod := Int.mul_pos hneg hpos
    cases negative with
    | false => simp [Int.le_of_lt hneg]
    | true => exact absurd h (by simp only [if_true]; omega)

theorem Datum.ne_nan_of_isFinite {d : Datum} (h : d.isFinite = true) : d ≠ .nan := by
  rintro rfl
  exact absurd h (by simp [isFinite])

theorem Datum.isFinite_of_integer? {d : Datum} {i : Int} (h : d.integer? = some i) :
    d.isFinite = true := by
  obtain ⟨negative, m, e, rfl⟩ := exists_of_integer? h
  rfl

namespace Format

variable {f : Format}

/-- A number that is an integer is rounded as the integer is. -/
theorem roundMagnitude_of_integer? {negative : Bool} {m : Nat} {e i : Int}
    (h : (Datum.finite negative m e).integer? = some i) :
    f.roundMagnitude (scaled m e).1 (scaled m e).2 = f.roundMagnitude i.natAbs 1 := by
  have hcancel := roundMagnitude_mul_two_pow (f := f) i.natAbs Nat.one_ne_zero (-e).toNat
  rw [Nat.one_mul, Datum.natAbs_of_integer? h] at hcancel
  exact hcancel

/-- **A number that is an integer keeps it in every format that has the integer.** -/
theorem integer?_ofDatum (hf : 2 ≤ f.exponent) {d : Datum} {i : Int} (hd : d.integer? = some i)
    (h : f.HasInteger i) : (f.decode (f.ofDatum d)).integer? = some i := by
  obtain ⟨negative, m, e, rfl⟩ := Datum.exists_of_integer? hd
  show (f.decode (f.round negative (scaled m e).1 (scaled m e).2)).integer? = some i
  by_cases hi : i = 0
  · subst hi
    have hm : (scaled m e).1 = 0 := by
      rw [scaled, ← Datum.natAbs_of_integer? hd, Int.natAbs_zero, Nat.zero_mul]
    rw [hm, decode_round_zero hf, Datum.integer?_eq_some_iff]
    simp
  · rw [round, roundMagnitude_of_integer? hd, Datum.negative_of_integer? hd hi]
    exact integer?_round hf h

/-- **It stays finite just if it is not beyond the format**, be it a number there or not. -/
theorem isFinite_ofDatum_iff (hf : 2 ≤ f.exponent)
    (hfraction : f.fraction + 2 ≤ 2 ^ (f.exponent - 1)) {d : Datum} {i : Int}
    (hd : d.integer? = some i) :
    (f.decode (f.ofDatum d)).isFinite = true ↔ i.natAbs < f.overflow := by
  obtain ⟨negative, m, e, rfl⟩ := Datum.exists_of_integer? hd
  show (f.decode (f.round negative (scaled m e).1 (scaled m e).2)).isFinite = true ↔ _
  rw [isFinite_decode_round, roundMagnitude_of_integer? hd, ← Nat.not_le,
    infinity_le_roundMagnitude_iff hf hfraction, Nat.not_le]

/-- The numbers of a format are not beyond it. -/
theorem HasInteger.natAbs_lt (hf : 2 ≤ f.exponent)
    (hfraction : f.fraction + 2 ≤ 2 ^ (f.exponent - 1)) {i : Int} (h : f.HasInteger i) :
    i.natAbs < f.overflow := by
  have hbits := integer?_round hf h
  exact (isFinite_ofDatum_iff hf hfraction hbits).mp
    (Datum.isFinite_of_integer? (integer?_ofDatum hf hbits h))

/-- The bits of a number are as many as the format has. -/
theorem ofDatum_lt (d : Datum) : f.ofDatum d < 2 * f.signWeight := by
  have hpos : 0 < 2 ^ f.fraction := Nat.two_pow_pos _
  have hlast : 2 ^ (f.fraction - 1) ≤ 2 ^ f.fraction := Nat.pow_le_pow_right (by decide) (by omega)
  have hweight : f.signWeight = f.infinity + 2 ^ f.fraction := by
    rw [infinity, signWeight, ← Nat.succ_mul, Nat.succ_eq_add_one,
      Nat.sub_add_cancel (Nat.two_pow_pos _), Nat.add_comm f.fraction, Nat.pow_add]
  cases d with
  | nan =>
    show f.infinity + 2 ^ (f.fraction - 1) < _
    omega
  | infinite negative =>
    show (f.infinity + if negative then f.signWeight else 0) < _
    split <;> omega
  | finite negative m e => exact round_lt _ _ _

end Format

open Format

namespace Binary64

variable {x : Binary64} {i : Int}

/-- A finite number is brought into fewer bits if it stays finite there. -/
theorem narrowed_eq_some_iff {α : Type} {y z : α} {isFinite : α → Bool} (hx : x.isFinite = true) :
    (if isFinite y || !x.isFinite then some y else none) = some z ↔
      y = z ∧ isFinite z = true := by
  rw [hx, Bool.not_true, Bool.or_false, Option.ite_none_right_eq_some, Option.some.injEq]
  constructor
  · rintro ⟨hfinite, rfl⟩
    exact ⟨rfl, hfinite⟩
  · rintro ⟨rfl, hfinite⟩
    exact ⟨hfinite, rfl⟩

/-! ## To 32 bits -/

theorem datum_toBinary32 (x : Binary64) :
    x.toBinary32.datum = single.decode (single.ofDatum x.datum) := by
  have hlt : single.ofDatum x.datum < 2 ^ 32 := ofDatum_lt x.datum
  rw [Binary32.datum, toBinary32, UInt32.toNat_ofNat_of_lt' hlt]

theorem integer?_toBinary32 (hx : x.integer? = some i) (h : single.HasInteger i) :
    x.toBinary32.datum.integer? = some i := by
  rw [datum_toBinary32]
  exact Format.integer?_ofDatum (by decide) hx h

theorem narrow32?_eq_some_iff (hx : x.isFinite = true) {y : Binary32} :
    x.narrow32? = some y ↔ x.toBinary32 = y ∧ y.isFinite = true :=
  narrowed_eq_some_iff hx

/-- **An integer is taken at 32 bits unless it is beyond them.** -/
theorem exists_narrow32?_iff (hx : x.integer? = some i) :
    (∃ y, x.narrow32? = some y) ↔ i.natAbs < single.overflow := by
  simp only [narrow32?_eq_some_iff (Datum.isFinite_of_integer? hx), exists_eq_left']
  rw [Binary32.isFinite, datum_toBinary32]
  exact isFinite_ofDatum_iff (by decide) (by decide) hx

/-! ## To 16 bits -/

/-- The bits of an integer that is a float: its power of two, its significand and its sign. -/
theorem toNat_bits_ofInt {q : Nat} (hrange : i.natAbs.log2 < 2 ^ 10) (hlow : 2 ^ 52 ≤ q)
    (hhigh : q < 2 ^ 53)
    (hq : i.natAbs * 2 ^ (52 - i.natAbs.log2) = q * 2 ^ (i.natAbs.log2 - 52)) :
    (ofInt i).bits.toNat = (i.natAbs.log2 + 2 ^ 10 - 2) * 2 ^ 52 + q +
      if decide (i < 0) then double.signWeight else 0 := by
  have hlt := round_lt (f := double) (decide (i < 0)) i.natAbs 1
  have hofInt : (ofInt i).bits.toNat = double.round (decide (i < 0)) i.natAbs 1 :=
    UInt64.toNat_ofNat_of_lt' hlt
  rw [hofInt, Format.round, roundMagnitude_of_exact (f := double) (by decide) hrange hlow hhigh hq]
  rfl

/-- An integer of few bits has nothing in the lower half of the bits of its float. -/
theorem mod_bits_ofInt (h : i.natAbs < 2 ^ 20) : (ofInt i).bits.toNat % 2 ^ 32 = 0 := by
  by_cases hi : i = 0
  · subst hi
    decide
  have hn : i.natAbs ≠ 0 := by omega
  have hlog : i.natAbs.log2 < 20 := (Nat.log2_lt hn).mpr h
  have hself : 2 ^ i.natAbs.log2 ≤ i.natAbs := Nat.log2_self_le hn
  have hlt : i.natAbs < 2 ^ (i.natAbs.log2 + 1) := Nat.lt_log2_self
  -- the significand is the integer and zeros behind it, more than half of all bits
  have hbits := @toNat_bits_ofInt i (i.natAbs * 2 ^ (52 - i.natAbs.log2)) (by omega)
    (by
      calc 2 ^ 52 = 2 ^ i.natAbs.log2 * 2 ^ (52 - i.natAbs.log2) := by
            rw [← Nat.pow_add]; congr 1; omega
        _ ≤ i.natAbs * 2 ^ (52 - i.natAbs.log2) := Nat.mul_le_mul_right _ hself)
    (by
      calc i.natAbs * 2 ^ (52 - i.natAbs.log2)
          < 2 ^ (i.natAbs.log2 + 1) * 2 ^ (52 - i.natAbs.log2) :=
            Nat.mul_lt_mul_of_pos_right hlt (Nat.two_pow_pos _)
        _ = 2 ^ 53 := by rw [← Nat.pow_add]; congr 1; omega)
    (by rw [show i.natAbs.log2 - 52 = 0 by omega, Nat.pow_zero, Nat.mul_one])
  have hzeros : i.natAbs * 2 ^ (52 - i.natAbs.log2) =
      i.natAbs * 2 ^ (20 - i.natAbs.log2) * 2 ^ 32 := by
    rw [Nat.mul_assoc, ← Nat.pow_add]
    congr 2
    omega
  have hsign : double.signWeight = 2 ^ 63 := by decide
  rw [hbits, hzeros]
  split <;> omega

/-- Clearing the lower half of the bits leaves a multiple of its size. -/
theorem toNat_upperHalf (bits : UInt64) :
    (bits &&& 0xFFFFFFFF00000000).toNat = bits.toNat / 2 ^ 32 * 2 ^ 32 := by
  have hmask : (0xFFFFFFFF00000000 : UInt64).toNat = (2 ^ 32 - 1) <<< 32 := by decide
  have hlt : bits.toNat < 2 ^ 64 := bits.toNat_lt
  have hupper : bits.toNat &&& (2 ^ 32 - 1) <<< 32 =
      ((bits.toNat >>> 32) &&& (2 ^ 32 - 1)) <<< 32 := by
    refine Nat.eq_of_testBit_eq fun k => ?_
    simp only [Nat.testBit_and, Nat.testBit_shiftLeft, Nat.testBit_shiftRight]
    by_cases hk : 32 ≤ k
    · rw [Nat.add_sub_cancel' hk]
      simp [hk]
    · simp [hk]
  rw [UInt64.toNat_and, hmask, hupper, Nat.shiftRight_eq_div_pow,
    Nat.and_two_pow_sub_one_of_lt_two_pow (by omega), Nat.shiftLeft_eq]

/-- What is left of a number when the lower half of its bits is cleared. -/
def upperHalf (x : Binary64) : Binary64 := ⟨x.bits &&& 0xFFFFFFFF00000000⟩

theorem upperHalf_of_mod (h : x.bits.toNat % 2 ^ 32 = 0) : x.upperHalf = x := by
  have hbits : x.bits &&& 0xFFFFFFFF00000000 = x.bits := by
    apply UInt64.toNat_inj.mp
    rw [toNat_upperHalf]
    omega
  rw [upperHalf, hbits]

theorem toBinary16_eq (hx : x.datum ≠ .nan) :
    x.toBinary16 = ⟨UInt16.ofNat (half.ofDatum x.upperHalf.datum)⟩ := by
  cases hd : x.datum with
  | nan => exact absurd hd hx
  | _ => simp only [toBinary16, hd, upperHalf]

/-- What is left of an integer is an integer, and the same one or beyond 16 bits as that was. -/
theorem exists_upperHalf (hx : (ofInt i).integer? = some i) :
    ∃ j, (ofInt i).upperHalf.integer? = some j ∧
      (j = i ∨ 2 ^ 20 ≤ i.natAbs ∧ 2 ^ 20 ≤ j.natAbs) := by
  rcases Nat.lt_or_ge i.natAbs (2 ^ 20) with hsmall | hlarge
  · refine ⟨i, ?_, .inl rfl⟩
    rwa [upperHalf_of_mod (mod_bits_ofInt hsmall)]
  have hn : i.natAbs ≠ 0 := by omega
  have hlog : 20 ≤ i.natAbs.log2 := (Nat.le_log2 hn).mpr hlarge
  obtain ⟨negative, m, e, hd⟩ := Datum.exists_of_integer? hx
  obtain ⟨hm, he⟩ := decode_bounds (f := double) (by decide) hd
  rw [integer?, hd] at hx
  obtain ⟨hrange, q, hlow, hhigh, hq⟩ := exists_significand hn hm (Datum.natAbs_of_integer? hx)
  simp only [double] at he hrange hlow hhigh hq
  have hbits := toNat_bits_ofInt (by omega) hlow hhigh hq
  have hsign : double.signWeight = 2 ^ 63 := by decide
  have hupper : (ofInt i).upperHalf.bits.toNat =
      (i.natAbs.log2 + 2 ^ 10 - 2) * 2 ^ 52 + q / 2 ^ 32 * 2 ^ 32 +
        if decide (i < 0) then double.signWeight else 0 := by
    rw [upperHalf, toNat_upperHalf, hbits]
    split <;> omega
  have hunit : double.minExponent + (i.natAbs.log2 + 2 ^ 10 - 2 : Nat) =
      (i.natAbs.log2 : Int) - 52 := by
    rw [show double.minExponent = -1074 by decide]
    omega
  have hdatum : (ofInt i).upperHalf.datum =
      .finite (decide (i < 0)) (q / 2 ^ 32 * 2 ^ 32) ((i.natAbs.log2 : Int) - 52) := by
    rw [datum, hupper, ← hunit]
    refine decode_sum (f := double) _ ?_ ?_ ?_
    all_goals simp only [double]
    all_goals omega
  -- what is left of the significand is a multiple of a power of two that no fraction is left of
  have hleft : q / 2 ^ 32 * 2 ^ (i.natAbs.log2 - 20) * 2 ^ (52 - i.natAbs.log2) =
      q / 2 ^ 32 * 2 ^ 32 * 2 ^ (i.natAbs.log2 - 52) := by
    rw [Nat.mul_assoc, Nat.mul_assoc, ← Nat.pow_add, ← Nat.pow_add,
      show i.natAbs.log2 - 20 + (52 - i.natAbs.log2) = 32 + (i.natAbs.log2 - 52) by omega]
  have hbeyond : 2 ^ 20 ≤ q / 2 ^ 32 * 2 ^ (i.natAbs.log2 - 20) :=
    calc 2 ^ 20 ≤ q / 2 ^ 32 := by omega
      _ ≤ q / 2 ^ 32 * 2 ^ (i.natAbs.log2 - 20) := Nat.le_mul_of_pos_right _ (Nat.two_pow_pos _)
  have hdown : (-((i.natAbs.log2 : Int) - 52)).toNat = 52 - i.natAbs.log2 := by omega
  have hup : ((i.natAbs.log2 : Int) - 52).toNat = i.natAbs.log2 - 52 := by omega
  rw [← hdown, ← hup] at hleft
  rw [integer?, hdatum]
  generalize q / 2 ^ 32 * 2 ^ (i.natAbs.log2 - 20) = n at hleft hbeyond
  have hpos : 0 < n := by omega
  have hnegative : decide (i < 0) = decide ((if i < 0 then -n else n : Int) < 0) :=
    decide_eq_decide.mpr (by split <;> omega)
  have habs : (if i < 0 then -n else n : Int).natAbs = n := by split <;> omega
  refine ⟨if i < 0 then -n else n, ?_, .inr ⟨hlarge, habs.symm ▸ hbeyond⟩⟩
  rw [hnegative]
  exact Datum.integer?_of_natAbs (habs.symm ▸ hleft)

theorem datum_toBinary16 (hx : x.datum ≠ .nan) :
    x.toBinary16.datum = half.decode (half.ofDatum x.upperHalf.datum) := by
  have hlt : half.ofDatum x.upperHalf.datum < 2 ^ 16 := ofDatum_lt _
  rw [toBinary16_eq hx, Binary16.datum, UInt16.toNat_ofNat_of_lt' hlt]

theorem integer?_toBinary16 (hx : (ofInt i).integer? = some i) (h : half.HasInteger i) :
    (ofInt i).toBinary16.datum.integer? = some i := by
  rw [datum_toBinary16 (Datum.ne_nan_of_isFinite (Datum.isFinite_of_integer? hx))]
  obtain ⟨j, hj, rfl | ⟨hlarge, -⟩⟩ := exists_upperHalf hx
  · exact Format.integer?_ofDatum (by decide) hj h
  · have hsmall := h.natAbs_lt (by decide) (by decide)
    have hoverflow : half.overflow = 65520 := by decide
    omega

theorem narrow16?_eq_some_iff (hx : x.isFinite = true) {y : Binary16} :
    x.narrow16? = some y ↔ x.toBinary16 = y ∧ y.isFinite = true :=
  narrowed_eq_some_iff hx

/-- **An integer is taken at 16 bits unless it is beyond them.** -/
theorem exists_narrow16?_iff (hx : (ofInt i).integer? = some i) :
    (∃ y, (ofInt i).narrow16? = some y) ↔ i.natAbs < half.overflow := by
  have hfinite := Datum.isFinite_of_integer? hx
  have hoverflow : half.overflow = 65520 := by decide
  simp only [narrow16?_eq_some_iff hfinite, exists_eq_left']
  rw [Binary16.isFinite, datum_toBinary16 (Datum.ne_nan_of_isFinite hfinite)]
  obtain ⟨j, hj, hsame⟩ := exists_upperHalf hx
  rw [isFinite_ofDatum_iff (by decide) (by decide) hj]
  rcases hsame with rfl | ⟨hlarge, hlarge'⟩
  · exact Iff.rfl
  · omega

end Binary64

end Ragged
