import Ragged.Proofs.Leaf.Stored

/-!
# Machine words in leaves

Eight kinds of leaves hold integers, in words with or without a sign and of 8 to 64 bits. What they
take is settled by one range each, and

> an integer in the range is the integer of its word.

That is the same fact eight times, once for each kind of word, and is brought into one form here
(`ScalarKind.exists_word`).
-/

set_option autoImplicit false

namespace Ragged

open scoped Power

/-- Whether an integer is one of the words of so many bits, with or without a sign. -/
def InWord (signed : Bool) (bits : Nat) (i : Int) : Prop :=
  if signed then -(2 ^ (bits - 1) : Nat) ≤ i ∧ i < (2 ^ (bits - 1) : Nat)
  else 0 ≤ i ∧ i < (2 ^ bits : Nat)

namespace ScalarKind

variable {k : ScalarKind} {signed : Bool} {bits : Nat}

/-- The words of an integer kind: whether they have a sign, and how many bits. -/
def word? : ScalarKind → Option (Bool × Nat)
  | .int8 => some (true, 8)
  | .int16 => some (true, 16)
  | .int32 => some (true, 32)
  | .int64 => some (true, 64)
  | .uint8 => some (false, 8)
  | .uint16 => some (false, 16)
  | .uint32 => some (false, 32)
  | .uint64 => some (false, 64)
  | _ => none

theorem inWord_iff (hk : k.word? = some (signed, bits)) (i : Int) :
    InWord signed bits i ↔ k.bounds.1 ≤ i ∧ i < k.bounds.2 := by
  cases k <;> cases hk <;> exact Iff.rfl

/-- **An integer kind stores what is in its range in words, and these read as what was stored.** -/
theorem exists_word (hk : k.word? = some (signed, bits)) : ∃ word : Int → Scalar,
    (∀ a, k.represent? a = (k.inRange? a).map word) ∧
      ∀ i, k.bounds.1 ≤ i → i < k.bounds.2 → (LeafType.scalar k).load (word i) = .ok (.int i) := by
  cases k <;> cases hk
  case int8 =>
    refine ⟨_, fun _ => rfl, fun i hlow hhigh => ?_⟩
    rw [LeafType.load, Int8.toInt_ofInt_of_le hlow hhigh]
  case int16 =>
    refine ⟨_, fun _ => rfl, fun i hlow hhigh => ?_⟩
    rw [LeafType.load, Int16.toInt_ofInt_of_le hlow hhigh]
  case int32 =>
    refine ⟨_, fun _ => rfl, fun i hlow hhigh => ?_⟩
    rw [LeafType.load, Int32.toInt_ofInt_of_le hlow hhigh]
  case int64 =>
    refine ⟨_, fun _ => rfl, fun i hlow hhigh => ?_⟩
    rw [LeafType.load, Int64.toInt_ofInt_of_le hlow hhigh]
  case uint8 =>
    refine ⟨_, fun _ => rfl, fun i hlow hhigh => ?_⟩
    have hlt : i.toNat < 0x100 := (Int.toNat_lt hlow).mpr hhigh
    rw [LeafType.load, UInt8.toNat_ofNat_of_lt' hlt, Int.toNat_of_nonneg hlow]
  case uint16 =>
    refine ⟨_, fun _ => rfl, fun i hlow hhigh => ?_⟩
    have hlt : i.toNat < 0x10000 := (Int.toNat_lt hlow).mpr hhigh
    rw [LeafType.load, UInt16.toNat_ofNat_of_lt' hlt, Int.toNat_of_nonneg hlow]
  case uint32 =>
    refine ⟨_, fun _ => rfl, fun i hlow hhigh => ?_⟩
    have hlt : i.toNat < 0x100000000 := (Int.toNat_lt hlow).mpr hhigh
    rw [LeafType.load, UInt32.toNat_ofNat_of_lt' hlt, Int.toNat_of_nonneg hlow]
  case uint64 =>
    refine ⟨_, fun _ => rfl, fun i hlow hhigh => ?_⟩
    have hlt : i.toNat < 0x10000000000000000 := (Int.toNat_lt hlow).mpr hhigh
    rw [LeafType.load, UInt64.toNat_ofNat_of_lt' hlt, Int.toNat_of_nonneg hlow]

theorem inRange?_eq_some_iff {a : Atom} {i : Int} :
    k.inRange? a = some i ↔ a.integer? = some i ∧ k.bounds.1 ≤ i ∧ i < k.bounds.2 := by
  unfold inRange?
  cases a.integer? with
  | none => simp
  | some j =>
    simp only [Option.ite_none_right_eq_some, Option.some.injEq]
    constructor
    · rintro ⟨hbounds, rfl⟩
      exact ⟨rfl, hbounds⟩
    · rintro ⟨rfl, hbounds⟩
      exact ⟨hbounds, rfl⟩

end ScalarKind

end Ragged
