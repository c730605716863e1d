import Ragged.Proofs.Leaf.Words
import Ragged.Proofs.Number.Values

/-!
# Numbers that are stored as they are

Which integer a scalar is, if it is one, is said here by the number that its bits stand for
(`Atom.IsInteger`): a truth value is 0 or 1, a float is the rational number of its sign, exponent
and fraction, and a complex number is a real one just if the other part is one of the two zeros.

> An integer kind takes the scalars that are integers in the range of its words, and stores that
> integer. A kind of 64-bit floats takes the integers that are numbers of its format, and stores
> that number.

On the way there an integer is rounded to a float, and a float that is read as an integer is divided
by powers of two. No integer is found where there is none, and none that is there is missed.
-/

set_option autoImplicit false

namespace Ragged

namespace Atom

/-- The scalar is the integer. -/
inductive IsInteger : Atom → Int → Prop where
  | bool (b : Bool) : IsInteger (.bool b) (if b then 1 else 0)
  | int (i : Int) : IsInteger (.int i) i
  | float {x : Binary64} {i : Int} (hx : x.value? = some (i : ℚ)) : IsInteger (.float x) i
  | complex {re im : Binary64} {i : Int} (hre : re.value? = some (i : ℚ))
      (him : im.bits = 0 ∨ im.bits = 0x8000000000000000) : IsInteger (.complex re im) i

theorem integer?_eq_some_iff {a : Atom} {i : Int} : a.integer? = some i ↔ a.IsInteger i := by
  cases a with
  | bool b =>
    constructor
    · intro h
      obtain rfl := Option.some.inj h
      exact .bool b
    · rintro ⟨⟩
      rfl
  | int j =>
    constructor
    · intro h
      obtain rfl := Option.some.inj h
      exact .int j
    · rintro ⟨⟩
      rfl
  | float x =>
    rw [integer?, Binary64.integer?_eq_some_iff]
    constructor
    · exact .float
    · intro h
      cases h with
      | float hx => exact hx
  | complex re im =>
    rw [integer?, Option.ite_none_right_eq_some, Binary64.integer?_eq_some_iff, Binary64.isZero_iff]
    constructor
    · intro h
      exact .complex h.2 h.1
    · intro h
      cases h with
      | complex hre him => exact ⟨him, hre⟩
  | text s =>
    constructor
    · intro h
      exact absurd h (by simp [integer?])
    · intro h
      cases h

end Atom

/-! ## Integer kinds -/

theorem LeafType.store_scalar_iff [Machine] {k : ScalarKind} {a : Atom} {s : Scalar} :
    (LeafType.scalar k).store a = .ok s ↔ k.represent? a = some s := by
  constructor
  · exact ScalarKind.represent?_of_store
  · intro h
    simp only [store, h]

namespace ScalarKind

variable {k : ScalarKind} {signed : Bool} {bits : Nat}

/-- **An integer kind takes what is an integer in the range of its words.** -/
theorem exists_store_iff (hk : k.word? = some (signed, bits)) (a : Atom) :
    (∃ s, (LeafType.scalar k).store a = .ok s) ↔ ∃ i, a.IsInteger i ∧ InWord signed bits i := by
  obtain ⟨word, hrepresent, -⟩ := exists_word hk
  simp only [LeafType.store_scalar_iff, hrepresent, Option.map_eq_some_iff, inRange?_eq_some_iff,
    Atom.integer?_eq_some_iff, ← inWord_iff hk]
  constructor
  · rintro ⟨s, i, hi, -⟩
    exact ⟨i, hi⟩
  · rintro ⟨i, hi⟩
    exact ⟨word i, i, hi, rfl⟩

/-- **What it takes it stores as that integer**, in a word of the kind. -/
theorem load_of_isInteger (hk : k.word? = some (signed, bits)) {a : Atom} {i : Int} {s : Scalar}
    (ha : a.IsInteger i) (h : (LeafType.scalar k).store a = .ok s) :
    s.kind = k.elementKind ∧ (LeafType.scalar k).load s = .ok (.int i) := by
  refine ⟨kind_of_store h, ?_⟩
  obtain ⟨word, hrepresent, hload⟩ := exists_word hk
  rw [LeafType.store_scalar_iff, hrepresent] at h
  obtain ⟨j, hj, rfl⟩ := Option.map_eq_some_iff.mp h
  obtain ⟨hj, hlow, hhigh⟩ := inRange?_eq_some_iff.mp hj
  obtain rfl := Option.some.inj ((Atom.integer?_eq_some_iff.mpr ha).symm.trans hj)
  exact hload i hlow hhigh

end ScalarKind

/-! ## Integers among the floats -/

namespace Binary64

variable {i : Int}

/-- A float is found for the integers of the format, the one that they round to. -/
theorem ofInt?_eq_some_iff {x : Binary64} :
    ofInt? i = some x ↔ Format.double.HasInteger i ∧ ofInt i = x := by
  simp only [ofInt?, Option.ite_none_right_eq_some, Option.some.injEq]
  exact and_congr_left fun _ => ⟨hasInteger, integer?_ofInt⟩

/-- It is the integer. -/
theorem value?_of_ofInt? {x : Binary64} (h : ofInt? i = some x) : x.value? = some (i : ℚ) := by
  obtain ⟨hi, rfl⟩ := ofInt?_eq_some_iff.mp h
  exact integer?_eq_some_iff.mp (integer?_ofInt hi)

/-- **A float is found for an integer if there is one.** -/
theorem exists_ofInt?_iff : (∃ x, ofInt? i = some x) ↔ ∃ x : Binary64, x.value? = some (i : ℚ) := by
  constructor
  · rintro ⟨x, hx⟩
    exact ⟨x, value?_of_ofInt? hx⟩
  · rintro ⟨x, hx⟩
    cases h : ofInt? i with
    | some y => exact ⟨y, rfl⟩
    | none => exact absurd (integer?_eq_some_iff.mpr hx) (ofInt?_eq_none_iff.mp h x)

end Binary64

namespace LeafType

variable {i : Int}

theorem store_float64_int {s : Scalar} : (scalar .float64).store (.int i) = .ok s ↔
    ∃ x, Binary64.ofInt? i = some x ∧ .float64 x = s := by
  rw [store_scalar_iff]
  exact Option.map_eq_some_iff

/-- As a complex number an integer has no imaginary part. -/
theorem store_cfloat64_int {s : Scalar} : (scalar .cfloat64).store (.int i) = .ok s ↔
    ∃ x, Binary64.ofInt? i = some x ∧ .complex64 x .zero = s := by
  rw [store_scalar_iff]
  simp only [ScalarKind.represent?, Atom.complex?, Atom.real?, Option.map_map]
  exact Option.map_eq_some_iff

end LeafType

/-- **Integers and doubles are stored exactly, or not at all.** An integer kind takes just the
scalars that are integers in its range, and stores that integer; what it does not take is a type
error. An integer goes into a kind of 64-bit floats just if it is one of their numbers, and as that
number. -/
theorem store_exact_or_not :
    (∀ k signed bits, ScalarKind.word? k = some (signed, bits) → ∀ a,
      ((∃ s, (LeafType.scalar k).store a = .ok s) ↔ ∃ i, a.IsInteger i ∧ InWord signed bits i) ∧
      (∀ s i, (LeafType.scalar k).store a = .ok s → a.IsInteger i →
        s.kind = k.elementKind ∧ (LeafType.scalar k).load s = .ok (.int i)) ∧
      ∀ e, (LeafType.scalar k).store a = .error e → e.category = .typeUnification) ∧
    ∀ i : Int,
      ((∃ s, (LeafType.scalar .float64).store (.int i) = .ok s) ↔
        ∃ x : Binary64, x.value? = some (i : ℚ)) ∧
      (∀ s, (LeafType.scalar .float64).store (.int i) = .ok s →
        ∃ x : Binary64, s = .float64 x ∧ x.value? = some (i : ℚ)) ∧
      ((∃ s, (LeafType.scalar .cfloat64).store (.int i) = .ok s) ↔
        ∃ x : Binary64, x.value? = some (i : ℚ)) ∧
      ∀ s, (LeafType.scalar .cfloat64).store (.int i) = .ok s →
        ∃ x : Binary64, s = .complex64 x .zero ∧ x.value? = some (i : ℚ) := by
  constructor
  · intro k signed bits hk a
    exact ⟨ScalarKind.exists_store_iff hk a, fun s i h ha => ScalarKind.load_of_isInteger hk ha h,
      fun e => LeafType.category_of_store⟩
  intro i
  simp only [LeafType.store_float64_int, LeafType.store_cfloat64_int]
  refine ⟨?_, ?_, ?_, ?_⟩
  · rw [← Binary64.exists_ofInt?_iff, exists_comm]
    simp
  · rintro s ⟨x, hx, rfl⟩
    exact ⟨x, rfl, Binary64.value?_of_ofInt? hx⟩
  · rw [← Binary64.exists_ofInt?_iff, exists_comm]
    simp
  · rintro s ⟨x, hx, rfl⟩
    exact ⟨x, rfl, Binary64.value?_of_ofInt? hx⟩

/-- A complex number with a negative zero for its imaginary part is the greatest byte with a sign,
and the next integer is none. Up to the 53rd power of two all integers are floats, and the next is
none. -/
theorem store_exact_or_not_bounds :
    (Atom.complex ⟨0x405FC00000000000⟩ ⟨0x8000000000000000⟩).IsInteger 127 ∧
      (∃ s, (LeafType.scalar .int8).store (.complex ⟨0x405FC00000000000⟩ ⟨0x8000000000000000⟩) =
        .ok s ∧ s.kind = .int8 ∧ (LeafType.scalar .int8).load s = .ok (.int 127)) ∧
      (¬∃ s, (LeafType.scalar .int8).store (.int 128) = .ok s) ∧
      (Binary64.mk 0x4340000000000000).value? = some ((9007199254740992 : ℤ) : ℚ) ∧
      ¬∃ x : Binary64, x.value? = some ((9007199254740993 : ℤ) : ℚ) := by
  have hinteger : (Atom.complex ⟨0x405FC00000000000⟩ ⟨0x8000000000000000⟩).IsInteger 127 :=
    Atom.integer?_eq_some_iff.mp (by decide +kernel)
  obtain ⟨hwords, hfloats⟩ := store_exact_or_not
  obtain ⟨htakes, hkeeps, -⟩ := hwords .int8 true 8 rfl (.complex ⟨0x405FC00000000000⟩
    ⟨0x8000000000000000⟩)
  obtain ⟨hbound, -, -⟩ := hwords .int8 true 8 rfl (.int 128)
  obtain ⟨s, hs⟩ := htakes.mpr ⟨127, hinteger, by decide, by decide⟩
  refine ⟨hinteger, ⟨s, hs, hkeeps s 127 hs hinteger⟩, ?_, ?_, ?_⟩
  · intro h
    obtain ⟨i, ⟨⟩, -, hhigh⟩ := hbound.mp h
    exact absurd hhigh (by decide)
  · obtain ⟨-, hvalue, -⟩ := hfloats 9007199254740992
    obtain ⟨x, hx, hexact⟩ := hvalue (.float64 ⟨0x4340000000000000⟩) rfl
    rwa [Scalar.float64.inj hx]
  · obtain ⟨htaken, -⟩ := hfloats 9007199254740993
    rw [← htaken]
    rintro ⟨s, hs⟩
    have hnone : ((LeafType.scalar .float64).store (.int 9007199254740993)).isOk = false := rfl
    rw [hs] at hnone
    exact absurd hnone (by simp [Except.isOk, Except.toBool])

end Ragged
