import Ragged.Proofs.Leaf.Exact
import Ragged.Proofs.Leaf.FixedWidth

/-!
# What comes back from a leaf

Of truth values, integers and texts nothing may be lost. Which of them a leaf has a value for is said
here by the values alone (`LeafType.Represents`): an integer is in the range of the words of a kind,
or its significant bits are no more than a format of floats has; a text has only characters of the
encoding and no more code units than the width.

> A leaf stores what it has a value for, and that comes back as it was. What it has no value for is
> refused, but for two sorts of scalars, and these come back as something else.

These are `LeafType.Alters`: an integer that is a float of 64 bits is rounded to fewer bits, and the
zeros at the end of a text are dropped along with those that fill it up to a fixed width.
-/

set_option autoImplicit false

namespace Ragged

open Format

/-! ## Scalars and values -/

namespace Atom

/-- Truth values, integers and texts. -/
def isExact : Atom → Bool
  | .bool _ | .int _ | .text _ => true
  | .float _ | .complex _ _ => false

/-- Whether a scalar is the same text as another or the same integer, truth values being 0 and 1. -/
def Denotes (b : Atom) : Atom → Prop
  | .text s => b = .text s
  | a => ∃ i, a.IsInteger i ∧ b.IsInteger i

end Atom

namespace ScalarKind

/-- The format of a kind of floats, or of the parts of complex numbers. -/
def format? : ScalarKind → Option Format
  | .float16 => some half
  | .float32 | .cfloat32 => some single
  | .float64 | .cfloat64 => some double
  | _ => none

/-- Whether an integer is one of the values of a kind. -/
inductive HasInteger (k : ScalarKind) (i : Int) : Prop where
  | bool (hk : k = .bool) (hi : i = 0 ∨ i = 1)
  | word {signed : Bool} {bits : Nat} (hk : k.word? = some (signed, bits)) (hi : InWord signed bits i)
  | float {f : Format} (hk : k.format? = some f) (hi : f.HasInteger i)

/-- Whether an integer is a float of 64 bits and none of the kind, and rounds to a finite one. -/
def Rounds (k : ScalarKind) (i : Int) : Prop :=
  ∃ f, k.format? = some f ∧ double.HasInteger i ∧ ¬f.HasInteger i ∧ i.natAbs < f.overflow

end ScalarKind

namespace StringType

/-- Whether a text has only characters of the encoding, and no more code units than a fixed width. -/
structure HasRoom (t : StringType) (text : String) : Prop where
  characters : t.encoding = .ascii → ∀ c ∈ text.toList, c.toNat < 128
  units : ∀ width, t.width = some width → t.encoding.unitCount text ≤ width

/-- Whether a text ends in a zero, which at a fixed width is not told from those that fill up. -/
def Trims (t : StringType) (text : String) : Prop :=
  t.width ≠ none ∧ text.toList.getLast? = some '\x00'

end StringType

namespace LeafType

/-- Whether one of the values of the leaf is the scalar, exactly. -/
inductive Represents : LeafType → Atom → Prop where
  | integer {k : ScalarKind} {a : Atom} {i : Int} (ha : a.IsInteger i) (hi : k.HasInteger i) :
    Represents (.scalar k) a
  | text {t : StringType} {s : String} (hroom : t.HasRoom s) (hend : ¬t.Trims s) :
    Represents (.string t) (.text s)

/-- Whether the leaf takes the scalar for another, which it has a value for. -/
inductive Alters : LeafType → Atom → Prop where
  | rounded {k : ScalarKind} {i : Int} (hi : k.Rounds i) : Alters (.scalar k) (.int i)
  | trimmed {t : StringType} {s : String} (hroom : t.HasRoom s) (hend : t.Trims s) :
    Alters (.string t) (.text s)

end LeafType

/-! ## Floats -/

/-! The imaginary part of a real number is zero, and stays so. -/

theorem Binary64.isZero_zero : zero.isZero = true := by decide +kernel

theorem Binary64.narrow32?_zero : narrow32? .zero = some ⟨0⟩ := by decide

theorem Binary32.isZero_zero : (Binary32.mk 0).toBinary64.isZero = true := by decide +kernel

namespace ScalarKind

variable {k : ScalarKind} {f : Format} {i : Int}

/-- **A kind of floats takes the integers that are floats of 64 bits and not beyond its format**, and
these come back if they are among its numbers. -/
theorem exists_float (hk : k.format? = some f) : ∃ narrow : Binary64 → Option Scalar,
    (∀ i, k.represent? (.int i) = (Binary64.ofInt? i).bind narrow) ∧
      ∀ i, double.HasInteger i →
        ((∃ s, narrow (.ofInt i) = some s) ↔ i.natAbs < f.overflow) ∧
          ∀ s, narrow (.ofInt i) = some s →
            ∃ b, (LeafType.scalar k).load s = .ok b ∧ (b.IsInteger i ↔ f.HasInteger i) := by
  cases k <;> cases hk
  case float16 =>
    refine ⟨fun x => x.narrow16?.map .float16, fun i => ?_, fun i hi => ?_⟩
    · simp only [represent?, Atom.real?, Option.map_bind]
      rfl
    have hx := Binary64.integer?_ofInt hi
    refine ⟨?_, fun s hs => ?_⟩
    · rw [← Option.isSome_iff_exists, Option.isSome_map, Option.isSome_iff_exists]
      exact Binary64.exists_narrow16?_iff hx
    · obtain ⟨y, hy, rfl⟩ := Option.map_eq_some_iff.mp hs
      refine ⟨_, rfl, ?_⟩
      rw [← Atom.integer?_eq_some_iff]
      exact Binary64.integer?_narrow16?_iff hx hy
  case float32 =>
    refine ⟨fun x => x.narrow32?.map .float32, fun i => ?_, fun i hi => ?_⟩
    · simp only [represent?, Atom.real?, Option.map_bind]
      rfl
    have hx := Binary64.integer?_ofInt hi
    refine ⟨?_, fun s hs => ?_⟩
    · rw [← Option.isSome_iff_exists, Option.isSome_map, Option.isSome_iff_exists]
      exact Binary64.exists_narrow32?_iff hx
    · obtain ⟨y, hy, rfl⟩ := Option.map_eq_some_iff.mp hs
      refine ⟨_, rfl, ?_⟩
      rw [← Atom.integer?_eq_some_iff]
      exact Binary64.integer?_narrow32?_iff hx hy
  case float64 =>
    refine ⟨fun x => some (.float64 x), fun i => ?_, fun i hi => ?_⟩
    · simp only [represent?, Atom.real?]
      cases Binary64.ofInt? i <;> rfl
    refine ⟨iff_of_true ⟨_, rfl⟩ (hi.natAbs_lt (by decide) (by decide)), ?_⟩
    rintro _ ⟨⟩
    refine ⟨_, rfl, iff_of_true ?_ hi⟩
    rw [← Atom.integer?_eq_some_iff]
    exact Binary64.integer?_ofInt hi
  case cfloat32 =>
    refine ⟨fun x => x.narrow32?.map (.complex32 · ⟨0⟩), fun i => ?_, fun i hi => ?_⟩
    · simp only [represent?, Atom.complex?, Atom.real?]
      cases Binary64.ofInt? i with
      | none => rfl
      | some x =>
        simp only [Option.map_some, Option.bind_some, Binary64.narrow32?_zero]
        cases x.narrow32? <;> rfl
    have hx := Binary64.integer?_ofInt hi
    refine ⟨?_, fun s hs => ?_⟩
    · rw [← Option.isSome_iff_exists, Option.isSome_map, Option.isSome_iff_exists]
      exact Binary64.exists_narrow32?_iff hx
    · obtain ⟨y, hy, rfl⟩ := Option.map_eq_some_iff.mp hs
      refine ⟨_, rfl, ?_⟩
      rw [← Atom.integer?_eq_some_iff, Atom.integer?, if_pos Binary32.isZero_zero]
      exact Binary64.integer?_narrow32?_iff hx hy
  case cfloat64 =>
    refine ⟨fun x => some (.complex64 x .zero), fun i => ?_, fun i hi => ?_⟩
    · simp only [represent?, Atom.complex?, Atom.real?]
      cases Binary64.ofInt? i <;> rfl
    refine ⟨iff_of_true ⟨_, rfl⟩ (hi.natAbs_lt (by decide) (by decide)), ?_⟩
    rintro _ ⟨⟩
    refine ⟨_, rfl, iff_of_true ?_ hi⟩
    rw [← Atom.integer?_eq_some_iff, Atom.integer?, if_pos Binary64.isZero_zero]
    exact Binary64.integer?_ofInt hi

/-! ## All kinds -/

theorem cases_kind (k : ScalarKind) :
    k = .bool ∨ (∃ signed bits, k.word? = some (signed, bits)) ∨ ∃ f, k.format? = some f := by
  cases k with
  | bool => exact .inl rfl
  | int8 | int16 | int32 | int64 | uint8 | uint16 | uint32 | uint64 => exact .inr (.inl ⟨_, _, rfl⟩)
  | float16 | float32 | float64 | cfloat32 | cfloat64 => exact .inr (.inr ⟨_, rfl⟩)

/-! A kind has values of one sort. -/

theorem hasInteger_bool_iff : HasInteger .bool i ↔ i = 0 ∨ i = 1 := by
  constructor
  · intro h
    cases h with
    | bool _ hi => exact hi
    | word hk | float hk => cases hk
  · exact .bool rfl

theorem hasInteger_word_iff {signed : Bool} {bits : Nat} (hk : k.word? = some (signed, bits)) :
    k.HasInteger i ↔ InWord signed bits i := by
  constructor
  · intro h
    cases h with
    | bool hbool => exact absurd hk (by simp [hbool, word?])
    | word hk' hi =>
      obtain ⟨rfl, rfl⟩ := Prod.mk.inj (Option.some.inj (hk.symm.trans hk'))
      exact hi
    | float hfloat => cases k <;> cases hk <;> cases hfloat
  · exact .word hk

theorem hasInteger_float_iff (hk : k.format? = some f) : k.HasInteger i ↔ f.HasInteger i := by
  constructor
  · intro h
    cases h with
    | bool hbool => exact absurd hk (by simp [hbool, format?])
    | word hword => cases k <;> cases hk <;> cases hword
    | float hk' hi =>
      obtain rfl := Option.some.inj (hk.symm.trans hk')
      exact hi
  · exact .float hk

/-- Only floats are rounded. -/
theorem not_rounds (hk : k.format? = none) : ¬k.Rounds i := by
  rintro ⟨f, hf, -⟩
  exact absurd hf (by simp [hk])

/-- The integers of every format are floats of 64 bits, and not beyond it. -/
theorem double_of_hasInteger (hk : k.format? = some f) (hi : f.HasInteger i) :
    double.HasInteger i ∧ i.natAbs < f.overflow := by
  cases k <;> cases hk
  case float16 => exact ⟨hi.of_within half_within_double, hi.natAbs_lt (by decide) (by decide)⟩
  case float32 | cfloat32 =>
    exact ⟨hi.of_within single_within_double, hi.natAbs_lt (by decide) (by decide)⟩
  case float64 | cfloat64 => exact ⟨hi, hi.natAbs_lt (by decide) (by decide)⟩

/-- What a kind of floats has or rounds are the floats of 64 bits that are not beyond its format. -/
theorem hasInteger_or_rounds_iff (hk : k.format? = some f) :
    k.HasInteger i ∨ k.Rounds i ↔ double.HasInteger i ∧ i.natAbs < f.overflow := by
  rw [hasInteger_float_iff hk]
  constructor
  · rintro (hi | ⟨f', hf', hdouble, -, hlt⟩)
    · exact double_of_hasInteger hk hi
    · obtain rfl := Option.some.inj (hk.symm.trans hf')
      exact ⟨hdouble, hlt⟩
  · rintro ⟨hdouble, hlt⟩
    by_cases hi : f.HasInteger i
    · exact .inl hi
    · exact .inr ⟨f, hk, hdouble, hi, hlt⟩

/-- **What a kind takes** of the integers is what it has, and what it rounds. -/
theorem exists_represent?_int_iff :
    (∃ s, k.represent? (.int i) = some s) ↔ k.HasInteger i ∨ k.Rounds i := by
  rcases k.cases_kind with rfl | ⟨signed, bits, hk⟩ | ⟨f, hk⟩
  · rw [or_iff_left (not_rounds rfl), hasInteger_bool_iff]
    constructor
    · rintro ⟨s, hs⟩
      simp only [represent?] at hs
      split at hs <;> simp_all
    · rintro (rfl | rfl) <;> exact ⟨_, rfl⟩
  · have hnone : k.format? = none := by cases k <;> cases hk <;> rfl
    obtain ⟨word, hrepresent, -⟩ := exists_word hk
    rw [or_iff_left (not_rounds hnone), hasInteger_word_iff hk, inWord_iff hk, hrepresent,
      ← Option.isSome_iff_exists, Option.isSome_map, Option.isSome_iff_exists]
    simp only [inRange?_eq_some_iff, Atom.integer?, Option.some.injEq, exists_eq_left']
  · obtain ⟨narrow, hrepresent, hnarrow⟩ := exists_float hk
    simp only [hasInteger_or_rounds_iff hk, hrepresent, Option.bind_eq_some_iff,
      Binary64.ofInt?_eq_some_iff]
    constructor
    · rintro ⟨s, x, ⟨hi, rfl⟩, hs⟩
      exact ⟨hi, (hnarrow i hi).1.mp ⟨s, hs⟩⟩
    · rintro ⟨hi, hlt⟩
      obtain ⟨s, hs⟩ := (hnarrow i hi).1.mpr hlt
      exact ⟨s, _, ⟨hi, rfl⟩, hs⟩

/-- **What comes back** is the integer just if the kind has it. -/
theorem load_of_represent?_int {s : Scalar} (h : k.represent? (.int i) = some s) :
    ∃ b, (LeafType.scalar k).load s = .ok b ∧ (b.IsInteger i ↔ k.HasInteger i) := by
  rcases k.cases_kind with rfl | ⟨signed, bits, hk⟩ | ⟨f, hk⟩
  · simp only [represent?] at h
    split at h <;> cases h <;> rename_i hi <;> cases hi
    · exact ⟨_, rfl, iff_of_true (.bool false) (.bool rfl (.inl rfl))⟩
    · exact ⟨_, rfl, iff_of_true (.bool true) (.bool rfl (.inr rfl))⟩
  · obtain ⟨word, hrepresent, hload⟩ := exists_word hk
    rw [hrepresent] at h
    obtain ⟨j, hj, rfl⟩ := Option.map_eq_some_iff.mp h
    obtain ⟨hj, hlow, hhigh⟩ := inRange?_eq_some_iff.mp hj
    obtain rfl := Option.some.inj hj
    exact ⟨_, hload i hlow hhigh,
      iff_of_true (.int i) (.word hk ((inWord_iff hk i).mpr ⟨hlow, hhigh⟩))⟩
  · obtain ⟨narrow, hrepresent, hnarrow⟩ := exists_float hk
    rw [hrepresent] at h
    obtain ⟨x, hx, hs⟩ := Option.bind_eq_some_iff.mp h
    obtain ⟨hi, rfl⟩ := Binary64.ofInt?_eq_some_iff.mp hx
    rw [hasInteger_float_iff hk]
    exact (hnarrow i hi).2 s hs

/-- The truth values are values of every kind, and taken as the integers that they are. -/
theorem hasInteger_truth (k : ScalarKind) (b : Bool) : k.HasInteger (if b then 1 else 0) := by
  rcases k.cases_kind with rfl | ⟨signed, bits, hk⟩ | ⟨f, hk⟩
  · cases b
    · exact .bool rfl (.inl rfl)
    · exact .bool rfl (.inr rfl)
  · refine .word hk ((inWord_iff hk _).mpr ?_)
    cases k <;> cases hk <;> cases b <;> decide
  · have hbit : (if b then 1 else 0 : Int).natAbs < 2 := by cases b <;> decide
    have hp : 2 ≤ 2 ^ (f.fraction + 1) := Nat.le_self_pow (Nat.succ_ne_zero _) 2
    refine .float hk (hasInteger_of_natAbs_lt ?_ (Nat.lt_of_lt_of_le hbit hp))
    cases k <;> cases hk <;> decide

theorem represent?_bool (k : ScalarKind) (b : Bool) :
    k.represent? (.bool b) = k.represent? (.int (if b then 1 else 0)) := by
  cases k with
  | bool => cases b <;> rfl
  | _ => rfl

theorem represent?_text (k : ScalarKind) (s : String) : k.represent? (.text s) = none := by
  cases k <;> rfl

end ScalarKind

/-! ## Texts -/

namespace StringType

variable {t : StringType} {text : String}

/-- **A text is kept** unless it ends in a zero at a fixed width. -/
theorem kept_eq_iff : t.kept text = text ↔ ¬t.Trims text := by
  unfold kept Trims
  cases t.width with
  | none => simp
  | some width =>
    have hchars : String.ofList (Units.dropTrailing (· == '\x00') text.toList) = text ↔
        Units.dropTrailing (· == '\x00') text.toList = text.toList := by
      rw [← String.toList_inj, String.toList_ofList]
    simp only [hchars, Units.dropTrailing_eq_self_iff]
    cases text.toList.getLast? <;> simp

theorem exists_encode_iff_hasRoom [Machine] : (∃ s, t.encode text = .ok s) ↔ t.HasRoom text := by
  rw [exists_encode_iff_unitCount]
  exact ⟨fun h => ⟨h.1, h.2⟩, fun h => ⟨h.characters, h.units⟩⟩

end StringType

/-! ## All leaves -/

namespace LeafType

variable {leaf : LeafType} {a : Atom} {s : Scalar}

theorem Represents.not_alters (h : leaf.Represents a) : ¬leaf.Alters a := by
  intro halters
  cases h with
  | integer ha hi =>
    cases halters with
    | rounded hrounds =>
      cases ha
      obtain ⟨f, hk, -, hnot, -⟩ := hrounds
      exact hnot ((ScalarKind.hasInteger_float_iff hk).mp hi)
  | text hroom hend =>
    cases halters with
    | trimmed _ hend' => exact hend hend'

/-- Of a scalar that is an integer a leaf has a value just if its kind has that integer. -/
theorem represents_scalar_iff {k : ScalarKind} {i : Int} (ha : a.IsInteger i) :
    (scalar k).Represents a ↔ k.HasInteger i := by
  constructor
  · rintro ⟨ha', hi⟩
    have hsame := (Atom.integer?_eq_some_iff.mpr ha).symm.trans (Atom.integer?_eq_some_iff.mpr ha')
    rwa [Option.some.inj hsame]
  · exact .integer ha

/-- **What a leaf takes** is what it has a value for, and what it alters. -/
theorem exists_store_exact_iff [Machine] (ha : a.isExact = true) :
    (∃ s, leaf.store a = .ok s) ↔ leaf.Represents a ∨ leaf.Alters a := by
  cases leaf with
  | scalar k =>
    simp only [store_scalar_iff]
    cases a with
    | bool b =>
      have hb := k.hasInteger_truth b
      rw [k.represent?_bool]
      exact iff_of_true (ScalarKind.exists_represent?_int_iff.mpr (.inl hb))
        (.inl (.integer (.bool b) hb))
    | int i =>
      rw [ScalarKind.exists_represent?_int_iff, represents_scalar_iff (.int i)]
      refine or_congr_right ⟨.rounded, ?_⟩
      rintro ⟨h⟩
      exact h
    | text text =>
      rw [k.represent?_text]
      refine iff_of_false (by simp) ?_
      rintro (h | h)
      · obtain ⟨ha, -⟩ := h
        cases ha
      · cases h
    | float x | complex re im => exact absurd ha (by simp [Atom.isExact])
  | string t =>
    cases a with
    | text text =>
      show (∃ s, t.encode text = .ok s) ↔ _
      rw [StringType.exists_encode_iff_hasRoom]
      constructor
      · intro hroom
        by_cases hend : t.Trims text
        · exact .inr (.trimmed hroom hend)
        · exact .inl (.text hroom hend)
      · rintro (h | h)
        · cases h with
          | text hroom _ => exact hroom
        · cases h with
          | trimmed hroom _ => exact hroom
    | _ =>
      refine iff_of_false ?_ ?_
      · rintro ⟨s, hs⟩
        exact absurd hs (by simp [store])
      · rintro (h | h) <;> cases h
  | struct fields =>
    refine iff_of_false ?_ ?_
    · rintro ⟨s, hs⟩
      exact absurd hs (by simp [store])
    · rintro (h | h) <;> cases h

/-- An integer is denoted by what is that integer. -/
theorem denotes_iff {b : Atom} {i : Int} (ha : a.IsInteger i) : b.Denotes a ↔ b.IsInteger i := by
  have hdenotes : b.Denotes a ↔ ∃ j, a.IsInteger j ∧ b.IsInteger j := by cases ha <;> exact Iff.rfl
  rw [hdenotes]
  constructor
  · rintro ⟨j, ha', hb⟩
    have hsame := (Atom.integer?_eq_some_iff.mpr ha).symm.trans (Atom.integer?_eq_some_iff.mpr ha')
    rwa [Option.some.inj hsame]
  · exact fun hb => ⟨i, ha, hb⟩

/-- **What comes back** is the scalar just if the leaf has a value for it. -/
theorem load_of_store_exact [Machine] (hfits : leaf.Fits) (ha : a.isExact = true)
    (h : leaf.store a = .ok s) :
    ∃ b, leaf.load s = .ok b ∧ (b.Denotes a ↔ leaf.Represents a) := by
  cases leaf with
  | scalar k =>
    rw [store_scalar_iff] at h
    cases a with
    | bool b =>
      rw [k.represent?_bool] at h
      simp only [denotes_iff (.bool b), represents_scalar_iff (.bool b)]
      exact ScalarKind.load_of_represent?_int h
    | int i =>
      simp only [denotes_iff (.int i), represents_scalar_iff (.int i)]
      exact ScalarKind.load_of_represent?_int h
    | text text => exact absurd h (by rw [k.represent?_text]; simp)
    | float x | complex re im => exact absurd ha (by simp [Atom.isExact])
  | string t =>
    cases a with
    | text text =>
      have hroom := StringType.exists_encode_iff_hasRoom.mp ⟨s, h⟩
      refine ⟨_, StringType.load_of_encode ((StringType.encode_of_fits hfits text).symm.trans h), ?_⟩
      constructor
      · intro hkept
        exact .text hroom (StringType.kept_eq_iff.mp (Atom.text.inj hkept))
      · intro hrepresents
        cases hrepresents with
        | text _ hend => exact congrArg Atom.text (StringType.kept_eq_iff.mpr hend)
    | _ => exact absurd h (by simp [store])
  | struct fields => exact absurd h (by simp [store])

/-- **A leaf keeps what it has a value for and refuses what it has none for**, the scalars apart that
it alters: it takes these and reads others in their place. -/
theorem store_exact [Machine] {leaf : LeafType} (hfits : leaf.Fits) {a : Atom}
    (ha : a.isExact = true) :
    (leaf.Represents a →
      ∃ s b, leaf.store a = .ok s ∧ leaf.load s = .ok b ∧ b.Denotes a) ∧
    (¬leaf.Represents a → ¬leaf.Alters a →
      ∃ e, leaf.store a = .error e ∧ e.category = .typeUnification) ∧
    (leaf.Alters a →
      ∃ s b, leaf.store a = .ok s ∧ leaf.load s = .ok b ∧ ¬b.Denotes a) := by
  have htakes : (∃ s, leaf.store a = .ok s) ↔ leaf.Represents a ∨ leaf.Alters a :=
    exists_store_exact_iff ha
  refine ⟨fun h => ?_, fun hnot hnot' => ?_, fun h => ?_⟩
  · obtain ⟨s, hs⟩ := htakes.mpr (.inl h)
    obtain ⟨b, hload, hb⟩ := load_of_store_exact hfits ha hs
    exact ⟨s, b, hs, hload, hb.mpr h⟩
  · cases hs : leaf.store a with
    | ok s => exact absurd (htakes.mp ⟨s, hs⟩) (not_or.mpr ⟨hnot, hnot'⟩)
    | error e => exact ⟨e, rfl, category_of_store hs⟩
  · obtain ⟨s, hs⟩ := htakes.mpr (.inr h)
    obtain ⟨b, hload, hb⟩ := load_of_store_exact hfits ha hs
    exact ⟨s, b, hs, hload, fun hdenotes => (hb.mp hdenotes).not_alters h⟩

/-- Three code units are room for a character of two, also where sizes wrap. Of the integers just
above the greatest significand of 32 bits the even ones are kept, and the odd ones are not. At 16 bits
the least one beyond is refused. -/
theorem store_exact_wrapping :
    ((string ⟨.utf16, some 3⟩).Fits ∧ (string ⟨.utf16, some 3⟩).Represents (.text "😀") ∧
      ∃ s b, @store .wrapping (string ⟨.utf16, some 3⟩) (.text "😀") = .ok s ∧
        (string ⟨.utf16, some 3⟩).load s = .ok b ∧ b.Denotes (.text "😀")) ∧
    ((scalar .float32).Fits ∧ (scalar .float32).Represents (.int 16777218) ∧
      ∃ s b, @store .wrapping (scalar .float32) (.int 16777218) = .ok s ∧
        (scalar .float32).load s = .ok b ∧ b.Denotes (.int 16777218)) ∧
    ((scalar .float32).Alters (.int 16777217) ∧
      ∃ s b, @store .wrapping (scalar .float32) (.int 16777217) = .ok s ∧
        (scalar .float32).load s = .ok b ∧ ¬b.Denotes (.int 16777217)) ∧
    ¬(scalar .float16).Represents (.int 65520) ∧ ¬(scalar .float16).Alters (.int 65520) ∧
      ∃ e, @store .wrapping (scalar .float16) (.int 65520) = .error e ∧
        e.category = .typeUnification := by
  have hfits : (string ⟨.utf16, some 3⟩).Fits := by
    rintro _ ⟨⟩
    decide
  have htext : (string ⟨.utf16, some 3⟩).Represents (.text "😀") := by
    refine .text ⟨fun h => absurd h (by decide), ?_⟩ (fun h => absurd h.2 (by decide))
    rintro _ ⟨⟩
    decide
  have heven : (scalar .float32).Represents (.int 16777218) :=
    .integer (.int _) (.float rfl ⟨by decide, 8388609, 1, by decide, by decide⟩)
  -- an odd integer is a significand by itself
  have hodd : (scalar .float32).Alters (.int 16777217) := by
    refine .rounded ⟨single, rfl, hasInteger_of_natAbs_lt (by decide) (by decide), ?_, by decide⟩
    rintro ⟨-, m, e, hm, heq⟩
    have hm : m < 16777216 := hm
    have heq : 16777217 = m * 2 ^ e := heq
    cases e with
    | zero => omega
    | succ e =>
      rw [Nat.pow_succ, ← Nat.mul_assoc] at heq
      omega
  have hoverflow : half.overflow = 65520 := by decide
  have hbeyond : ¬(scalar .float16).Represents (.int 65520) := by
    rw [represents_scalar_iff (.int _), ScalarKind.hasInteger_float_iff rfl]
    intro h
    have hlt := h.natAbs_lt (by decide) (by decide)
    omega
  have hrefused : ¬(scalar .float16).Alters (.int 65520) := by
    rintro ⟨f, ⟨⟩, -, -, hlt⟩
    omega
  exact ⟨⟨hfits, htext, (@store_exact .wrapping _ hfits _ rfl).1 htext⟩,
    ⟨trivial, heven, (@store_exact .wrapping (scalar .float32) trivial _ rfl).1 heven⟩,
    ⟨hodd, (@store_exact .wrapping (scalar .float32) trivial _ rfl).2.2 hodd⟩,
    hbeyond, hrefused,
    (@store_exact .wrapping (scalar .float16) trivial _ rfl).2.1 hbeyond hrefused⟩

/-- A zero at the end of a text fills a string up, and an odd integer of 25 bits is rounded. -/
theorem store_inexact :
    ((string ⟨.utf8, some 2⟩).store (.text "a\x00") = .ok (.bytes [97, 0]) ∧
      (string ⟨.utf8, some 2⟩).load (.bytes [97, 0]) = .ok (.text "a") ∧
      ¬(Atom.text "a").Denotes (.text "a\x00")) ∧
    (scalar .float32).store (.int 16777217) = .ok (.float32 ⟨0x4B800000⟩) ∧
      (scalar .float32).load (.float32 ⟨0x4B800000⟩) = .ok (.float ⟨0x4170000000000000⟩) ∧
      ¬(Atom.float ⟨0x4170000000000000⟩).Denotes (.int 16777217) := by
  refine ⟨⟨rfl, rfl, ?_⟩, rfl, rfl, ?_⟩
  · intro h
    exact absurd (Atom.text.inj h) (by decide)
  · rw [denotes_iff (.int _), ← Atom.integer?_eq_some_iff]
    have hread : (Atom.float ⟨0x4170000000000000⟩).integer? = some 16777216 := by decide +kernel
    rw [hread]
    decide

end LeafType

end Ragged
