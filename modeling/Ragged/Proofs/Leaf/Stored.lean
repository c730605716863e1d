import Ragged.Leaf.Convert
import Ragged.Proofs.Text.Codec

/-!
# What a leaf stores, it reads

`LeafType.store` may refuse a scalar. What it does not refuse is of the kind that columns of the
leaf have (`kind_of_represent?`, `StringType.kind_of_encode`), and `LeafType.load` reads it
(`exists_load_of_store`), so there is a scalar that the leaf makes of it: `LeafType.readBack?`.
-/

set_option autoImplicit false

namespace Ragged

/-- A scalar as it comes back from a leaf that stored it; none if the leaf refuses it. -/
def LeafType.readBack? (leaf : LeafType) (a : Atom) : Option Atom :=
  match leaf.store a with
  | .ok s => (leaf.load s).toOption
  | .error _ => none

theorem ScalarKind.kind_of_represent? {k : ScalarKind} {a : Atom} {s : Scalar}
    (h : k.represent? a = some s) : s.kind = k.elementKind := by
  cases k with
  | bool =>
    simp only [represent?] at h
    split at h
    all_goals cases h
    all_goals rfl
  | cfloat32 =>
    simp only [represent?] at h
    split at h
    · split at h
      · cases h
        rfl
      · cases h
    · cases h
  | _ =>
    obtain ⟨_, -, rfl⟩ := Option.map_eq_some_iff.mp h
    rfl

theorem ScalarKind.represent?_of_store [Machine] {k : ScalarKind} {a : Atom} {s : Scalar}
    (h : (LeafType.scalar k).store a = .ok s) : k.represent? a = some s := by
  simp only [LeafType.store] at h
  split at h
  · rename_i hs
    rw [hs, Except.ok.inj h]
  · exact absurd h (by simp)

/-- What a scalar leaf stores is of the kind of its column. -/
theorem ScalarKind.kind_of_store [Machine] {k : ScalarKind} {a : Atom} {s : Scalar}
    (h : (LeafType.scalar k).store a = .ok s) : s.kind = k.elementKind :=
  kind_of_represent? (represent?_of_store h)

theorem StringType.kind_of_store [Machine] {t : StringType} {a : Atom} {s : Scalar}
    (h : (LeafType.string t).store a = .ok s) : s.kind = t.elementKind := by
  cases a with
  | text text => exact kind_of_encode h
  | _ => exact absurd h (by simp [LeafType.store])

/-- What is left of a text once it is stored: at a fixed width, the zeros at its end are not told
from those that it is filled up with. -/
def StringType.kept (t : StringType) (text : String) : String :=
  match t.width with
  | none => text
  | some _ => String.ofList (Units.dropTrailing (· == '\x00') text.toList)

theorem StringType.load_of_encode {t : StringType} {text : String} {s : Scalar}
    (h : t.encode text = .ok s) : (LeafType.string t).load s = .ok (.text (t.kept text)) := by
  cases hw : t.width with
  | none =>
    rw [encode_of_no_width hw h, kept, hw]
    rfl
  | some width =>
    obtain ⟨n, -, rfl⟩ := encode_of_width hw h
    simp only [LeafType.load, Encoding.decode, Encoding.text?_bytes_append_zeros, kept, hw]
    rfl

namespace LeafType

/-- Only byte strings have to be decoded. -/
theorem exists_load_of_kind {s : Scalar} (leaf : LeafType) (h : ∀ n, s.kind ≠ .bytes n) :
    ∃ a, leaf.load s = .ok a := by
  cases s with
  | bytes bs => exact absurd rfl (h bs.length)
  | _ => exact ⟨_, rfl⟩

/-- **Reading never fails on what was stored.** -/
theorem exists_load_of_store {leaf : LeafType} {a : Atom} {s : Scalar} (h : leaf.store a = .ok s) :
    ∃ b, leaf.load s = .ok b := by
  cases leaf with
  | scalar k =>
    refine exists_load_of_kind _ fun n => ?_
    rw [ScalarKind.kind_of_store h]
    cases k <;> exact fun hk => nomatch hk
  | string t =>
    cases a with
    | text text => exact ⟨_, StringType.load_of_encode h⟩
    | _ => exact absurd h (by simp [store])
  | struct fields => exact absurd h (by simp [store])

theorem load_of_store {leaf : LeafType} {a : Atom} {s : Scalar} (h : leaf.store a = .ok s) :
    ∃ b, leaf.load s = .ok b ∧ leaf.readBack? a = some b := by
  obtain ⟨b, hb⟩ := exists_load_of_store h
  exact ⟨b, hb, by simp only [readBack?, h, hb, Except.toOption]⟩

end LeafType

/-! ## Sizes that can be counted

A machine works out sizes in two places, the kind of a column and the bytes of a text, and in both it
makes no difference which machine it is where the size can be counted. -/

/-- Whether the bytes of a text of this type can be counted. -/
def StringType.Fits (t : StringType) : Prop :=
  ∀ width, t.width = some width → width * t.encoding.unitSize < sizeLimit

/-- Whether the bytes of what the leaf stores can be counted; other scalars have few. -/
def LeafType.Fits : LeafType → Prop
  | .string t => t.Fits
  | .scalar _ | .struct _ => True

theorem StringType.elementKind_of_fits [Machine] {t : StringType} (h : t.Fits) :
    t.elementKind = @elementKind .unbounded t := by
  unfold elementKind
  cases hw : t.width with
  | none => rfl
  | some width => exact congrArg ElementKind.bytes (Machine.bytes_of_lt (h width hw))

theorem StringType.encode_of_fits [Machine] {t : StringType} (h : t.Fits) (text : String) :
    t.encode text = @encode .unbounded t text := by
  unfold encode
  cases hw : t.width with
  | none => rfl
  | some width =>
    simp only [Machine.bytes_of_lt (h width hw)]
    rfl

theorem LeafType.store_of_fits [Machine] {leaf : LeafType} (h : leaf.Fits) (a : Atom) :
    leaf.store a = @store .unbounded leaf a := by
  cases leaf with
  | string t =>
    cases a with
    | text s => exact StringType.encode_of_fits h s
    | _ => rfl
  | _ => rfl

/-! ## What a leaf refuses -/

theorem StringType.category_of_encode [Machine] {t : StringType} {text : String} {e : BuildError}
    (h : t.encode text = .error e) : e.category = .typeUnification := by
  simp only [encode] at h
  split at h
  · rw [← Except.error.inj h]
    rfl
  · split at h
    · exact absurd h (by simp)
    · split at h
      · rw [← Except.error.inj h]
        rfl
      · exact absurd h (by simp)

theorem LeafType.category_of_store [Machine] {leaf : LeafType} {a : Atom} {e : BuildError}
    (h : leaf.store a = .error e) : e.category = .typeUnification := by
  cases leaf with
  | scalar k =>
    simp only [store] at h
    split at h
    · exact absurd h (by simp)
    · rw [← Except.error.inj h]
      rfl
  | string t =>
    cases a with
    | text s => exact StringType.category_of_encode h
    | _ =>
      rw [← Except.error.inj h]
      rfl
  | struct fields =>
    rw [← Except.error.inj h]
    rfl

end Ragged
