import Mathlib.Data.List.DropRight
import Ragged.Proofs.Leaf.Words
import Ragged.Proofs.Number.Widening

/-!
# What was read is stored again

A leaf reads what it has stored as a scalar of the input. Of such a scalar nothing more can be lost:

> what a leaf reads, it takes, and it reads it as the same again.

For numbers this is said of whatever a column of the kind may hold (`ScalarKind.exists_restored`):
integers are in range, and floats come back from the wider format. A text of fixed width may lose
zeros at its end the first time it is stored, but then there are none left (`StringType.kept_kept`),
and it has not become longer.
-/

set_option autoImplicit false

namespace Ragged

/-! ## Numbers -/

namespace ScalarKind

theorem elementKind_injective {k k' : ScalarKind} (h : k.elementKind = k'.elementKind) : k = k' := by
  cases k <;> cases k' <;> first | rfl | exact absurd h (by simp [elementKind])

theorem inRange?_int {k : ScalarKind} {i : Int} (hlow : k.bounds.1 ≤ i) (hhigh : i < k.bounds.2) :
    k.inRange? (.int i) = some i := if_pos ⟨hlow, hhigh⟩

/-- A word reads as an integer in the range of its kind. -/
theorem exists_int_of_word {k : ScalarKind} {s : Scalar} {signed : Bool} {bits : Nat}
    (hk : k.word? = some (signed, bits)) (h : s.kind = k.elementKind) :
    ∃ i, (LeafType.scalar k).load s = .ok (.int i) ∧ k.bounds.1 ≤ i ∧ i < k.bounds.2 := by
  cases s with
  | int8 i | int16 i | int32 i | int64 i =>
    cases k <;> cases hk <;> cases h
    exact ⟨i.toInt, rfl, i.le_toInt, i.toInt_lt⟩
  | uint8 n | uint16 n | uint32 n | uint64 n =>
    cases k <;> cases hk <;> cases h
    exact ⟨n.toNat, rfl, Int.natCast_nonneg _, Int.ofNat_lt.mpr n.toNat_lt⟩
  | _ => cases k <;> cases hk <;> cases h

/-- Words are stored again, as they are in range. -/
theorem exists_restored_of_word {k : ScalarKind} {s : Scalar} {signed : Bool} {bits : Nat}
    (hk : k.word? = some (signed, bits)) (h : s.kind = k.elementKind) :
    ∃ a s', (LeafType.scalar k).load s = .ok a ∧ k.represent? a = some s' ∧
      (LeafType.scalar k).load s' = .ok a := by
  obtain ⟨i, hload, hlow, hhigh⟩ := exists_int_of_word hk h
  obtain ⟨word, hstore, hread⟩ := exists_word hk
  refine ⟨.int i, word i, hload, ?_, hread i hlow hhigh⟩
  rw [hstore, inRange?_int hlow hhigh, Option.map_some]

/-- What is read of a column of the kind is stored again, and read as before. -/
theorem exists_restored {k : ScalarKind} {s : Scalar} (h : s.kind = k.elementKind) :
    ∃ a s', (LeafType.scalar k).load s = .ok a ∧ k.represent? a = some s' ∧
      (LeafType.scalar k).load s' = .ok a := by
  cases s with
  | int8 | int16 | int32 | int64 | uint8 | uint16 | uint32 | uint64 =>
    obtain ⟨⟨signed, bits⟩, hk⟩ : ∃ w, k.word? = some w := by
      cases k <;> cases h
      exact ⟨_, rfl⟩
    exact exists_restored_of_word hk h
  | bool b =>
    obtain rfl : k = .bool := elementKind_injective h.symm
    exact ⟨.bool b, .bool b, rfl, rfl, rfl⟩
  | float16 x =>
    obtain rfl : k = .float16 := elementKind_injective h.symm
    obtain ⟨y, hy, hread⟩ := x.exists_narrow16?
    refine ⟨.float x.toBinary64, .float16 y, rfl, ?_, by rw [LeafType.load, hread]⟩
    rw [represent?, Atom.real?, Option.bind_some, hy, Option.map_some]
  | float32 x =>
    obtain rfl : k = .float32 := elementKind_injective h.symm
    obtain ⟨y, hy, hread⟩ := x.exists_narrow32?
    refine ⟨.float x.toBinary64, .float32 y, rfl, ?_, by rw [LeafType.load, hread]⟩
    rw [represent?, Atom.real?, Option.bind_some, hy, Option.map_some]
  | float64 x =>
    obtain rfl : k = .float64 := elementKind_injective h.symm
    exact ⟨.float x, .float64 x, rfl, rfl, rfl⟩
  | complex32 re im =>
    obtain rfl : k = .cfloat32 := elementKind_injective h.symm
    obtain ⟨y, hy, hre⟩ := re.exists_narrow32?
    obtain ⟨z, hz, him⟩ := im.exists_narrow32?
    refine ⟨.complex re.toBinary64 im.toBinary64, .complex32 y z, rfl, ?_,
      by rw [LeafType.load, hre, him]⟩
    simp only [represent?, Atom.complex?, hy, hz]
  | complex64 re im =>
    obtain rfl : k = .cfloat64 := elementKind_injective h.symm
    exact ⟨.complex re im, .complex64 re im, rfl, rfl, rfl⟩
  | text t | bytes bs => cases k <;> exact absurd h (by simp [Scalar.kind, elementKind])

end ScalarKind

/-! ## Texts -/

namespace Units

variable {α : Type} (p : α → Bool) (units : List α)

theorem dropTrailing_prefix : dropTrailing p units <+: units := by
  unfold dropTrailing
  rw [← List.reverse_suffix, List.reverse_reverse]
  exact List.dropWhile_suffix p

theorem dropTrailing_dropTrailing :
    dropTrailing p (dropTrailing p units) = dropTrailing p units := by
  unfold dropTrailing
  rw [List.reverse_reverse, List.dropWhile_idempotent]

variable {p units} in
theorem dropTrailing_eq_self_iff : dropTrailing p units = units ↔
    ∀ u, units.getLast? = some u → p u = false := by
  rw [dropTrailing, ← List.reverse_inj, List.reverse_reverse, List.getLast?_eq_head?_reverse]
  cases units.reverse with
  | nil => simp
  | cons u rest =>
    have hlength := (List.dropWhile_suffix p (l := rest)).length_le
    simp only [List.dropWhile_cons, List.head?_cons, Option.some.injEq, forall_eq']
    split
    · rename_i hu
      refine iff_of_false (fun h => ?_) (by simp [hu])
      have := congrArg List.length h
      rw [List.length_cons] at this
      omega
    · rename_i hu
      exact iff_of_true rfl (Bool.eq_false_iff.mpr hu)

end Units

theorem Encoding.bytes_append (e : Encoding) (cs rest : List Char) :
    e.bytes (String.ofList (cs ++ rest)) =
      e.bytes (String.ofList cs) ++ e.bytes (String.ofList rest) := by
  cases e with
  | ascii | utf8 | utf16 =>
    simp only [bytes, Units.utf8, Units.utf16, String.toList_ofList, List.flatMap_append]
  | utf32 =>
    simp only [bytes, Units.utf32, String.toList_ofList, List.map_append, List.flatMap_append]

namespace StringType

/-- Texts are taken that have only characters of the encoding and not too many units. -/
theorem exists_encode_iff [Machine] {t : StringType} {text : String} :
    (∃ s, t.encode text = .ok s) ↔
      (t.encoding = .ascii → text.toList.all (·.toNat < 128) = true) ∧
        ∀ width, t.width = some width →
          (t.encoding.bytes text).length / t.encoding.unitSize ≤ width := by
  unfold encode
  by_cases hascii : t.encoding = .ascii ∧ ¬text.toList.all (·.toNat < 128) = true
  · rw [if_pos hascii]
    refine ⟨fun ⟨s, hs⟩ => absurd hs (by simp), fun h => absurd (h.1 hascii.1) hascii.2⟩
  rw [if_neg hascii]
  have hchars : t.encoding = .ascii → text.toList.all (·.toNat < 128) = true :=
    fun he => Classical.byContradiction fun hnot => hascii ⟨he, hnot⟩
  cases hw : t.width with
  | none => exact ⟨fun _ => ⟨hchars, fun _ h => absurd h (by simp)⟩, fun _ => ⟨_, rfl⟩⟩
  | some width =>
    dsimp only
    by_cases hlong : width < (t.encoding.bytes text).length / t.encoding.unitSize
    · rw [if_pos hlong]
      refine ⟨fun ⟨s, hs⟩ => absurd hs (by simp), fun h => ?_⟩
      exact absurd (h.2 width rfl) (Nat.not_le.mpr hlong)
    · rw [if_neg hlong]
      refine ⟨fun _ => ⟨hchars, ?_⟩, fun _ => ⟨_, rfl⟩⟩
      rintro _ ⟨⟩
      exact Nat.le_of_not_lt hlong

theorem kept_kept (t : StringType) (text : String) : t.kept (t.kept text) = t.kept text := by
  unfold kept
  cases t.width with
  | none => rfl
  | some width => simp only [String.toList_ofList, Units.dropTrailing_dropTrailing]

/-- What is kept of a text is a beginning of it. -/
theorem exists_kept_append (t : StringType) (text : String) :
    ∃ rest, (t.kept text).toList ++ rest = text.toList := by
  unfold kept
  cases t.width with
  | none => exact ⟨[], List.append_nil _⟩
  | some width =>
    rw [String.toList_ofList]
    exact Units.dropTrailing_prefix _ _

/-- What is kept of a text is taken if the text was. -/
theorem exists_encode_kept {t : StringType} {text : String} {s : Scalar}
    (h : t.encode text = .ok s) : ∃ s', t.encode (t.kept text) = .ok s' := by
  obtain ⟨hchars, hwidth⟩ := exists_encode_iff.mp ⟨s, h⟩
  obtain ⟨rest, hrest⟩ := t.exists_kept_append text
  refine exists_encode_iff.mpr ⟨fun he => ?_, fun width hw => ?_⟩
  · have hall := hchars he
    rw [← hrest, List.all_append, Bool.and_eq_true] at hall
    exact hall.1
  · have hbytes := t.encoding.bytes_append (t.kept text).toList rest
    rw [hrest, String.ofList_toList, String.ofList_toList] at hbytes
    refine Nat.le_trans (Nat.div_le_div_right ?_) (hwidth width hw)
    rw [hbytes, List.length_append]
    exact Nat.le_add_right _ _

end StringType

/-! ## All leaves -/

/-- **What a leaf has read it stores again, and reads it as before.** -/
theorem LeafType.readBack?_of_readBack? {leaf : LeafType} {a b : Atom}
    (h : leaf.readBack? a = some b) : leaf.readBack? b = some b := by
  cases hs : leaf.store a with
  | error e => simp [readBack?, hs] at h
  | ok s =>
    obtain ⟨b', hload, hb⟩ := load_of_store hs
    obtain rfl : b = b' := Option.some.inj (h.symm.trans hb)
    have hof : ∀ s', leaf.store b = .ok s' → leaf.load s' = .ok b → leaf.readBack? b = some b :=
      fun s' hs' hload' => by simp only [readBack?, hs', hload', Except.toOption]
    cases leaf with
    | scalar k =>
      obtain ⟨c, s', hc, hs', hload'⟩ := ScalarKind.exists_restored (ScalarKind.kind_of_store hs)
      obtain rfl : b = c := Except.ok.inj (hload.symm.trans hc)
      exact hof s' (by simp only [store, hs']) hload'
    | string t =>
      cases a with
      | text text =>
        obtain rfl : b = .text (t.kept text) :=
          Except.ok.inj (hload.symm.trans (StringType.load_of_encode hs))
        obtain ⟨s', hs'⟩ := StringType.exists_encode_kept hs
        have hload' := StringType.load_of_encode hs'
        rw [StringType.kept_kept] at hload'
        exact hof s' hs' hload'
      | _ => exact absurd hs (by simp [store])
    | struct fields => exact absurd hs (by simp [store])

end Ragged
