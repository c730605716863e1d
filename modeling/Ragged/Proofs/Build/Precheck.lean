import Ragged.Build
import Ragged.Proofs.Layout.Arrays
import Ragged.Proofs.Shape.Steps

/-!
# The check before writing rejects nothing that can be written

With a full hint the lengths of sequences are gathered depth by depth and compared with the
dimensions before anything is written. This is a second reading of the same rules: it takes the
lengths at a depth together, it stops at lazy sources, and it knows of no records. It could only do
harm by rejecting a value that the write pass takes, and it does not:

> building with a full hint is writing at that type.

What carries the proof is a property of the lengths gathered so far, `LevelsFit`: they are what the
dimensions admit, for extents with which the value conforms. It holds of none, every instance keeps
it, and the check asks for less.
-/

set_option autoImplicit false

namespace Ragged

section Fits

variable (σ : Nat → Nat)

/-- What was seen at a depth is admitted by the dimension there, whose slot is given. -/
def Dimension.Fits (slot : Nat) (l : Level) : Dimension → Prop
  | .fixed n => l.lengths = .unseen ∨ l.lengths = .all n
  | .strided => l.fromIterator = false ∧ (l.lengths = .unseen ∨ l.lengths = .all (σ slot))
  | .var => True

/-- Depth by depth, as far as there are both levels and dimensions. -/
def LevelsFit : (free : Nat) → List Dimension → List Level → Prop
  | free, d :: dims, l :: levels => d.Fits σ free l ∧ LevelsFit (free + d.slots) dims levels
  | _, _, _ => True

end Fits

variable {σ : Nat → Nat}

/-! ## What fits passes the check -/

theorem checkLevel_of_fits {d : Dimension} {slot : Nat} {l : Level} (h : d.Fits σ slot l)
    (depth : Nat) : Shape.checkLevel depth l d = .ok () := by
  cases d with
  | fixed n =>
    rcases h with h | h
    · simp only [Shape.checkLevel, h]
    · simp only [Shape.checkLevel, h, Nat.lt_irrefl, if_false]
  | strided =>
    obtain ⟨hiter, h | h⟩ := h
    · simp only [Shape.checkLevel, hiter, h]
      rfl
    · simp only [Shape.checkLevel, hiter, h]
      rfl
  | var => rfl

theorem checkLevels_of_fit {levels : List Level} :
    ∀ {free : Nat} {dims : List Dimension} (depth : Nat), LevelsFit σ free dims levels →
      Shape.checkLevels depth levels dims = .ok () := by
  induction levels with
  | nil => intro free dims depth _; cases dims <;> rfl
  | cons l levels ih =>
    intro free dims depth h
    cases dims with
    | nil => rfl
    | cons d dims =>
      rw [Shape.checkLevels, checkLevel_of_fits h.1 depth]
      exact ih (depth + 1) h.2

/-! ## One instance more -/

theorem Dimension.fits_default (d : Dimension) (slot : Nat) : d.Fits σ slot {} := by
  cases d with
  | fixed n => exact .inl rfl
  | strided => exact ⟨rfl, .inl rfl⟩
  | var => trivial

theorem Dimension.fits_noteSequence {d : Dimension} {slot n : Nat} {l : Level}
    (hadmits : d.Admits σ slot false n) (h : d.Fits σ slot l) :
    d.Fits σ slot (Value.noteSequence n false l) := by
  -- the first length is noted, and the same length again changes nothing
  have hobserve : ∀ m, n = m → l.lengths = .unseen ∨ l.lengths = .all m →
      l.lengths.observe n = .all m := by
    rintro m rfl (hl | hl)
    · rw [hl]
      rfl
    · rw [hl, Lengths.observe, if_pos rfl]
  cases d with
  | fixed m => exact .inr (hobserve m hadmits h)
  | strided => exact ⟨h.1, .inr (hobserve _ hadmits.2 h.2)⟩
  | var => trivial

theorem Dimension.fits_noteIterator {d : Dimension} {slot n : Nat} {l : Level}
    (hadmits : d.Admits σ slot true n) (h : d.Fits σ slot l) :
    d.Fits σ slot (Value.noteIterator false l) := by
  cases d with
  | fixed m => exact h
  | strided => exact absurd hadmits.1 (by simp)
  | var => trivial

/-- A level changes at one depth only, so only the dimension there has to bear with it. -/
theorem LevelsFit.update {f : Level → Level} {d : Dimension} {after : List Dimension}
    {before : List Dimension} :
    ∀ {free : Nat} {levels : List Level},
      (∀ l, d.Fits σ (free + slotsOf before) l → d.Fits σ (free + slotsOf before) (f l)) →
      LevelsFit σ free (before ++ d :: after) levels →
      LevelsFit σ free (before ++ d :: after) (Shape.updateLevel f before.length levels) := by
  induction before with
  | nil =>
    intro free levels hf h
    have hf : ∀ l, d.Fits σ free l → d.Fits σ free (f l) := hf
    cases levels with
    | nil => exact ⟨hf {} (d.fits_default free), by cases after <;> trivial⟩
    | cons l levels => exact ⟨hf l h.1, h.2⟩
  | cons e before ih =>
    intro free levels hf h
    have hslots : free + slotsOf (e :: before) = free + e.slots + slotsOf before := by
      simp only [slotsOf]
      omega
    rw [hslots] at hf
    cases levels with
    | nil => exact ⟨e.fits_default free, ih hf (by cases before <;> trivial)⟩
    | cons l levels => exact ⟨h.1, ih hf h.2⟩

/-! ## The lengths of a conforming value -/

theorem lengthsBelow_rank (rank : Nat) (levels : List Level) (v : Value) :
    Value.lengthsBelow rank rank levels v = .ok levels := by
  cases v <;> simp [Value.lengthsBelow]

/-- Gathering the lengths of a conforming value does not fail, and they fit. Induction on the
dimensions that are still below; those above tell the depth and the slots. -/
theorem lengthsBelow_of_conforms {accepts : LeafType → Atom → Prop} {leaf : LeafType}
    {after : List Dimension} :
    ∀ {before : List Dimension} {v : Value} {levels : List Level},
      ArrayType.Conforms accepts σ ⟨after, leaf⟩ (slotsOf before) v →
      LevelsFit σ 0 (before ++ after) levels →
      ∃ levels', Value.lengthsBelow (before ++ after).length before.length levels v = .ok levels' ∧
        LevelsFit σ 0 (before ++ after) levels' := by
  induction after with
  | nil =>
    intro before v levels _ h
    rw [List.append_nil] at h ⊢
    exact ⟨levels, lengthsBelow_rank _ levels v, h⟩
  | cons d after ih =>
    rintro before v levels ⟨xs, hxs, hadmits, hall⟩ h
    have hdepth : before.length ≠ (before ++ d :: after).length := by
      rw [List.length_append, List.length_cons]
      omega
    have hassoc : before ++ d :: after = (before ++ [d]) ++ after := by simp
    have hslots : slotsOf (before ++ [d]) = slotsOf before + d.slots := slotsOf_concat before d
    have hone : (before ++ [d]).length = before.length + 1 := by simp
    cases hv : v.isIterator with
    | false =>
      rw [Value.lengthsBelow_sequence hv hxs, if_neg hdepth]
      -- one element after the other, all one depth further down
      refine exists_foldlM_eq_ok (fun x hx levels hfit => ?_) (h.update fun l hl => ?_)
      · rw [hassoc] at hfit ⊢
        rw [← hone]
        exact ih (by rw [hslots]; exact hall x hx) hfit
      · exact Dimension.fits_noteSequence (by rw [Nat.zero_add, ← hv]; exact hadmits) hl
    | true =>
      obtain ⟨source, rfl⟩ := Value.exists_source hv
      simp only [Value.lengthsBelow, if_neg hdepth]
      refine ⟨_, rfl, h.update fun l hl => ?_⟩
      exact Dimension.fits_noteIterator (by rw [Nat.zero_add]; exact hadmits) hl

/-! ## Building with a full hint -/

/-- What can be written at a type passes the check for it. -/
theorem ArrayType.Written.shape {t : ArrayType} {v : Value} {c : Contents} (h : t.Written v c)
    (config : Config) :
    ∃ shape, (v.shape (.full t)).2 = .ok shape ∧ shape.resolve (.full t) config = .ok t := by
  have hconforms := h.conforms _ c.agrees_assigned
  obtain ⟨dims, leaf⟩ := t
  obtain ⟨levels, hlevels, hfit⟩ := @lengthsBelow_of_conforms _ _ leaf dims [] v [] hconforms
    (by cases dims <;> trivial)
  have hlevels : v.lengthsBelow dims.length 0 [] = .ok levels := hlevels
  have hcheck : Shape.checkLevels 0 levels dims = .ok () := checkLevels_of_fit 0 hfit
  refine ⟨{ Shape.empty with levels }, ?_, ?_⟩
  · simp only [Value.shape, ArrayType.rank, hlevels]
    rfl
  · simp only [Shape.resolve, hcheck]
    rfl

/-- With a full hint the type is the hint. -/
theorem type_of_resolve_full {shape : Shape} {t t' : ArrayType} {config : Config}
    (h : shape.resolve (.full t) config = .ok t') : t' = t := by
  simp only [Shape.resolve] at h
  obtain ⟨-, -, ht⟩ := bind_eq_ok.mp h
  exact (Except.ok.inj ht).symm

theorem write_of_build_full {config : Config} {t : ArrayType} {v : Value} {a : PackedArray}
    (h : (build config (.full t) v).2 = .ok a) :
    a.type = t ∧ (t.write config.growth v).2 = .ok a.contents := by
  obtain ⟨shape, -, htype, hwrite⟩ := build_eq_ok_iff.mp h
  have htype := type_of_resolve_full htype
  rw [htype] at hwrite
  exact ⟨htype, hwrite⟩

theorem build_full_of_write {config : Config} {t : ArrayType} {v : Value} {c : Contents}
    (h : (t.write config.growth v).2 = .ok c) : (build config (.full t) v).2 = .ok ⟨t, c⟩ := by
  obtain ⟨shape, hshape, htype⟩ := (ArrayType.written_of_write h).shape config
  exact build_eq_ok_iff.mpr ⟨shape, hshape, htype, h⟩

/-- **Building with a full hint is writing at that type.** -/
theorem build_full_eq_ok_iff (config : Config) (t : ArrayType) (v : Value) (a : PackedArray) :
    (build config (.full t) v).2 = .ok a ↔
      a.type = t ∧ (t.write config.growth v).2 = .ok a.contents := by
  constructor
  · exact write_of_build_full
  · rintro ⟨rfl, hwrite⟩
    exact build_full_of_write hwrite

end Ragged
