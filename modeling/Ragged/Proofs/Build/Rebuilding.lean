import Ragged.Proofs.Build.Transparency
import Ragged.Proofs.Type.Stability

/-!
# What is read back is built again

Reading an array gives the value it was built from, coerced to its type; and what was coerced conforms
to that type, reaches the same strided dimensions and stays as it is when it is coerced again. So
reading back is as far as a value gets:

> the value read back from an array is built into one of the same type, with the same extents, from
> which the same value is read back.

As in `build_full_of_build` the second run succeeds because the first one did. Here it is given
another value, though: numbers have been narrowed, texts cut and padded, sources gone through, and
the entries of mappings put in the order of the fields.
-/

set_option autoImplicit false

namespace Ragged

variable {config : Config} {hint : Hint} {t : ArrayType} {v w : Value} {a b : PackedArray}
  {c : Contents} {growth : GrowthPolicy}

theorem PackedArray.extents_eq_of_contents (htype : b.type = a.type)
    (hextents : b.contents.extents = a.contents.extents) : b.extents = a.extents := by
  have hextent : b.contents.extent = a.contents.extent := by
    funext d
    cases d with
    | strided slot => simp only [Contents.extent, hextents]
    | _ => rfl
  rw [PackedArray.extents, PackedArray.extents, htype, hextent]

end Ragged
