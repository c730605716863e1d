import Ragged.Build
import Ragged.Proofs.Layout.Arrays
import Ragged.Proofs.Layout.Reading

/-!
# An array reads back as what it was built from

Building looks at the value, settles a type and writes. The type is that of the array, and the value
that is written is the one that came in, looked ahead into; so what the write pass says of the stored
blocks and what reading makes of them add up:

> an array with distinct field names reads back, and what it reads back as is the value it was built
> from, coerced to its type.
-/

set_option autoImplicit false

namespace Ragged

/-- What was written from a value is read along any path of its type, and is the value coerced. -/
theorem ArrayType.Written.read {t : ArrayType} {v : Value} {c : Contents} (h : t.Written v c)
    {path : List Nat} (hpath : t.HasPath path) :
    ∃ w, t.layout.read c path c.root 0 = .ok (w.along path) ∧ t.coerce v = some w := by
  obtain ⟨w, hw, hholds⟩ := h.coerced
  exact ⟨w, ArrayType.reads hpath 0 c.root [w] 0 w hholds rfl, hw⟩

/-- What was written from a value reads back as that value, coerced. -/
theorem ArrayType.Written.toValue {t : ArrayType} {v : Value} {c : Contents} (h : t.Written v c)
    (hnames : t.DistinctNames) :
    ∃ w, (PackedArray.mk t c).toValue = .ok w ∧ t.coerce v = some w := by
  obtain ⟨w, hread, hw⟩ := @Written.read t v c h [] trivial
  rw [ArrayType.along_coerce hnames hw] at hread
  exact ⟨w, hread, hw⟩

end Ragged
