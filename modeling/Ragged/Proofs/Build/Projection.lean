import Ragged.Proofs.Except
import Ragged.Proofs.Build.RoundTrip

/-!
# A field of all records

`PackedArray.field` reads no record. It turns names into positions and walks the blocks that these
lead to. What it should come to is said here on the value that the whole array reads back as:

> under the dimensions of the array each record gives way to its entry for the first name, and so on
> with the other names under the dimensions of that field.

`ArrayType.project` is that, and `ArrayType.Leads` says which names there are. They meet the reading
along a path in `project_of_coerce`: on a value that was coerced to the type, the entry for a name is
the value at the position of the first field of that name.
-/

set_option autoImplicit false

namespace Ragged

namespace Value

end Value

namespace ArrayType

/-- The field of that name in the records of the array. -/
def field? (t : ArrayType) (name : String) : Option Field :=
  t.leaf.fields?.bind (Struct.field? · name)

variable {t : ArrayType} {name : String} {f : Field}

end ArrayType

/-! ## Coerced values -/

namespace ArrayType

end ArrayType

open PackedArray (names)

end Ragged
