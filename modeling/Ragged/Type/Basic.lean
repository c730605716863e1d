/-!
# Array types

An array type is a list of dimensions, outermost first, over the type of the leaves:
`3, var, int32` is three rows of any length of 32-bit integers. A leaf is a scalar, a string, or a
struct whose fields have array types of their own, so types nest.

The types themselves carry no condition. That the field names of a struct are distinct is checked by
the smart constructor `Struct.ofFields`; a struct type that arrives in some other form (as a JSON
document, say) need not satisfy it, and everything that walks a type copes: a name stands for the
first field that bears it.
-/

set_option autoImplicit false

namespace Ragged

/-- One dimension of an array type. -/
inductive Dimension where
  /-- Every instance has exactly this many elements. -/
  | fixed (extent : Nat)
  /-- All instances have the same number of elements, which the data decides. -/
  | strided
  /-- Each instance has a length of its own. -/
  | var
deriving DecidableEq, Repr, Inhabited

namespace Dimension

/-- Whether the dimension lets each instance have its own length. -/
def isVar : Dimension → Bool
  | .var => true
  | _ => false

/-- The extent, where the type alone tells it. -/
def extent? : Dimension → Option Nat
  | .fixed n => some n
  | _ => none

end Dimension

/-- The primitive kinds of leaf. `cfloat32` and `cfloat64` are complex numbers whose two parts are
floats of that width. -/
inductive ScalarKind where
  | bool
  | int8 | int16 | int32 | int64
  | uint8 | uint16 | uint32 | uint64
  | float16 | float32 | float64
  | cfloat32 | cfloat64
deriving DecidableEq, Repr, Inhabited

namespace ScalarKind

/-- The name under which a kind is printed. -/
def name : ScalarKind → String
  | .bool => "bool"
  | .int8 => "int8"
  | .int16 => "int16"
  | .int32 => "int32"
  | .int64 => "int64"
  | .uint8 => "uint8"
  | .uint16 => "uint16"
  | .uint32 => "uint32"
  | .uint64 => "uint64"
  | .float16 => "float16"
  | .float32 => "float32"
  | .float64 => "float64"
  | .cfloat32 => "cfloat32"
  | .cfloat64 => "cfloat64"

/-- The kind a name stands for. The complex kinds have second names, which count the bits of both
parts together. -/
def ofName? : String → Option ScalarKind
  | "bool" => some .bool
  | "int8" => some .int8
  | "int16" => some .int16
  | "int32" => some .int32
  | "int64" => some .int64
  | "uint8" => some .uint8
  | "uint16" => some .uint16
  | "uint32" => some .uint32
  | "uint64" => some .uint64
  | "float16" => some .float16
  | "float32" => some .float32
  | "float64" => some .float64
  | "cfloat32" | "complex64" => some .cfloat32
  | "cfloat64" | "complex128" | "complex" => some .cfloat64
  | _ => none

def isSigned : ScalarKind → Bool
  | .int8 | .int16 | .int32 | .int64 => true
  | _ => false

def isUnsigned : ScalarKind → Bool
  | .uint8 | .uint16 | .uint32 | .uint64 => true
  | _ => false

def isInteger (k : ScalarKind) : Bool := k.isSigned || k.isUnsigned

def isFloat : ScalarKind → Bool
  | .float16 | .float32 | .float64 => true
  | _ => false

def isComplex : ScalarKind → Bool
  | .cfloat32 | .cfloat64 => true
  | _ => false

/-- Every kind is found again under the name it is printed with. -/
theorem ofName?_name (k : ScalarKind) : ofName? k.name = some k := by cases k <;> rfl

end ScalarKind

/-- How the text of a string leaf is cut into code units. -/
inductive Encoding where
  | ascii | utf8 | utf16 | utf32
deriving DecidableEq, Repr, Inhabited

namespace Encoding

/-- The short name under which an encoding is printed. -/
def name : Encoding → String
  | .ascii => "A"
  | .utf8 => "U8"
  | .utf16 => "U16"
  | .utf32 => "U32"

/-- The encoding a name stands for: the short name or one of two long ones. -/
def ofName? : String → Option Encoding
  | "A" | "ascii" | "us-ascii" => some .ascii
  | "U8" | "utf8" | "utf-8" => some .utf8
  | "U16" | "utf16" | "utf-16" => some .utf16
  | "U32" | "utf32" | "utf-32" => some .utf32
  | _ => none

/-- Bytes in one code unit. -/
def unitSize : Encoding → Nat
  | .ascii | .utf8 => 1
  | .utf16 => 2
  | .utf32 => 4

theorem ofName?_name (e : Encoding) : ofName? e.name = some e := by cases e <;> rfl

end Encoding

/-- A string leaf: its encoding and, for strings of fixed width, that width in code units. -/
structure StringType where
  encoding : Encoding := .utf8
  width : Option Nat := none
deriving DecidableEq, Repr, Inhabited

mutual

/-- The type of an array: its dimensions, outermost first, and the type of its leaves. -/
structure ArrayType where
  dims : List Dimension
  leaf : LeafType

/-- The type of a leaf. -/
inductive LeafType where
  | scalar (kind : ScalarKind)
  | string (type : StringType)
  | struct (fields : List Field)

/-- A named field of a struct. -/
structure Field where
  name : String
  type : ArrayType

end

instance : Inhabited LeafType := ⟨.scalar default⟩
instance : Inhabited ArrayType := ⟨⟨[], default⟩⟩

/-! ## Equality is decidable

One decision procedure per type of the mutual block and one for lists of fields, each by recursion
on its first argument, so that a closed comparison evaluates. -/

mutual

def ArrayType.decEq : (a b : ArrayType) → Decidable (a = b)
  | ⟨dims, leaf⟩, ⟨dims', leaf'⟩ =>
    match decEq dims dims', LeafType.decEq leaf leaf' with
    | isTrue h, isTrue k => isTrue (by rw [h, k])
    | isFalse h, _ => isFalse (by intro e; injection e; contradiction)
    | _, isFalse h => isFalse (by intro e; injection e; contradiction)
termination_by structural a => a

def LeafType.decEq : (a b : LeafType) → Decidable (a = b)
  | .scalar k, .scalar l =>
    if h : k = l then isTrue (by rw [h]) else isFalse (by intro e; injection e; contradiction)
  | .string s, .string t =>
    if h : s = t then isTrue (by rw [h]) else isFalse (by intro e; injection e; contradiction)
  | .struct fs, .struct gs =>
    match Field.decEqList fs gs with
    | isTrue h => isTrue (by rw [h])
    | isFalse h => isFalse (by intro e; injection e; contradiction)
  | .scalar _, .string _ => isFalse (by intro e; injection e)
  | .scalar _, .struct _ => isFalse (by intro e; injection e)
  | .string _, .scalar _ => isFalse (by intro e; injection e)
  | .string _, .struct _ => isFalse (by intro e; injection e)
  | .struct _, .scalar _ => isFalse (by intro e; injection e)
  | .struct _, .string _ => isFalse (by intro e; injection e)
termination_by structural a => a

def Field.decEq : (a b : Field) → Decidable (a = b)
  | ⟨name, type⟩, ⟨name', type'⟩ =>
    match decEq name name', ArrayType.decEq type type' with
    | isTrue h, isTrue k => isTrue (by rw [h, k])
    | isFalse h, _ => isFalse (by intro e; injection e; contradiction)
    | _, isFalse h => isFalse (by intro e; injection e; contradiction)
termination_by structural a => a

def Field.decEqList : (a b : List Field) → Decidable (a = b)
  | [], [] => isTrue rfl
  | [], _ :: _ => isFalse (by intro e; injection e)
  | _ :: _, [] => isFalse (by intro e; injection e)
  | f :: fs, g :: gs =>
    match Field.decEq f g, Field.decEqList fs gs with
    | isTrue h, isTrue k => isTrue (by rw [h, k])
    | isFalse h, _ => isFalse (by intro e; injection e; contradiction)
    | _, isFalse h => isFalse (by intro e; injection e; contradiction)
termination_by structural a => a

end

instance : DecidableEq ArrayType := ArrayType.decEq
instance : DecidableEq LeafType := LeafType.decEq
instance : DecidableEq Field := Field.decEq

namespace LeafType

/-- The fields of a struct leaf. -/
def fields? : LeafType → Option (List Field)
  | .struct fields => some fields
  | _ => none

def isStruct : LeafType → Bool
  | .struct _ => true
  | _ => false

end LeafType

namespace ArrayType

/-- The array type of a single leaf. -/
def ofLeaf (leaf : LeafType) : ArrayType := ⟨[], leaf⟩

def rank (t : ArrayType) : Nat := t.dims.length

/-- An array without dimensions is one leaf. -/
def isScalar (t : ArrayType) : Bool := t.dims.isEmpty

/-- The type of what lies below the first `depth` dimensions. -/
def inner (t : ArrayType) (depth : Nat) : ArrayType := ⟨t.dims.drop depth, t.leaf⟩

end ArrayType

/-- The fields of a struct, in declared order. -/
abbrev Struct := List Field

namespace Struct

def names (fields : Struct) : List String := fields.map Field.name

/-- The first name in a list that also stands before it, in the list or among `seen`. -/
def firstRepeat (seen : List String) : List String → Option String
  | [] => none
  | name :: rest => if name ∈ seen then some name else firstRepeat (name :: seen) rest

/-- A struct of the given fields, or the first name that an earlier field already bears. -/
def ofFields (fields : List Field) : Except String Struct :=
  match firstRepeat [] (names fields) with
  | some name => .error name
  | none => .ok fields

def indexOf? (fields : Struct) (name : String) : Option Nat :=
  fields.findIdx? (·.name = name)

def field? (fields : Struct) (name : String) : Option Field :=
  fields.find? (·.name = name)

end Struct

end Ragged
