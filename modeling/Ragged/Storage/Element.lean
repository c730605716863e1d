import Ragged.Number.Binary

/-!
# What can be stored

`Scalar` is one stored value and `ElementKind` what a region of values is made of: one kind per
machine type, one for texts of any length, and one for byte strings of each fixed width.
-/

set_option autoImplicit false

namespace Ragged

/-- The kind of the elements of a column. -/
inductive ElementKind where
  | bool
  | int8 | int16 | int32 | int64
  | uint8 | uint16 | uint32 | uint64
  | float16 | float32 | float64
  | complex32 | complex64
  | text
  /-- Byte strings of that width. -/
  | bytes (width : Nat)
deriving DecidableEq, Repr, Inhabited

namespace ElementKind

/-- Bytes in one element; texts have no common size. -/
def byteSize? : ElementKind → Option Nat
  | .bool | .int8 | .uint8 => some 1
  | .int16 | .uint16 | .float16 => some 2
  | .int32 | .uint32 | .float32 => some 4
  | .int64 | .uint64 | .float64 | .complex32 => some 8
  | .complex64 => some 16
  | .bytes width => some width
  | .text => none

/-- The name of a kind in messages. -/
def render : ElementKind → String
  | .bool => "Bool"
  | .int8 => "Int8"
  | .int16 => "Int16"
  | .int32 => "Int32"
  | .int64 => "Int64"
  | .uint8 => "UInt8"
  | .uint16 => "UInt16"
  | .uint32 => "UInt32"
  | .uint64 => "UInt64"
  | .float16 => "Float16"
  | .float32 => "Float32"
  | .float64 => "Float64"
  | .complex32 => "ComplexF32"
  | .complex64 => "ComplexF64"
  | .text => "String"
  | .bytes width => "Bytes\x7b" ++ toString width ++ "\x7d"

end ElementKind

/-- One stored value. The parts of a complex number are its real and its imaginary part. -/
inductive Scalar where
  | bool (b : Bool)
  | int8 (i : Int8)
  | int16 (i : Int16)
  | int32 (i : Int32)
  | int64 (i : Int64)
  | uint8 (n : UInt8)
  | uint16 (n : UInt16)
  | uint32 (n : UInt32)
  | uint64 (n : UInt64)
  | float16 (x : Binary16)
  | float32 (x : Binary32)
  | float64 (x : Binary64)
  | complex32 (re im : Binary32)
  | complex64 (re im : Binary64)
  | text (s : String)
  | bytes (bs : List UInt8)
deriving DecidableEq, Inhabited

namespace Scalar

/-- The kind of column a value can be stored in. -/
def kind : Scalar → ElementKind
  | .bool _ => .bool
  | .int8 _ => .int8
  | .int16 _ => .int16
  | .int32 _ => .int32
  | .int64 _ => .int64
  | .uint8 _ => .uint8
  | .uint16 _ => .uint16
  | .uint32 _ => .uint32
  | .uint64 _ => .uint64
  | .float16 _ => .float16
  | .float32 _ => .float32
  | .float64 _ => .float64
  | .complex32 _ _ => .complex32
  | .complex64 _ _ => .complex64
  | .text _ => .text
  | .bytes bs => .bytes bs.length

/-- Bytes a stored value takes: those of its kind, or of the text itself. -/
def byteSize : Scalar → Nat
  | .text s => s.utf8ByteSize
  | s => s.kind.byteSize?.getD 0

end Scalar

end Ragged
