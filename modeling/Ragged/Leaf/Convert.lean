import Ragged.Leaf.Text
import Ragged.Number.Decimal

/-!
# Scalars in leaves

A scalar of the input is stored in a leaf only if the leaf can hold it. Integers and truth values
must come out exactly. A float may be rounded to fewer bits, but a finite one must stay finite; a
complex number is a real one if its imaginary part is zero.
-/

set_option autoImplicit false

namespace Ragged

namespace ScalarKind

/-- The kind of column scalars of this kind are stored in. -/
def elementKind : ScalarKind → ElementKind
  | .bool => .bool
  | .int8 => .int8
  | .int16 => .int16
  | .int32 => .int32
  | .int64 => .int64
  | .uint8 => .uint8
  | .uint16 => .uint16
  | .uint32 => .uint32
  | .uint64 => .uint64
  | .float16 => .float16
  | .float32 => .float32
  | .float64 => .float64
  | .cfloat32 => .complex32
  | .cfloat64 => .complex64

end ScalarKind

namespace Atom

/-- The text of a scalar in messages. -/
def render : Atom → String
  | .bool b => toString b
  | .int i => toString i
  | .float x => x.render
  | .complex re im => re.render ++ im.renderSigned ++ "im"
  | .text s => quoted s

/-- The integer a scalar denotes, if it denotes one. -/
def integer? : Atom → Option Int
  | .bool b => some (if b then 1 else 0)
  | .int i => some i
  | .float x => x.integer?
  | .complex re im => if im.isZero then re.integer? else none
  | .text _ => none

/-- The real number a scalar denotes, as a float. An integer must be one exactly. -/
def real? : Atom → Option Binary64
  | .bool b => Binary64.ofInt? (if b then 1 else 0)
  | .int i => Binary64.ofInt? i
  | .float x => some x
  | .complex re im => if im.isZero then some re else none
  | .text _ => none

/-- The complex number a scalar denotes. -/
def complex? : Atom → Option (Binary64 × Binary64)
  | .complex re im => some (re, im)
  | .text _ => none
  | a => a.real?.map (·, .zero)

end Atom

namespace Binary64

/-- The nearest number of 32 bits, unless that makes a finite number infinite. -/
def narrow32? (x : Binary64) : Option Binary32 :=
  let y := x.toBinary32
  if y.isFinite || !x.isFinite then some y else none

/-- The nearest number of 16 bits, unless that makes a finite number infinite. -/
def narrow16? (x : Binary64) : Option Binary16 :=
  let y := x.toBinary16
  if y.isFinite || !x.isFinite then some y else none

end Binary64

namespace ScalarKind

/-- Least integer of an integer kind, and the first above its greatest. -/
def bounds : ScalarKind → Int × Int
  | .int8 => (-0x80, 0x80)
  | .int16 => (-0x8000, 0x8000)
  | .int32 => (-0x80000000, 0x80000000)
  | .int64 => (-0x8000000000000000, 0x8000000000000000)
  | .uint8 => (0, 0x100)
  | .uint16 => (0, 0x10000)
  | .uint32 => (0, 0x100000000)
  | .uint64 => (0, 0x10000000000000000)
  | _ => (0, 0)

/-- The integer a scalar denotes, if it lies in the range of the kind. -/
def inRange? (k : ScalarKind) (a : Atom) : Option Int :=
  match a.integer? with
  | some i => if k.bounds.1 ≤ i ∧ i < k.bounds.2 then some i else none
  | none => none

/-- A scalar as a leaf of this kind stores it, if it can. -/
def represent? (k : ScalarKind) (a : Atom) : Option Scalar :=
  match k with
  | .bool =>
    match a with
    | .bool b => some (.bool b)
    | .int 0 => some (.bool false)
    | .int 1 => some (.bool true)
    | _ => none
  | .int8 => (k.inRange? a).map fun i => .int8 (Int8.ofInt i)
  | .int16 => (k.inRange? a).map fun i => .int16 (Int16.ofInt i)
  | .int32 => (k.inRange? a).map fun i => .int32 (Int32.ofInt i)
  | .int64 => (k.inRange? a).map fun i => .int64 (Int64.ofInt i)
  | .uint8 => (k.inRange? a).map fun i => .uint8 (UInt8.ofNat i.toNat)
  | .uint16 => (k.inRange? a).map fun i => .uint16 (UInt16.ofNat i.toNat)
  | .uint32 => (k.inRange? a).map fun i => .uint32 (UInt32.ofNat i.toNat)
  | .uint64 => (k.inRange? a).map fun i => .uint64 (UInt64.ofNat i.toNat)
  | .float16 => (a.real?.bind (·.narrow16?)).map .float16
  | .float32 => (a.real?.bind (·.narrow32?)).map .float32
  | .float64 => a.real?.map .float64
  | .cfloat32 =>
    match a.complex? with
    | some (re, im) =>
      match re.narrow32?, im.narrow32? with
      | some re, some im => some (.complex32 re im)
      | _, _ => none
    | none => none
  | .cfloat64 => a.complex?.map fun (re, im) => .complex64 re im

end ScalarKind

/-- A scalar as a leaf of the given type stores it. -/
def LeafType.store [Machine] (leaf : LeafType) (a : Atom) : Except BuildError Scalar :=
  match leaf with
  | .scalar kind =>
    match kind.represent? a with
    | some s => .ok s
    | none => .error (.type (.lossy a.typeName a.render kind.name))
  | .string t =>
    match a with
    | .text s => t.encode s
    | a => .error (.type (.lossy a.typeName a.render t.render))
  | .struct fields =>
    .error (.type (.scalarAsRecord (Struct.render fields) a.typeName))

/-- A stored scalar as a value. Byte strings are texts in the encoding of their leaf type. -/
def LeafType.load (leaf : LeafType) (s : Scalar) : Except BuildError Atom :=
  match s with
  | .bool b => .ok (.bool b)
  | .int8 i => .ok (.int i.toInt)
  | .int16 i => .ok (.int i.toInt)
  | .int32 i => .ok (.int i.toInt)
  | .int64 i => .ok (.int i.toInt)
  | .uint8 n => .ok (.int n.toNat)
  | .uint16 n => .ok (.int n.toNat)
  | .uint32 n => .ok (.int n.toNat)
  | .uint64 n => .ok (.int n.toNat)
  | .float16 x => .ok (.float x.toBinary64)
  | .float32 x => .ok (.float x.toBinary64)
  | .float64 x => .ok (.float x)
  | .complex32 re im => .ok (.complex re.toBinary64 im.toBinary64)
  | .complex64 re im => .ok (.complex re im)
  | .text t => .ok (.text t)
  | .bytes bs =>
    let encoding := match leaf with
      | .string t => t.encoding
      | _ => .utf8
    (encoding.decode bs).map .text

end Ragged
