import Ragged.Error
import Ragged.Text.Quoted
import Ragged.Text.Units
import Ragged.Type.Printer
import Ragged.Value.Basic

/-!
# Texts in string leaves

A string of any length is stored as it is. One of fixed width is stored as its code units, the low
byte of each first, filled up with zeros to the width; reading it back drops all zero units at its
end, so a text that ends in the character zero comes back shorter, and no other does.

The width is the one number in a type that is multiplied before anything is known of the data. How a
machine does that is a parameter (`Machine`).
-/

set_option autoImplicit false

namespace Ragged

/-! ## Sizes -/

/-- Sizes are counted in 64 bits. -/
def sizeLimit : Nat := 0x10000000000000000

/-- The number of bytes that a machine finds for so many units of one size. It is right if it can be
counted. From `sizeLimit` on it is up to the machine; one that stops there finds none at all, and of
such nothing is said. -/
class Machine where
  bytes : Nat → Nat → Nat
  bytes_of_lt {units size : Nat} (h : units * size < sizeLimit) : bytes units size = units * size

namespace Machine

/-- The machine that can count everything. It is meant wherever none is named, and this is the one
place where something is assumed of sizes: a string of fixed width has fewer bytes than `sizeLimit`.
Then it makes no difference which machine counts them (`LeafType.store_of_fits`). -/
instance unbounded : Machine := ⟨(· * ·), fun _ => rfl⟩

/-- The machine that keeps of a product what fits into 64 bits. -/
@[reducible]
def wrapping : Machine := ⟨fun units size => units * size % sizeLimit, Nat.mod_eq_of_lt⟩

end Machine

/-! ## Code units -/

namespace Encoding

/-- The code units of a text, as bytes. ASCII is the part of UTF-8 with one byte to a character. -/
def bytes (e : Encoding) (text : String) : List UInt8 :=
  match e with
  | .ascii | .utf8 => Units.utf8 text.toList
  | .utf16 => (Units.utf16 text.toList).flatMap Units.bytes16
  | .utf32 => (Units.utf32 text.toList).flatMap Units.bytes32

/-- The text of stored code units, without the zero units at their end. Bytes that do not make up a
unit are left out. -/
def text? (e : Encoding) (bs : List UInt8) : Option String :=
  let cs :=
    match e with
    | .ascii | .utf8 => Units.decodeUtf8 (Units.dropTrailing (· == 0) bs)
    | .utf16 => Units.decodeUtf16 (Units.dropTrailing (· == 0) (Units.words16 bs))
    | .utf32 => Units.decodeUtf32 (Units.dropTrailing (· == 0) (Units.words32 bs))
  cs.map String.ofList

/-- The text of stored code units, or the error that they are none. -/
def decode (e : Encoding) (bs : List UInt8) : Except BuildError String :=
  match e.text? bs with
  | some text => .ok text
  | none => .error (.layout (.invalidText e.name))

end Encoding

/-- A list of just so many bytes: what is too much is cut off, and what is missing is zero. -/
def Units.resize (size : Nat) (bs : List UInt8) : List UInt8 :=
  bs.take size ++ List.replicate (size - bs.length) 0

namespace StringType

/-- The kind of column texts of this type are stored in. -/
def elementKind [Machine] (t : StringType) : ElementKind :=
  match t.width with
  | some width => .bytes (Machine.bytes width t.encoding.unitSize)
  | none => .text

/-- A text as it is stored. -/
def encode [Machine] (t : StringType) (text : String) : Except BuildError Scalar :=
  if t.encoding = .ascii ∧ ¬ text.toList.all (·.toNat < 128) then
    .error (.type (.notAscii (quoted text)))
  else
    match t.width with
    | none => .ok (.text text)
    | some width =>
      let bs := t.encoding.bytes text
      let units := bs.length / t.encoding.unitSize
      if width < units then .error (.type (.textTooLong (quoted text) units width))
      else .ok (.bytes (Units.resize (Machine.bytes width t.encoding.unitSize) bs))

end StringType

end Ragged
