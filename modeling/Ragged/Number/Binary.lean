/-!
# Binary floating point

A format is given by the widths of its two fields. The bits of a number decode to a `Datum`: not a
number, an infinity, or a sign, a significand and a power of two. `round` is the way back from an
exact quotient: the nearest number of the format, a tie going to the even significand, and an
infinity beyond the greatest.

Everything here is arithmetic on naturals and integers. Addition and the like are not needed: what
the library does with floats is to compare, convert and multiply them, each time by decoding,
computing exactly and rounding once.
-/

set_option autoImplicit false

namespace Ragged

namespace Power

/-- Powers of naturals are those of the core library, whatever others an import brings along. -/
scoped instance (priority := high) natPow : Pow Nat Nat := instPowNat

end Power

open scoped Power

/-- Widths in bits of the two fields of a binary format. -/
structure Format where
  fraction : Nat
  exponent : Nat
deriving DecidableEq, Repr

namespace Format

def half : Format := ⟨10, 5⟩
def single : Format := ⟨23, 8⟩
def double : Format := ⟨52, 11⟩

/-- The power of two that the significands of the smallest numbers are multiplied by. -/
def minExponent (f : Format) : Int := 2 - (2 ^ (f.exponent - 1) : Nat) - f.fraction

/-- The bits of positive infinity: an exponent field of ones over an empty fraction. -/
def infinity (f : Format) : Nat := (2 ^ f.exponent - 1) * 2 ^ f.fraction

/-- The weight of the sign bit. -/
def signWeight (f : Format) : Nat := 2 ^ (f.fraction + f.exponent)

/-- The bits of the one number used where a result is not a number. -/
def nan (f : Format) : Nat := f.infinity + 2 ^ (f.fraction - 1)

end Format

/-- What the bits of a floating point number mean. A finite one is `significand · 2 ^ exponent`,
negated if `negative`; zero keeps its sign. -/
inductive Datum where
  | nan
  | infinite (negative : Bool)
  | finite (negative : Bool) (significand : Nat) (exponent : Int)
deriving DecidableEq, Repr

namespace Datum

/-- The exact value as a fraction, if there is one: numerator and (positive) denominator. -/
def fraction? : Datum → Option (Int × Nat)
  | .finite negative m e =>
    let n : Int := if negative then -(m * 2 ^ e.toNat : Nat) else (m * 2 ^ e.toNat : Nat)
    some (n, 2 ^ (-e).toNat)
  | _ => none

/-- The value as an integer, if it is one. -/
def integer? (d : Datum) : Option Int :=
  match d.fraction? with
  | some (n, d) => if n % (d : Int) = 0 then some (n / (d : Int)) else none
  | none => none

def isFinite : Datum → Bool
  | .finite .. => true
  | _ => false

def isNaN : Datum → Bool
  | .nan => true
  | _ => false

/-- Equality of numbers: nothing equals what is not a number, and the two zeros are equal. -/
def numEq : Datum → Datum → Bool
  | .infinite a, .infinite b => a == b
  | .finite a m e, .finite b n f =>
    match (Datum.finite a m e).fraction?, (Datum.finite b n f).fraction? with
    | some (x, p), some (y, q) => x * q == y * p
    | _, _ => false
  | _, _ => false

/-- Whether a number is above 1; infinity is, what is not a number is not. -/
def exceedsOne : Datum → Bool
  | .nan => false
  | .infinite negative => !negative
  | d@(.finite ..) =>
    match d.fraction? with
    | some (n, q) => decide ((q : Int) < n)
    | none => false

end Datum

namespace Format

/-- What bits of the format mean. -/
def decode (f : Format) (bits : Nat) : Datum :=
  let negative := bits / f.signWeight % 2 == 1
  let field := bits / 2 ^ f.fraction % 2 ^ f.exponent
  let fraction := bits % 2 ^ f.fraction
  if field = 2 ^ f.exponent - 1 then
    if fraction = 0 then .infinite negative else .nan
  else if field = 0 then .finite negative fraction f.minExponent
  else .finite negative (2 ^ f.fraction + fraction) (f.minExponent + (field - 1 : Nat))

/-- A natural number times a power of two, as a fraction. -/
def scaled (n : Nat) (e : Int) : Nat × Nat := (n * 2 ^ e.toNat, 2 ^ (-e).toNat)

/-- The bits, without sign, of the number nearest to `num / den`.

The significand is that of the unit `2 ^ e` in which the quotient takes just as many bits as the
format has, or of the least unit there is. Since one unit up in the exponent field is one
significand of such length, the bits are a sum, and a significand that rounds up to a power of two
carries into the exponent by itself, past the greatest number into infinity. -/
def roundMagnitude (f : Format) (num den : Nat) : Nat :=
  if num = 0 then 0
  else
    let guess : Int := (num.log2 : Int) - den.log2 - f.fraction - 1
    let quotient (e : Int) : Nat := num * 2 ^ (-e).toNat / (den * 2 ^ e.toNat)
    let e := if quotient guess < 2 ^ (f.fraction + 1) then guess else guess + 1
    let e := max e f.minExponent
    let top := num * 2 ^ (-e).toNat
    let bottom := den * 2 ^ e.toNat
    let q := top / bottom
    let r := top % bottom
    let q := if 2 * r > bottom ∨ (2 * r = bottom ∧ q % 2 = 1) then q + 1 else q
    min f.infinity ((e - f.minExponent).toNat * 2 ^ f.fraction + q)

/-- The number of the format nearest to `± num / den`, as bits. -/
def round (f : Format) (negative : Bool) (num den : Nat) : Nat :=
  f.roundMagnitude num den + if negative then f.signWeight else 0

/-- The number of the format nearest to what was decoded from another. -/
def ofDatum (f : Format) : Datum → Nat
  | .nan => f.nan
  | .infinite negative => f.infinity + if negative then f.signWeight else 0
  | .finite negative m e =>
    let (num, den) := scaled m e
    f.round negative num den

end Format

/-- A number of 64 bits: one sign, 11 exponent and 52 fraction bits. -/
structure Binary64 where
  bits : UInt64
deriving DecidableEq, Repr, Inhabited

/-- A number of 32 bits: one sign, 8 exponent and 23 fraction bits. -/
structure Binary32 where
  bits : UInt32
deriving DecidableEq, Repr, Inhabited

/-- A number of 16 bits: one sign, 5 exponent and 10 fraction bits. -/
structure Binary16 where
  bits : UInt16
deriving DecidableEq, Repr, Inhabited

namespace Binary64

def datum (x : Binary64) : Datum := Format.double.decode x.bits.toNat

def ofDatum (d : Datum) : Binary64 := ⟨UInt64.ofNat (Format.double.ofDatum d)⟩

/-- Positive zero. -/
def zero : Binary64 := ⟨0⟩

def isFinite (x : Binary64) : Bool := x.datum.isFinite

def isNaN (x : Binary64) : Bool := x.datum.isNaN

/-- Equality of numbers, not of bits. -/
def numEq (x y : Binary64) : Bool := x.datum.numEq y.datum

/-- Whether the number is one of the two zeros. -/
def isZero (x : Binary64) : Bool := x.numEq zero

/-- The value as an integer, if it is one. -/
def integer? (x : Binary64) : Option Int := x.datum.integer?

/-- The nearest number to a quotient. -/
def ofQuotient (negative : Bool) (num den : Nat) : Binary64 :=
  ⟨UInt64.ofNat (Format.double.round negative num den)⟩

/-- The nearest number to an integer. -/
def ofInt (i : Int) : Binary64 := ofQuotient (decide (i < 0)) i.natAbs 1

/-- The number that is exactly an integer, if there is one. -/
def ofInt? (i : Int) : Option Binary64 :=
  let x := ofInt i
  if x.integer? = some i then some x else none

/-- The product, rounded. -/
def mul (x y : Binary64) : Binary64 :=
  match x.datum, y.datum with
  | .nan, _ | _, .nan => ofDatum .nan
  | .infinite a, .infinite b => ofDatum (.infinite (a != b))
  | .infinite a, .finite b m _ | .finite b m _, .infinite a =>
    if m = 0 then ofDatum .nan else ofDatum (.infinite (a != b))
  | .finite a m e, .finite b n g => ofDatum (.finite (a != b) (m * n) (e + g))

/-- The quotient of two finite numbers, the second of them not zero, rounded. -/
def quotient (x y : Binary64) : Binary64 :=
  match x.datum, y.datum with
  | .finite a m e, .finite b n g =>
    let (num, den) := Format.scaled m e
    let (num', den') := Format.scaled n g
    ofQuotient (a != b) (num * den') (den * num')
  | _, _ => ofDatum .nan

def neg (x : Binary64) : Binary64 := ⟨x.bits ^^^ 0x8000000000000000⟩

/-- The least integer not below the number, brought into the range of 64 bits without sign; zero for
what is not a number. -/
def ceilSize (x : Binary64) : Nat :=
  match x.datum with
  | .nan => 0
  | .infinite negative => if negative then 0 else 0xFFFFFFFFFFFFFFFF
  | .finite negative m e =>
    if negative then 0
    else
      let (num, den) := Format.scaled m e
      min ((num + den - 1) / den) 0xFFFFFFFFFFFFFFFF

/-- The nearest number of 32 bits. -/
def toBinary32 (x : Binary64) : Binary32 := ⟨UInt32.ofNat (Format.single.ofDatum x.datum)⟩

/-- The number of 16 bits that `f16::from_f64` of the package `half` makes of a number. That package
is no part of this library, and this is what is assumed of it where no processor instruction does
the work: the lower half of the bits is cleared, and what is left goes to the nearest number of 16
bits, a tie to the even one, and to an infinity beyond the greatest; what is not a number stays none.
So a number just above the middle of two neighbours may count as the middle. -/
def toBinary16 (x : Binary64) : Binary16 :=
  match x.datum with
  | .nan => ⟨UInt16.ofNat Format.half.nan⟩
  | _ =>
    let cleared : Binary64 := ⟨x.bits &&& 0xFFFFFFFF00000000⟩
    ⟨UInt16.ofNat (Format.half.ofDatum cleared.datum)⟩

end Binary64

namespace Binary32

def datum (x : Binary32) : Datum := Format.single.decode x.bits.toNat

def isFinite (x : Binary32) : Bool := x.datum.isFinite

def isNaN (x : Binary32) : Bool := x.datum.isNaN

/-- The same number in 64 bits. -/
def toBinary64 (x : Binary32) : Binary64 := .ofDatum x.datum

end Binary32

namespace Binary16

def datum (x : Binary16) : Datum := Format.half.decode x.bits.toNat

def isFinite (x : Binary16) : Bool := x.datum.isFinite

def isNaN (x : Binary16) : Bool := x.datum.isNaN

/-- The same number in 64 bits. -/
def toBinary64 (x : Binary16) : Binary64 := .ofDatum x.datum

end Binary16

end Ragged
