/-!
# Code units

A text in one of the three Unicode encodings is a list of code units: bytes, 16-bit or 32-bit words.
Each `decode` answers nothing for a list that is not well-formed, and otherwise undoes its `encode`.
Words go to bytes with the low byte first.
-/

set_option autoImplicit false

namespace Ragged

namespace Units

/-! ## UTF-8 -/

def utf8 (cs : List Char) : List UInt8 := cs.flatMap String.utf8EncodeChar

/-- A continuation byte: its six bits. -/
def continuation? (b : UInt8) : Option Nat :=
  if 0x80 ≤ b.toNat ∧ b.toNat < 0xC0 then some (b.toNat - 0x80) else none

/-- The character of a code point, if it needs as many bytes as were used for it. -/
def charAbove? (least n : Nat) : Option Char :=
  if least ≤ n ∧ n.isValidChar then some (Char.ofNat n) else none

/-- Decodes bytes. A lead byte tells how many continuation bytes follow; a character written with
more bytes than it needs is refused, and so is a surrogate. -/
def decodeUtf8 : List UInt8 → Option (List Char)
  | [] => some []
  | a :: rest =>
    let n := a.toNat
    if n < 0x80 then do return Char.ofNat n :: (← decodeUtf8 rest)
    else if n < 0xC0 then none
    else if n < 0xE0 then
      match rest with
      | b :: rest => do
        let c ← charAbove? 0x80 ((n - 0xC0) * 64 + (← continuation? b))
        return c :: (← decodeUtf8 rest)
      | _ => none
    else if n < 0xF0 then
      match rest with
      | b :: c :: rest => do
        let c ← charAbove? 0x800 (((n - 0xE0) * 64 + (← continuation? b)) * 64
          + (← continuation? c))
        return c :: (← decodeUtf8 rest)
      | _ => none
    else if n < 0xF8 then
      match rest with
      | b :: c :: d :: rest => do
        let c ← charAbove? 0x10000 ((((n - 0xF0) * 64 + (← continuation? b)) * 64
          + (← continuation? c)) * 64 + (← continuation? d))
        return c :: (← decodeUtf8 rest)
      | _ => none
    else none

/-- A byte of seven bits is a character of its own. -/
theorem decodeUtf8_lead_one {a : UInt8} (rest : List UInt8) (ha : a.toNat < 0x80) :
    decodeUtf8 (a :: rest) = (decodeUtf8 rest).map (Char.ofNat a.toNat :: ·) := by
  rw [decodeUtf8.eq_def]
  dsimp only
  rw [if_pos ha]
  cases decodeUtf8 rest <;> rfl

/-! ## UTF-16 -/

/-- One unit, or a pair of surrogates for a character outside the basic plane. -/
def utf16Char (c : Char) : List UInt16 :=
  let n := c.toNat
  if n < 0x10000 then [UInt16.ofNat n]
  else
    let m := n - 0x10000
    [UInt16.ofNat (0xD800 + m / 0x400), UInt16.ofNat (0xDC00 + m % 0x400)]

def utf16 (cs : List Char) : List UInt16 := cs.flatMap utf16Char

def isHigh (u : UInt16) : Bool := 0xD800 ≤ u.toNat && u.toNat < 0xDC00

def isLow (u : UInt16) : Bool := 0xDC00 ≤ u.toNat && u.toNat < 0xE000

/-- Decodes words; surrogates must come in pairs, the high one first. -/
def decodeUtf16 : List UInt16 → Option (List Char)
  | [] => some []
  | u :: rest =>
    if isHigh u then
      match rest with
      | v :: rest =>
        if isLow v then do
          let n := 0x10000 + (u.toNat - 0xD800) * 0x400 + (v.toNat - 0xDC00)
          return Char.ofNat n :: (← decodeUtf16 rest)
        else none
      | [] => none
    else if isLow u then none
    else do return Char.ofNat u.toNat :: (← decodeUtf16 rest)

/-! ## UTF-32 -/

def utf32 (cs : List Char) : List UInt32 := cs.map fun c => c.val

/-- Decodes words, each a code point that is a character. -/
def decodeUtf32 : List UInt32 → Option (List Char)
  | [] => some []
  | u :: rest =>
    if u.toNat.isValidChar then do return Char.ofNat u.toNat :: (← decodeUtf32 rest) else none

/-! ## Words as bytes -/

def bytes16 (u : UInt16) : List UInt8 := [UInt8.ofNat u.toNat, UInt8.ofNat (u.toNat / 256)]

def bytes32 (u : UInt32) : List UInt8 :=
  let n := u.toNat
  [UInt8.ofNat n, UInt8.ofNat (n / 256), UInt8.ofNat (n / 65536), UInt8.ofNat (n / 16777216)]

/-- Words of two bytes; a byte left over at the end is dropped. -/
def words16 : List UInt8 → List UInt16
  | a :: b :: rest => UInt16.ofNat (a.toNat + 256 * b.toNat) :: words16 rest
  | _ => []

/-- Words of four bytes; bytes left over at the end are dropped. -/
def words32 : List UInt8 → List UInt32
  | a :: b :: c :: d :: rest =>
    UInt32.ofNat (a.toNat + 256 * (b.toNat + 256 * (c.toNat + 256 * d.toNat))) :: words32 rest
  | _ => []

/-- A list without the elements at its end that satisfy a condition. -/
def dropTrailing {α : Type} (p : α → Bool) (units : List α) : List α :=
  (units.reverse.dropWhile p).reverse

end Units

end Ragged
