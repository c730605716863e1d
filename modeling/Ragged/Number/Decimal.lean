import Ragged.Document.Json
import Ragged.Number.Binary

/-!
# Decimal numerals and binary numbers

`shortest` finds the fewest decimal digits that still name a given number rather than its
neighbours, and among numerals of that length the one nearest to it. `Binary64.render` writes them
out without an exponent. In the other direction `nearest` is the number closest to a numeral,
whatever its length, and `nearestOfPrefix` is the quicker reading that JSON documents get.
-/

set_option autoImplicit false

namespace Ragged

open scoped Power

namespace Decimal

/-- A decimal numeral `digits · 10 ^ exponent`. -/
structure Digits where
  digits : Nat
  exponent : Int
deriving DecidableEq, Repr

/-- The quotient `num / den`, cut down to the grid of multiples of `10 ^ k`. -/
def onGrid (num den : Nat) (k : Int) : Nat := num * 10 ^ (-k).toNat / (den * 10 ^ k.toNat)

/-- The power of ten of the first digit of `num / den`, given a value that is at most one off. -/
def leading (num den : Nat) (guess : Int) : Int :=
  if onGrid num den (guess + 1) ≠ 0 then guess + 1
  else if onGrid num den guess ≠ 0 then guess
  else guess - 1

/-- The power of ten of the first digit of `num / den`. The logarithm to base 2 times 30103/100000
is near enough for one step either way. -/
def magnitude (num den : Nat) : Int :=
  leading num den ((((num.log2 : Int) - den.log2) * 30103) / 100000)

/-- Whether `digits · 10 ^ k` lies between two bounds with a common denominator, ends included or
not. -/
def between (low high den : Nat) (ends : Bool) (digits : Nat) (k : Int) : Bool :=
  let x := digits * 10 ^ k.toNat * den
  let l := low * 10 ^ (-k).toNat
  let h := high * 10 ^ (-k).toNat
  if ends then l ≤ x && x ≤ h else l < x && x < h

/-- The numeral on the grid of `count` digits that lies within the bounds. If two do it is the
nearer to the value, and the greater if they are equally near. -/
def onGridWithin? (value low high den : Nat) (ends : Bool) (first : Int) (count : Nat) :
    Option Digits :=
  let k := first - (count : Int) + 1
  let below := onGrid value den k
  let above := below + 1
  let x := value * 10 ^ (-k).toNat
  let unit := 10 ^ k.toNat * den
  match between low high den ends below k, between low high den ends above k with
  | true, true => some ⟨if x - below * unit < above * unit - x then below else above, k⟩
  | true, false => some ⟨below, k⟩
  | false, true => some ⟨above, k⟩
  | false, false => none

/-- The first grid, from `count` digits on, that has a numeral within the bounds. -/
def search (value low high den : Nat) (ends : Bool) (first : Int) : (tries count : Nat) → Digits
  | 0, count =>
    let k := first - (count : Int) + 1
    ⟨onGrid value den k, k⟩
  | tries + 1, count =>
    (onGridWithin? value low high den ends first count).getD
      (search value low high den ends first tries (count + 1))

/-- The shortest numeral that names `m · 2 ^ e`, a positive number of 64 bits.

It may be anything that rounds to the number: up to half a unit away, but below a power of two only
a quarter, as units are half as large there. All is taken four times, to stay with integers. A
number exactly at the end of that range rounds to the even significand. -/
def shortest (m : Nat) (e : Int) : Digits :=
  let (num, den) := Format.scaled 1 e
  let gapBelow := if m = 0x10000000000000 ∧ Format.double.minExponent < e then 1 else 2
  let value := 4 * m * num
  let low := (4 * m - gapBelow) * num
  let high := (4 * m + 2) * num
  let den := 4 * den
  search value low high den (m % 2 == 0) (magnitude value den) 17 1

/-- Digits in positional notation: no exponent, and no point behind an integer. -/
def Digits.render (d : Digits) : String :=
  if 0 ≤ d.exponent then toString d.digits ++ "".pushn '0' d.exponent.toNat
  else
    let places := (-d.exponent).toNat
    let text := toString d.digits
    let text := "".pushn '0' (places + 1 - text.length) ++ text
    let cs := text.toList
    let fraction := (cs.drop (cs.length - places)).reverse.dropWhile (· == '0') |>.reverse
    let whole := String.ofList (cs.take (cs.length - places))
    if fraction.isEmpty then whole else whole ++ "." ++ String.ofList fraction

/-! ## From numerals to numbers -/

/-- The number nearest to `± digits · 10 ^ exponent`. Exponents so far out that the result must be
zero or infinite are brought nearer first, so that the powers of ten stay small. -/
def nearest (negative : Bool) (digits : Nat) (exponent : Int) : Binary64 :=
  if digits = 0 then .ofQuotient negative 0 1
  else
    let size : Int := (Nat.toDigits 10 digits).length
    if 400 < exponent + size then .ofDatum (.infinite negative)
    else if exponent + size < -400 then .ofQuotient negative 0 1
    else .ofQuotient negative (digits * 10 ^ exponent.toNat) (10 ^ (-exponent).toNat)

/-- The power of ten as a number. -/
def power (n : Nat) : Binary64 := nearest false 1 n

/-- Takes digits into a significand of 64 bits for as long as it can hold them; what is left over
stays behind. -/
def fill (significand : Nat) : List Nat → Nat × List Nat
  | [] => (significand, [])
  | d :: rest =>
    let next := significand * 10 + d
    if next < 0x10000000000000000 then fill next rest else (significand, d :: rest)

/-- Divides by `10 ^ 308` until the power of ten left is at most that, then once more by the rest.
-/
def divide (x : Binary64) : (steps : Nat) → (n : Nat) → Binary64
  | 0, _ => x
  | steps + 1, n =>
    if n ≤ 308 then x.quotient (power n)
    else if x.isZero then x
    else divide (x.quotient (power 308)) steps (n - 308)

/-- The number a JSON numeral stands for. The digits that fit 64 bits are rounded to a number first,
which is then multiplied or divided by a power of ten, itself rounded; digits beyond that count only
by their places before the point. With at most fifteen digits and small exponents, that is the
nearest number, and otherwise it may be its neighbour. Nothing if it is beyond all numbers. -/
def nearestOfPrefix (n : Numeral) : Option Binary64 :=
  let fraction := n.fraction.getD []
  let (m, dropped) := fill 0 n.whole
  let (m, left) := fill m fraction
  let shift : Int := (dropped.length : Int) - (fraction.length - left.length : Nat)
  let exponent := shift + n.exponent.getD 0
  let x := Binary64.ofInt m
  let x :=
    if 0 ≤ exponent then
      if m = 0 then some x
      else if 308 < exponent then none
      else
        let y := x.mul (power exponent.toNat)
        if y.isFinite then some y else none
    else some (divide x ((-exponent).toNat / 308 + 1) (-exponent).toNat)
  x.map fun x => if n.negative then x.neg else x

end Decimal

namespace Binary64

/-- The text of a number in messages: the shortest digits that name it, in positional notation. -/
def render (x : Binary64) : String :=
  match x.datum with
  | .nan => "NaN"
  | .infinite negative => if negative then "-inf" else "inf"
  | .finite negative m e =>
    (if negative then "-" else "") ++ if m = 0 then "0" else (Decimal.shortest m e).render

/-- The text of a number with its sign always shown, as far as it has one. -/
def renderSigned (x : Binary64) : String :=
  match x.datum with
  | .nan | .infinite true | .finite true .. => x.render
  | _ => "+" ++ x.render

end Binary64

end Ragged
