import Ragged.Entries

/-!
# JSON documents

A document is a tree whose objects keep the order of their members: a member that repeats a name
takes the place of the first and the value of the last. Numbers keep their digits, since it is for
the reader of a document to say what a number with a point or an exponent stands for.

`parse` reads a whole text and answers nothing if it is no document; `render` writes the compact
form, without blanks.
-/

set_option autoImplicit false

namespace Ragged

/-- The value of a hexadecimal digit; its letters may be small or capital. -/
def hexDigit? (c : Char) : Option Nat :=
  if c.isDigit then some (c.toNat - 48)
  else if 'a' ≤ c ∧ c ≤ 'f' then some (c.toNat - 87)
  else if 'A' ≤ c ∧ c ≤ 'F' then some (c.toNat - 55)
  else none

/-- A number as it is written: its digits before the point and behind it, and its power of ten.
No point is not the same as a point with nothing behind it, and likewise for the exponent. -/
structure Numeral where
  negative : Bool
  whole : List Nat
  fraction : Option (List Nat)
  exponent : Option Int
deriving DecidableEq, Repr, Inhabited

inductive Json where
  | null
  | bool (b : Bool)
  | number (n : Numeral)
  | string (s : String)
  | array (items : List Json)
  | object (members : List (String × Json))
deriving Inhabited

namespace Numeral

def digitsValue (digits : List Nat) : Nat := digits.foldl (fun n d => n * 10 + d) 0

/-- The integer a numeral writes, if it has neither a point nor an exponent. -/
def int? (n : Numeral) : Option Int :=
  match n.fraction, n.exponent with
  | none, none =>
    let m : Int := digitsValue n.whole
    some (if n.negative then -m else m)
  | _, _ => none

def ofInt (i : Int) : Numeral :=
  ⟨decide (i < 0), (Nat.toDigits 10 i.natAbs).map (fun c => c.toNat - 48), none, none⟩

end Numeral

namespace Json

def ofInt (i : Int) : Json := .number (.ofInt i)

def ofNat (n : Nat) : Json := ofInt n

def member? (name : String) : Json → Option Json
  | .object members => members.lookup name
  | _ => none

/-! ## Writing -/

def hex4 (n : Nat) : String :=
  let digits := Nat.toDigits 16 n
  "".pushn '0' (4 - digits.length) ++ String.ofList digits

/-- A character inside quotes. -/
def escaped (c : Char) : String :=
  match c with
  | '"' => "\\\""
  | '\\' => "\\\\"
  | '\n' => "\\n"
  | '\r' => "\\r"
  | '\t' => "\\t"
  | '\x08' => "\\b"
  | '\x0c' => "\\f"
  | c => if c.toNat < 32 then "\\u" ++ hex4 c.toNat else c.toString

def quote (s : String) : String :=
  s.toList.foldl (fun out c => out ++ escaped c) "\"" ++ "\""

/-- A numeral in the form it was read. -/
def renderNumeral (n : Numeral) : String :=
  let digits (ds : List Nat) : String := String.join (ds.map toString)
  (if n.negative then "-" else "") ++ digits n.whole
    ++ (match n.fraction with | none => "" | some ds => "." ++ digits ds)
    ++ (match n.exponent with | none => "" | some e => "e" ++ toString e)

mutual

/-- Writes a document behind what is already written. -/
def write (out : String) : Json → String
  | .null => out ++ "null"
  | .bool true => out ++ "true"
  | .bool false => out ++ "false"
  | .number n => out ++ renderNumeral n
  | .string s => out ++ quote s
  | .array items => writeItems (out ++ "[") "" items ++ "]"
  | .object members => writeMembers (out ++ "\x7b") "" members ++ "\x7d"

/-- Writes items, each but the first behind a comma; `before` is what stands before the next. -/
def writeItems (out before : String) : List Json → String
  | [] => out
  | item :: rest => writeItems (write (out ++ before) item) "," rest

def writeMembers (out before : String) : List (String × Json) → String
  | [] => out
  | (name, value) :: rest =>
    writeMembers (write (out ++ before ++ quote name ++ ":") value) "," rest

end

def render (doc : Json) : String := write "" doc

/-! ## Reading -/

/-- What a reader yields: a result and the characters left. -/
abbrev Read (α : Type) := α × List Char

def isBlank (c : Char) : Bool := c == ' ' || c == '\n' || c == '\r' || c == '\t'

def skipBlank (cs : List Char) : List Char := cs.dropWhile isBlank

/-- The code unit written by four hexadecimal digits. -/
def unit? (a b c d : Char) : Option Nat := do
  return (((← hexDigit? a) * 16 + (← hexDigit? b)) * 16 + (← hexDigit? c)) * 16 + (← hexDigit? d)

/-- The character a code point names, unless it is a surrogate or out of range. -/
def char? (n : Nat) : Option Char := if n.isValidChar then some (Char.ofNat n) else none

/-- Reads the inside of a string up to its closing quote. Characters outside the basic plane may be
escaped as a pair of surrogates; a surrogate alone is refused. -/
def readString (seen : List Char) : List Char → Option (Read String)
  | [] => none
  | '"' :: rest => some (String.ofList seen.reverse, rest)
  | '\\' :: 'u' :: a :: b :: c :: d :: rest =>
    match unit? a b c d with
    | none => none
    | some unit =>
      if 0xD800 ≤ unit ∧ unit < 0xDC00 then
        match rest with
        | '\\' :: 'u' :: a :: b :: c :: d :: rest =>
          match unit? a b c d with
          | none => none
          | some low =>
            if 0xDC00 ≤ low ∧ low < 0xE000 then
              readString (Char.ofNat (0x10000 + (unit - 0xD800) * 0x400 + (low - 0xDC00)) :: seen)
                rest
            else none
        | _ => none
      else
        match char? unit with
        | some c => readString (c :: seen) rest
        | none => none
  | '\\' :: c :: rest =>
    match c with
    | '"' => readString ('"' :: seen) rest
    | '\\' => readString ('\\' :: seen) rest
    | '/' => readString ('/' :: seen) rest
    | 'b' => readString ('\x08' :: seen) rest
    | 'f' => readString ('\x0c' :: seen) rest
    | 'n' => readString ('\n' :: seen) rest
    | 'r' => readString ('\r' :: seen) rest
    | 't' => readString ('\t' :: seen) rest
    | _ => none
  | c :: rest => if c.toNat < 32 then none else readString (c :: seen) rest

def readDigits (cs : List Char) : Read (List Nat) :=
  let digits := cs.takeWhile Char.isDigit
  (digits.map (fun c => c.toNat - 48), cs.drop digits.length)

/-- Digits before the point: no zero stands in front of others. -/
def readWhole (cs : List Char) : Option (Read (List Nat)) :=
  match readDigits cs with
  | ([], _) => none
  | (0 :: _ :: _, _) => none
  | r => some r

/-- The part of a number behind its whole digits: a point and digits, then an exponent. -/
def readFraction : List Char → Option (Read (Option (List Nat)))
  | '.' :: rest =>
    match readDigits rest with
    | ([], _) => none
    | (ds, rest) => some (some ds, rest)
  | rest => some (none, rest)

def readExponent (cs : List Char) : Option (Read (Option Int)) :=
  let digits (sign : Int) (cs : List Char) : Option (Read (Option Int)) :=
    match readDigits cs with
    | ([], _) => none
    | (ds, rest) => some (some (sign * Numeral.digitsValue ds), rest)
  match cs with
  | c :: rest =>
    if c = 'e' ∨ c = 'E' then
      match rest with
      | '+' :: rest => digits 1 rest
      | '-' :: rest => digits (-1) rest
      | rest => digits 1 rest
    else some (none, cs)
  | [] => some (none, [])

def readNumber (negative : Bool) (cs : List Char) : Option (Read Json) := do
  let (whole, cs) ← readWhole cs
  let (fraction, cs) ← readFraction cs
  let (exponent, cs) ← readExponent cs
  return (.number ⟨negative, whole, fraction, exponent⟩, cs)

/-! The readers of nested documents are given a number of steps. Each character can account for two:
one for the value it begins and one for the list it opens or continues. -/

mutual

def readValue : Nat → List Char → Option (Read Json)
  | 0, _ => none
  | n + 1, cs =>
    match skipBlank cs with
    | 'n' :: 'u' :: 'l' :: 'l' :: rest => some (.null, rest)
    | 't' :: 'r' :: 'u' :: 'e' :: rest => some (.bool true, rest)
    | 'f' :: 'a' :: 'l' :: 's' :: 'e' :: rest => some (.bool false, rest)
    | '"' :: rest => (readString [] rest).map fun (s, rest) => (.string s, rest)
    | '-' :: rest => readNumber true rest
    | '[' :: rest =>
      match skipBlank rest with
      | ']' :: rest => some (.array [], rest)
      | rest => readItems n [] rest
    | '{' :: rest =>
      match skipBlank rest with
      | '}' :: rest => some (.object [], rest)
      | rest => readMembers n [] rest
    | rest => readNumber false rest

/-- Items up to the closing bracket; those already read stand in `seen`, last one first. -/
def readItems : Nat → List Json → List Char → Option (Read Json)
  | 0, _, _ => none
  | n + 1, seen, cs =>
    match readValue n cs with
    | none => none
    | some (item, rest) =>
      match skipBlank rest with
      | ',' :: rest => readItems n (item :: seen) rest
      | ']' :: rest => some (.array (item :: seen).reverse, rest)
      | _ => none

def readMembers : Nat → List (String × Json) → List Char → Option (Read Json)
  | 0, _, _ => none
  | n + 1, seen, cs =>
    match skipBlank cs with
    | '"' :: rest =>
      match readString [] rest with
      | none => none
      | some (name, rest) =>
        match skipBlank rest with
        | ':' :: rest =>
          match readValue n rest with
          | none => none
          | some (value, rest) =>
            match skipBlank rest with
            | ',' :: rest => readMembers n (Entries.put seen name value) rest
            | '}' :: rest => some (.object (Entries.put seen name value), rest)
            | _ => none
        | _ => none
    | _ => none

end

def parse (text : String) : Option Json :=
  match readValue (2 * text.length + 2) text.toList with
  | some (doc, rest) => if (skipBlank rest).isEmpty then some doc else none
  | none => none

end Json

end Ragged
