import Ragged.Document.Json
import Ragged.Document.Table
import Ragged.Number.Decimal

/-!
# Documents of settings

A document of settings is written in TOML, as of version 1.1: lines of the form `key = value`, and
headers of tables which the lines that follow fill. A value is a string, an integer, a float, an
array or a table. What else TOML has (dates, truth values, arrays of tables that have headers) is no
setting, and a document that uses it is refused along with one that is not well-formed; so is one
that sets a key twice.

A line ends with a newline, in front of which a carriage return may stand; a carriage return stands
nowhere else. Strings of several lines keep their line ends as they are written.
-/

set_option autoImplicit false

namespace Ragged

namespace Settings

/-- What a reader yields: a result and the characters left. -/
abbrev Read (α : Type) := α × List Char

def isBlank (c : Char) : Bool := c == ' ' || c == '\t'

def skipBlank (cs : List Char) : List Char := cs.dropWhile isBlank

/-- Characters that may stand in comments and strings: control characters may not, the tabulator
apart. -/
def isPlain (c : Char) : Bool := c == '\t' || (32 ≤ c.toNat && c.toNat != 127)

/-- The next line, if no more than blanks and a comment are left of this one. -/
def nextLine? (cs : List Char) : Option (List Char) :=
  let rest := match skipBlank cs with
    | '#' :: rest => rest.dropWhile isPlain
    | rest => rest
  match rest with
  | [] => some []
  | '\n' :: rest => some rest
  | '\r' :: '\n' :: rest => some rest
  | _ => none

/-- Passes over blanks, line ends and comments; there are no more lines than the first argument
says. -/
def skipLines : Nat → List Char → List Char
  | 0, cs => skipBlank cs
  | n + 1, cs =>
    match nextLine? cs with
    | some rest => skipLines n rest
    | none => skipBlank cs

/-! ## Strings -/

/-- The character whose code point some hexadecimal digits write. -/
def hexChar? (digits : List Char) : Option Char := do
  let n ← digits.foldlM (fun n c => return n * 16 + (← hexDigit? c)) 0
  if n.isValidChar then some (Char.ofNat n) else none

/-- The character a backslash and a letter stand for. -/
def escape? : Char → Option Char
  | 'b' => some '\x08'
  | 'e' => some '\x1b'
  | 't' => some '\t'
  | 'n' => some '\n'
  | 'f' => some '\x0c'
  | 'r' => some '\r'
  | '"' => some '"'
  | '\\' => some '\\'
  | _ => none

/-- Reads a string within one line up to its closing quote; `seen` holds what was read, last
character first. -/
def readBasic (seen : List Char) : List Char → Option (Read String)
  | [] => none
  | '"' :: rest => some (String.ofList seen.reverse, rest)
  | '\\' :: 'x' :: a :: b :: rest =>
    match hexChar? [a, b] with
    | some c => readBasic (c :: seen) rest
    | none => none
  | '\\' :: 'u' :: a :: b :: c :: d :: rest =>
    match hexChar? [a, b, c, d] with
    | some c => readBasic (c :: seen) rest
    | none => none
  | '\\' :: 'U' :: a :: b :: c :: d :: e :: f :: g :: h :: rest =>
    match hexChar? [a, b, c, d, e, f, g, h] with
    | some c => readBasic (c :: seen) rest
    | none => none
  | '\\' :: c :: rest =>
    match escape? c with
    | some c => readBasic (c :: seen) rest
    | none => none
  | c :: rest => if isPlain c then readBasic (c :: seen) rest else none

/-- Reads a string in single quotes, in which nothing is escaped. -/
def readLiteral (cs : List Char) : Option (Read String) :=
  let body := cs.takeWhile fun c => isPlain c && c != '\''
  match cs.drop body.length with
  | '\'' :: rest => some (String.ofList body, rest)
  | _ => none

def startsWithLineEnd : List Char → Bool
  | '\n' :: _ => true
  | '\r' :: '\n' :: _ => true
  | _ => false

/-- Reads a string of several lines up to three quotes; up to two more in front of them belong to
it. A backslash as the last mark of a line hides blanks and line ends up to the next mark, which is
what `hidden` is for. -/
def readBasicLines (hidden : Bool) (seen : List Char) : List Char → Option (Read String)
  | [] => none
  | '"' :: '"' :: '"' :: '"' :: '"' :: rest =>
    some (String.ofList ('"' :: '"' :: seen).reverse, rest)
  | '"' :: '"' :: '"' :: '"' :: rest => some (String.ofList ('"' :: seen).reverse, rest)
  | '"' :: '"' :: '"' :: rest => some (String.ofList seen.reverse, rest)
  | '\\' :: 'x' :: a :: b :: rest =>
    match hexChar? [a, b] with
    | some c => readBasicLines false (c :: seen) rest
    | none => none
  | '\\' :: 'u' :: a :: b :: c :: d :: rest =>
    match hexChar? [a, b, c, d] with
    | some c => readBasicLines false (c :: seen) rest
    | none => none
  | '\\' :: 'U' :: a :: b :: c :: d :: e :: f :: g :: h :: rest =>
    match hexChar? [a, b, c, d, e, f, g, h] with
    | some c => readBasicLines false (c :: seen) rest
    | none => none
  | '\\' :: c :: rest =>
    match escape? c with
    | some c => readBasicLines false (c :: seen) rest
    | none =>
      if startsWithLineEnd (skipBlank (c :: rest)) then readBasicLines true seen rest else none
  | '\r' :: '\n' :: rest =>
    if hidden then readBasicLines true seen rest
    else readBasicLines false ('\n' :: '\r' :: seen) rest
  | c :: rest =>
    if hidden && (isBlank c || c == '\n') then readBasicLines true seen rest
    else if isPlain c || c == '\n' then readBasicLines false (c :: seen) rest
    else none

/-- Reads a string of several lines in single quotes. -/
def readLiteralLines (seen : List Char) : List Char → Option (Read String)
  | [] => none
  | '\'' :: '\'' :: '\'' :: '\'' :: '\'' :: rest =>
    some (String.ofList ('\'' :: '\'' :: seen).reverse, rest)
  | '\'' :: '\'' :: '\'' :: '\'' :: rest => some (String.ofList ('\'' :: seen).reverse, rest)
  | '\'' :: '\'' :: '\'' :: rest => some (String.ofList seen.reverse, rest)
  | '\r' :: '\n' :: rest => readLiteralLines ('\n' :: '\r' :: seen) rest
  | c :: rest => if isPlain c || c == '\n' then readLiteralLines (c :: seen) rest else none

/-- A line end at the very beginning of a string of several lines does not belong to it. -/
def dropLineEnd : List Char → List Char
  | '\n' :: rest => rest
  | '\r' :: '\n' :: rest => rest
  | rest => rest

/-! ## Numbers -/

/-- The digits of a run in which single underscores may stand between digits. -/
def digits? (radix : Nat) : List Char → Option (List Nat)
  | [] => none
  | [c] => do return [← digit c]
  | c :: '_' :: rest => do return (← digit c) :: (← digits? radix rest)
  | c :: rest => do return (← digit c) :: (← digits? radix rest)
where
  digit (c : Char) : Option Nat := (hexDigit? c).filter (· < radix)

def value (radix : Nat) (digits : List Nat) : Nat := digits.foldl (fun n d => n * radix + d) 0

def inNumber (c : Char) : Bool := c.isDigit || c == '_'

/-- The exponent at the end of a float, zero if there is none. -/
def exponent? : List Char → Option Int
  | [] => some 0
  | c :: rest =>
    if c = 'e' ∨ c = 'E' then
      match rest with
      | '+' :: ds => (digits? 10 ds).map fun ds => value 10 ds
      | '-' :: ds => (digits? 10 ds).map fun ds => -(value 10 ds : Int)
      | ds => (digits? 10 ds).map fun ds => value 10 ds
    else none

/-- A decimal number behind its sign. A float must be below infinity. -/
def decimal? (negative : Bool) (cs : List Char) : Option Setting := do
  let whole := cs.takeWhile inNumber
  let ds ← digits? 10 whole
  if ds.head? = some 0 ∧ ds.length ≠ 1 then none
  match cs.drop whole.length with
  | [] =>
    let n : Int := value 10 ds
    return .integer (if negative then -n else n)
  | rest =>
    let (fraction, rest) ← match rest with
      | '.' :: rest => do
        let fraction := rest.takeWhile inNumber
        pure (← digits? 10 fraction, rest.drop fraction.length)
      | rest => pure ([], rest)
    let e ← exponent? rest
    let x := Decimal.nearest negative (value 10 (ds ++ fraction)) (e - fraction.length)
    if x.isFinite then return .float x else none

/-- A number with its sign, or in another radix without one. -/
def number? : List Char → Option Setting
  | '0' :: 'x' :: ds => (digits? 16 ds).map fun ds => .integer (value 16 ds)
  | '0' :: 'o' :: ds => (digits? 8 ds).map fun ds => .integer (value 8 ds)
  | '0' :: 'b' :: ds => (digits? 2 ds).map fun ds => .integer (value 2 ds)
  | '+' :: rest => signed false rest
  | '-' :: rest => signed true rest
  | rest => signed false rest
where
  signed (negative : Bool) : List Char → Option Setting
    | ['i', 'n', 'f'] => some (.float (.ofDatum (.infinite negative)))
    | ['n', 'a', 'n'] => some (.float (.ofDatum .nan))
    | rest => decimal? negative rest

/-- What numbers are made of. -/
def inNumeral (c : Char) : Bool :=
  c.isAlphanum || c == '_' || c == '+' || c == '-' || c == '.'

/-! ## Keys -/

/-- Reads a key: a word, or a string in one line. -/
def readKey : List Char → Option (Read String)
  | '"' :: rest => readBasic [] rest
  | '\'' :: rest => readLiteral rest
  | cs =>
    let word := cs.takeWhile fun c => c.isAlphanum || c == '_' || c == '-'
    if word.isEmpty then none else some (String.ofList word, cs.drop word.length)

/-- Reads a dotted key with the blanks around it: no more keys than the first argument says. -/
def readPath : Nat → List Char → Option (Read (List String))
  | 0, _ => none
  | n + 1, cs => do
    let (key, rest) ← readKey (skipBlank cs)
    match skipBlank rest with
    | '.' :: rest =>
      let (path, rest) ← readPath n rest
      return (key :: path, rest)
    | rest => return ([key], rest)

/-! ## Values

The readers of nested values are given a number of steps. Each character can account for two: one
for the value it begins and one for the list it opens or continues. -/

mutual

def readValue : Nat → List Char → Option (Read Setting)
  | 0, _ => none
  | n + 1, cs =>
    match cs with
    | '"' :: '"' :: '"' :: rest =>
      (readBasicLines false [] (dropLineEnd rest)).map fun (s, rest) => (.text s, rest)
    | '\'' :: '\'' :: '\'' :: rest =>
      (readLiteralLines [] (dropLineEnd rest)).map fun (s, rest) => (.text s, rest)
    | '"' :: rest => (readBasic [] rest).map fun (s, rest) => (.text s, rest)
    | '\'' :: rest => (readLiteral rest).map fun (s, rest) => (.text s, rest)
    | '[' :: rest => readItems n [] rest
    | '{' :: rest => readEntries n [] rest
    | cs =>
      let numeral := cs.takeWhile inNumeral
      (number? numeral).map fun x => (x, cs.drop numeral.length)

/-- Reads the items of an array up to its end. A comma may stand behind the last one. -/
def readItems : Nat → List Setting → List Char → Option (Read Setting)
  | 0, _, _ => none
  | n + 1, done, cs =>
    match skipLines n cs with
    | ']' :: rest => some (.array done, rest)
    | cs =>
      match readValue n cs with
      | none => none
      | some (v, rest) =>
        match skipLines n rest with
        | ',' :: rest => readItems n (done ++ [v]) rest
        | ']' :: rest => some (.array (done ++ [v]), rest)
        | _ => none

/-- Reads the entries of a table that is written out, up to its end. A comma may stand behind the
last one, and lines may end anywhere outside of a key. -/
def readEntries : Nat → Setting.Table → List Char → Option (Read Setting)
  | 0, _, _ => none
  | n + 1, done, cs =>
    match skipLines n cs with
    | '}' :: rest => some (.table .inline done, rest)
    | cs =>
      match readPath n cs with
      | none => none
      | some (path, rest) =>
        match skipLines n rest with
        | '=' :: rest =>
          match readValue n (skipLines n rest) with
          | none => none
          | some (v, rest) =>
            match Setting.define v path done with
            | none => none
            | some done =>
              match skipLines n rest with
              | ',' :: rest => readEntries n done rest
              | '}' :: rest => some (.table .inline done, rest)
              | _ => none
        | _ => none

end

/-! ## Lines -/

/-- What is known of a document up to some line: its settings, and the table that lines fill. -/
structure Progress where
  current : List String := []
  entries : Setting.Table := []

/-- Reads a line that is not blank: the header of a table, or a setting. -/
def readLine (steps : Nat) (p : Progress) (cs : List Char) : Option (Read Progress) :=
  match skipBlank cs with
  | '[' :: rest => do
    let (path, rest) ← readPath steps rest
    match rest with
    | ']' :: rest => return (⟨path, ← Setting.openTable path p.entries⟩, rest)
    | _ => none
  | cs => do
    let (path, rest) ← readPath steps cs
    match rest with
    | '=' :: rest =>
      let (v, rest) ← readValue steps (skipBlank rest)
      return ({ p with entries := ← Setting.within (Setting.define v path) p.current p.entries },
        rest)
    | _ => none

/-- Reads line after line; there are no more lines than the second argument says. -/
def readAll (steps : Nat) : Nat → Progress → List Char → Option (Setting.Table)
  | _, p, [] => some p.entries
  | 0, _, _ => none
  | n + 1, p, cs =>
    match nextLine? cs with
    | some rest => readAll steps n p rest
    | none => do
      let (p, rest) ← readLine steps p cs
      readAll steps n p (← nextLine? rest)

/-- The settings of a document. A byte order mark in front is passed over. -/
def parse (text : String) : Option (Setting.Table) :=
  let cs := match text.toList with
    | '\uFEFF' :: rest => rest
    | cs => cs
  readAll (2 * cs.length + 2) (cs.length + 1) {} cs

end Settings

end Ragged
