import Ragged.Type.Printer
import Ragged.Type.Token

/-!
# Reading types

The grammar, over the tokens of a text:

    type   := (dim sep)* leaf
    sep    := ',' | '*'
    dim    := integer | 'var' | 'strided' | symbolic identifier
    leaf   := scalar name | string | struct
    string := 'string' [ '(' (integer [',' quoted] | quoted) ')' ]
    struct := '{' field (';' field)* [';'] '}'
    field  := (identifier | keyword) ':' type

The reader works on the lexemes before the first stretch of the text that is no token, and knows how
they end. It steps past a token only if what follows it scans, so an unreadable stretch is reported
as soon as the token before it is taken, and before any complaint about that token itself: `arrive`
is that check.
-/

set_option autoImplicit false

namespace Ragged

/-- How a run of lexemes ends: at the end of the text, or at a stretch that is no token. -/
structure Ending where
  /-- The place of the end of the text. -/
  endOfText : Span
  fault : Option ParseError
deriving DecidableEq, Repr

/-- The lexemes before the first error, and that error. -/
def splitScanned : List Scanned → List Lexeme × Option ParseError
  | [] => ([], none)
  | .error e :: _ => ([], some e)
  | .ok l :: rest =>
    let (ls, e) := splitScanned rest
    (l :: ls, e)

namespace TypeReader

/-- What a step of the reader yields: a result and the lexemes left. -/
abbrev Read (α : Type) := α × List Lexeme

/-- Arriving at what follows a token that was taken fails at an unreadable stretch. -/
def arrive (ending : Ending) (rest : List Lexeme) : Except ParseError Unit :=
  match rest, ending.fault with
  | [], some e => .error e
  | _, _ => .ok ()

/-- Takes the next lexeme, whatever it is; `expected` is for the message at the end of the text. -/
def takeAny (ending : Ending) (expected : String) : List Lexeme → Except ParseError (Read Lexeme)
  | [] => .error (.unexpectedEnd expected ending.endOfText)
  | l :: rest => do
    arrive ending rest
    return (l, rest)

/-- Takes the next lexeme, which must be of the given token. -/
def expect (ending : Ending) (token : Token) : List Lexeme → Except ParseError (Read Lexeme)
  | [] => .error (.unexpectedEnd token.describe ending.endOfText)
  | l :: rest =>
    if l.token = token then do
      arrive ending rest
      return (l, rest)
    else .error (.unexpectedToken l.text token.describe l.span)

/-- Whether a type goes on with a dimension here. -/
def startsDimension (l : Lexeme) : Bool :=
  match l.token with
  | .integer | .var | .strided => true
  | .identifier => isSymbolic l.text
  | _ => false

/-- The number a run of digits writes, if it is below 2^64. -/
def number (l : Lexeme) : Except ParseError Nat :=
  let n := l.text.toList.foldl (fun n c => n * 10 + (c.toNat - 48)) 0
  if n < 0x10000000000000000 then .ok n else .error (.numberTooLarge l.text l.span)

def dimension (l : Lexeme) : Except ParseError Dimension :=
  match l.token with
  | .integer => return .fixed (← number l)
  | .var => .ok .var
  | _ => .ok .strided

/-- The dimensions a type starts with, each with the comma or star behind it. -/
def dimensions (ending : Ending) : List Lexeme → Except ParseError (Read (List Dimension))
  | [] => .ok ([], [])
  | l :: rest =>
    if startsDimension l then do
      arrive ending rest
      let d ← dimension l
      match rest with
      | [] => .error (.unexpectedEnd "',' or '*' after dimension" ending.endOfText)
      | sep :: rest =>
        if sep.token.isSeparator then do
          arrive ending rest
          let (ds, rest) ← dimensions ending rest
          return (d :: ds, rest)
        else .error (.unexpectedToken sep.text "',' or '*' after dimension" sep.span)
    else .ok ([], l :: rest)

/-- The text between the quotes of a quoted lexeme. -/
def unquote (text : String) : String := String.ofList (text.toList.drop 1).dropLast

def encoding (ending : Ending) (ls : List Lexeme) : Except ParseError (Read Encoding) := do
  let (l, rest) ← expect ending .quoted ls
  let name := unquote l.text
  match Encoding.ofName? name with
  | some e => return (e, rest)
  | none => .error (.unknownEncoding name l.span)

/-- Whether the next lexeme is of the given token. -/
def next (token : Token) : List Lexeme → Bool
  | [] => false
  | l :: _ => l.token == token

/-- The width and encoding that may stand in parentheses behind `string`. -/
def stringParams (ending : Ending) (ls : List Lexeme) : Except ParseError (Read StringType) :=
  match ls with
  | l :: rest =>
    if l.token = .openParen then do
      arrive ending rest
      let (type, ls) ← inside rest
      let (_, ls) ← expect ending .closeParen ls
      return (type, ls)
    else .ok ({}, ls)
  | [] => .ok ({}, [])
where
  inside (ls : List Lexeme) : Except ParseError (Read StringType) := do
    if next .integer ls then
      let (l, ls) ← takeAny ending "a width" ls
      let width ← number l
      if next .comma ls then
        let (_, ls) ← takeAny ending Token.comma.describe ls
        let (e, ls) ← encoding ending ls
        return (⟨e, some width⟩, ls)
      else return (⟨.utf8, some width⟩, ls)
    else
      let (e, ls) ← encoding ending ls
      return (⟨e, none⟩, ls)

/-- The error of a reader that has no steps left, which `steps` below rules out. -/
def exhausted (ending : Ending) : ParseError := .unexpectedEnd "a type" ending.endOfText

/-! The three functions that call one another take, as their first argument, the number of calls
they may nest. Between a call of `type` and the next one inside it lie two other calls and at least
three lexemes: a brace, a name and a colon. One more field of a struct is one more call and takes at
least as many. So a call for each lexeme would do, and `steps` allows three. -/

mutual

def type (ending : Ending) : Nat → List Lexeme → Except ParseError (Read ArrayType)
  | 0, _ => .error (exhausted ending)
  | n + 1, ls => do
    let (dims, ls) ← dimensions ending ls
    let (l, ls) ← leaf ending n ls
    return (⟨dims, l⟩, ls)

def leaf (ending : Ending) : Nat → List Lexeme → Except ParseError (Read LeafType)
  | 0, _ => .error (exhausted ending)
  | n + 1, ls => do
    let (l, ls) ← takeAny ending "a type" ls
    match l.token with
    | .string =>
      let (s, ls) ← stringParams ending ls
      return (.string s, ls)
    | .openBrace =>
      let (fs, ls) ← fields ending n l.span [] ls
      return (.struct fs, ls)
    | .identifier =>
      match ScalarKind.ofName? l.text with
      | some kind => return (.scalar kind, ls)
      | none => .error (.unknownType l.text l.span)
    | _ => .error (.unexpectedToken l.text "a type" l.span)

/-- The fields still to come of a struct opened at `opened`, behind those already read, up to and
including its closing brace. -/
def fields (ending : Ending) :
    Nat → Span → List Field → List Lexeme → Except ParseError (Read (List Field))
  | 0, _, _, _ => .error (exhausted ending)
  | _ + 1, opened, _, [] =>
    .error (.unexpectedEnd ("a field name to close struct opened at " ++ opened.render)
      ending.endOfText)
  | n + 1, opened, done, l :: ls => do
    if l.token = .closeBrace ∧ done ≠ [] then
      arrive ending ls
      return (done, ls)
    else if l.token.canNameField then
      arrive ending ls
      if done.any (·.name = l.text) then
        .error (.repeatedField l.text l.span)
      else
        let (_, ls) ← expect ending .colon ls
        let (t, ls) ← type ending n ls
        let done := done ++ [⟨l.text, t⟩]
        if next .semicolon ls then
          let (_, ls) ← takeAny ending Token.semicolon.describe ls
          fields ending n opened done ls
        else
          let (_, ls) ← expect ending .closeBrace ls
          return (done, ls)
    else .error (.unexpectedToken l.text "a field name" l.span)

end

/-- Nothing may follow what was read. -/
def finish {α : Type} : α × List Lexeme → Except ParseError α
  | (a, []) => .ok a
  | (_, l :: _) => .error (.unexpectedToken l.text "end of input" l.span)

/-- Calls enough to read some lexemes. -/
def steps (ls : List Lexeme) : Nat := 3 * ls.length + 3

/-- Scans a text and hands its lexemes to a reader. -/
def onText {α : Type} (reader : Ending → List Lexeme → Except ParseError α) (source : String) :
    Except ParseError α := do
  let (ls, fault) := splitScanned (scan source)
  let ending : Ending := ⟨endSpan source, fault⟩
  arrive ending ls
  reader ending ls

end TypeReader

open TypeReader in
def ArrayType.parse (source : String) : Except ParseError ArrayType :=
  onText (fun ending ls => do finish (← type ending (steps ls) ls)) source

open TypeReader in
/-- Reads a whole text as a leaf type; a dimension in front of it is an error of its own. -/
def LeafType.parse (source : String) : Except ParseError LeafType :=
  onText (fun ending ls =>
    match ls with
    | l :: _ =>
      if startsDimension l then .error (.dimensionInLeaf l.text l.span)
      else do finish (← leaf ending (steps ls) ls)
    | [] => do finish (← leaf ending (steps ls) ls)) source

end Ragged
