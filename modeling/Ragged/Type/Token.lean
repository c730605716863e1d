import Ragged.Text.Quoted
import Ragged.Type.Error

/-!
# Tokens of the type language

The text of a type is cut into tokens from left to right, blanks between them dropped. At each place
the longest stretch that is a token is taken; an identifier is a keyword only if all of it is one.
What starts no token is passed over and reported, and scanning goes on behind it: an unmatched quote
up to the end of its line, anything else as the single character it is.

`scan` is recursion on the characters themselves. A token that takes several characters leaves a
count of those still to be skipped, so no bound on the number of steps has to be invented.
-/

set_option autoImplicit false

namespace Ragged

inductive Token where
  | var | strided | string
  | comma | star | semicolon | colon
  | openBrace | closeBrace | openParen | closeParen
  | integer | quoted | identifier
deriving DecidableEq, Repr, Inhabited

namespace Token

/-- What a token is called in messages. -/
def describe : Token → String
  | .var => "'var'"
  | .strided => "'strided'"
  | .string => "'string'"
  | .comma => "','"
  | .star => "'*'"
  | .semicolon => "';'"
  | .colon => "':'"
  | .openBrace => "'\x7b'"
  | .closeBrace => "'\x7d'"
  | .openParen => "'('"
  | .closeParen => "')'"
  | .integer => "integer"
  | .quoted => "string literal"
  | .identifier => "identifier"

/-- The two tokens that may follow a dimension. -/
def isSeparator : Token → Bool
  | .comma | .star => true
  | _ => false

/-- Whether a token can name a struct field: keywords are reserved in type position only. -/
def canNameField : Token → Bool
  | .identifier | .var | .strided | .string => true
  | _ => false

/-- The token a single character is. -/
def ofPunctuation? : Char → Option Token
  | ',' => some .comma
  | '*' => some .star
  | ';' => some .semicolon
  | ':' => some .colon
  | '{' => some .openBrace
  | '}' => some .closeBrace
  | '(' => some .openParen
  | ')' => some .closeParen
  | _ => none

/-- The token a whole word is. -/
def ofWord : List Char → Token
  | ['v', 'a', 'r'] => .var
  | ['s', 't', 'r', 'i', 'd', 'e', 'd'] => .strided
  | ['s', 't', 'r', 'i', 'n', 'g'] => .string
  | _ => .identifier

theorem ofWord_of_ne {w : List Char} (h : ∀ keyword ∈ ["var", "strided", "string"],
    w ≠ keyword.toList) : ofWord w = .identifier := by
  unfold ofWord
  split
  · exact absurd rfl (h "var" (by simp))
  · exact absurd rfl (h "strided" (by simp))
  · exact absurd rfl (h "string" (by simp))
  · rfl

end Token

/-- A symbolic dimension such as `N` or `DIM_2` starts with a capital and has no small letters
(both of ASCII); it stands for a strided dimension. -/
def isSymbolic (text : String) : Bool :=
  match text.toList with
  | [] => false
  | c :: rest => c.isUpper && (c :: rest).all (! ·.isLower)

structure Lexeme where
  token : Token
  text : String
  span : Span
deriving DecidableEq, Repr, Inhabited

/-- What scanning yields at one place: a lexeme, or the error that there is none. -/
abbrev Scanned := Except ParseError Lexeme

namespace Scan

/-- The characters skipped between tokens. -/
def isBlank (c : Char) : Bool :=
  c == ' ' || c == '\t' || c == '\r' || c == '\n' || c == '\x0c'

/-- A letter of ASCII or an underscore, with which identifiers start. -/
def startsWord (c : Char) : Bool := c.isAlpha || c == '_'

/-- What identifiers go on with. -/
def inWord (c : Char) : Bool := c.isAlphanum || c == '_'

/-- What may stand between a quote and its match. -/
def inQuotes (quote c : Char) : Bool := c != quote && c != '\n'

/-- The stretch taken at a character that is no blank: the token it is, if it is one, and the
characters taken behind the first. -/
def take (c : Char) (rest : List Char) : Option Token × List Char :=
  match Token.ofPunctuation? c with
  | some t => (some t, [])
  | none =>
    if c.isDigit then (some .integer, rest.takeWhile Char.isDigit)
    else if startsWord c then
      let more := rest.takeWhile inWord
      (some (Token.ofWord (c :: more)), more)
    else if c == '"' || c == '\'' then
      let body := rest.takeWhile (inQuotes c)
      match rest.drop body.length with
      | d :: _ => if d = c then (some .quoted, body ++ [d]) else (none, body)
      | [] => (none, body)
    else (none, [])

def byteLength : List Char → Nat
  | [] => 0
  | c :: cs => c.utf8Size + byteLength cs

/-- Everything scanned in a text that starts at byte `offset`, its first `skip` characters having
been taken already. -/
def run (map : LineMap) : (offset skip : Nat) → List Char → List Scanned
  | _, _, [] => []
  | offset, skip + 1, c :: rest => run map (offset + c.utf8Size) skip rest
  | offset, 0, c :: rest =>
    if isBlank c then run map (offset + c.utf8Size) 0 rest
    else
      let taken := take c rest
      let span := map.span offset (offset + c.utf8Size + byteLength taken.2)
      let item : Scanned := match taken.1 with
        | some token => .ok ⟨token, String.ofList (c :: taken.2), span⟩
        | none => .error (.unrecognized span)
      item :: run map (offset + c.utf8Size) taken.2.length rest

end Scan

/-- All lexemes of a text and, in their places, the errors for what is no token. -/
def scan (source : String) : List Scanned :=
  Scan.run (LineMap.ofText source) 0 0 source.toList

def endSpan (source : String) : Span :=
  (LineMap.ofText source).span source.utf8ByteSize source.utf8ByteSize

/-! ## A scanner with one item of lookahead

`Scanner` hands the items of `scan` out one at a time. Looking ahead moves an item into `ahead`
(where `some none` is a look at the end), and the next item is always served from there first. -/

/-- A text being scanned. -/
structure Scanner where
  source : String
  /-- Items not yet scanned. -/
  upcoming : List Scanned
  /-- The item looked ahead to, if any. -/
  ahead : Option (Option Scanned)
  /-- Byte offset behind the last item scanned. -/
  position : Nat

namespace Scanner

def ofText (source : String) : Scanner := ⟨source, scan source, none, 0⟩

/-- Scans one item. Finding the end moves the position there. -/
def pull (s : Scanner) : Option Scanned × Scanner :=
  match s.upcoming with
  | [] => (none, { s with position := s.source.utf8ByteSize })
  | item :: rest =>
    let stop := match item with
      | .ok l => l.span.stop
      | .error e => e.span.stop
    (some item, { s with upcoming := rest, position := stop })

/-- The next item, which stays the next one. -/
def peek (s : Scanner) : Option Scanned × Scanner :=
  match s.ahead with
  | some item => (item, s)
  | none =>
    let (item, s) := s.pull
    (item, { s with ahead := some item })

/-- The next item, which is then used up. -/
def next (s : Scanner) : Option Scanned × Scanner :=
  match s.ahead with
  | some item => (item, { s with ahead := none })
  | none => s.pull

/-- The state of a scanner in messages. -/
def render (s : Scanner) : String :=
  "Lexer \x7b source: " ++ quoted s.source ++ ", position: " ++ toString s.position ++ " \x7d"

end Scanner

end Ragged
