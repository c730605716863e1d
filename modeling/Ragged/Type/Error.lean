import Ragged.Text.Position

/-!
# What can be wrong with the text of a type

Each cause carries the span it was found at. `message` is the one place with the wording, and
`excerpt` shows the line of the source with marks under the span.
-/

set_option autoImplicit false

namespace Ragged

/-- Why a text is not the written form of a type. -/
inductive ParseError where
  | unexpectedToken (found expected : String) (span : Span)
  /-- The text stops where something was expected. -/
  | unexpectedEnd (expected : String) (span : Span)
  | numberTooLarge (literal : String) (span : Span)
  | unknownType (name : String) (span : Span)
  | unknownEncoding (name : String) (span : Span)
  | repeatedField (name : String) (span : Span)
  | dimensionInLeaf (found : String) (span : Span)
  /-- A stretch of the text that is no token. -/
  | unrecognized (span : Span)
deriving DecidableEq, Repr, Inhabited

namespace ParseError

def span : ParseError → Span
  | .unexpectedToken _ _ s | .unexpectedEnd _ s | .numberTooLarge _ s | .unknownType _ s
  | .unknownEncoding _ s | .repeatedField _ s | .dimensionInLeaf _ s | .unrecognized s => s

def message : ParseError → String
  | .unexpectedToken found expected s =>
    "unexpected token '" ++ found ++ "' at " ++ s.render ++ ", expected " ++ expected
  | .unexpectedEnd expected s =>
    "unexpected end of input at " ++ s.render ++ ", expected " ++ expected
  | .numberTooLarge literal s => "invalid dimension size '" ++ literal ++ "' at " ++ s.render
  | .unknownType name s => "unknown type '" ++ name ++ "' at " ++ s.render
  | .unknownEncoding name s => "unknown string encoding '" ++ name ++ "' at " ++ s.render
  | .repeatedField name s =>
    "duplicate field '" ++ name ++ "' in struct type at " ++ s.render
  | .dimensionInLeaf found s =>
    "expected a leaf type without dimensions, found '" ++ found ++ "' at " ++ s.render
  | .unrecognized s => "unrecognized token at " ++ s.render

/-- The line of the source the error starts on, and below it one mark per byte of the span as far as
the line reaches, but at least one. Empty if the source has no such line. -/
def excerpt (e : ParseError) (source : String) : String :=
  let s := e.span
  match (textLines source)[s.line - 1]? with
  | none => ""
  | some line =>
    let number := toString s.line
    let indent := s.column - 1
    let marks := max 1 (min s.length (line.utf8ByteSize - indent))
    "  " ++ number ++ " | " ++ line ++ "\n  " ++ "".pushn ' ' number.length ++ " | "
      ++ "".pushn ' ' indent ++ "".pushn '^' marks

end ParseError

end Ragged
