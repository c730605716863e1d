/-!
# Positions in a source text

A source text is addressed by byte offsets. A `Span` is a stretch of bytes together with the line
and column of its first byte, both counted from one and the column in bytes; a `LineMap` is what
turns an offset into that pair. The line of an offset is the number of line starts at or before it,
and its column is its distance from the last of them: that is the whole arithmetic, and `position`
says it in those words. `locate` finds the same pair by binary search.
-/

set_option autoImplicit false

namespace Ragged

/-- A stretch of a source text: byte offsets `start` to `stop` (exclusive), and the line and column
at which it starts. -/
structure Span where
  start : Nat
  stop : Nat
  line : Nat
  column : Nat
deriving DecidableEq, Repr, Inhabited

namespace Span

/-- Bytes covered; a span whose ends are in the wrong order covers none. -/
def length (s : Span) : Nat := s.stop - s.start

/-- A span is empty when no byte lies between its ends. -/
def isEmpty (s : Span) : Bool := decide (s.stop ≤ s.start)

/-- The text of a span in messages: where it starts, as `line:column`. -/
def render (s : Span) : String := toString s.line ++ ":" ++ toString s.column

end Span

/-- Offsets at which the lines of a text begin, in increasing order, the first being 0. -/
structure LineMap where
  starts : List Nat
deriving DecidableEq, Repr

namespace LineMap

/-- Offsets just after each newline of a text that begins at `offset`. -/
def startsAfter : Nat → List Char → List Nat
  | _, [] => []
  | offset, c :: rest =>
    let next := offset + c.utf8Size
    if c = '\n' then next :: startsAfter next rest else startsAfter next rest

/-- The line map of a text. -/
def ofText (text : String) : LineMap := ⟨0 :: startsAfter 0 text.toList⟩

/-- Line and column of a byte offset, which may lie beyond the end of the text: it then counts as a
place on the last line. -/
def position (map : LineMap) (offset : Nat) : Nat × Nat :=
  let before := map.starts.takeWhile (· ≤ offset)
  (before.length, offset - before.getLastD 0 + 1)

/-- Halves a stretch of `size` line starts, of which the first has the number `base`, until one is
left. What is behind the offset goes with the upper half. -/
def narrow (starts : List Nat) (offset base size : Nat) : Nat :=
  if size ≤ 1 then base
  else
    let half := size / 2
    let base := if offset < starts.getD (base + half) 0 then base else base + half
    narrow starts offset base (size - half)
termination_by size

/-- Looks for an offset among line starts: the number at which it stands, or else the one at which it
would stand. -/
def search : List Nat → Nat → Except Nat Nat
  | [], _ => .error 0
  | starts, offset =>
    let base := narrow starts offset 0 starts.length
    let found := starts.getD base 0
    if found = offset then .ok base else .error (if found < offset then base + 1 else base)

/-- Line and column of a byte offset, found by binary search. -/
def locate (map : LineMap) (offset : Nat) : Nat × Nat :=
  let line := match search map.starts offset with
    | .ok line => line
    | .error line => line - 1
  (line + 1, offset - map.starts.getD line 0 + 1)

/-- The span between two offsets. -/
def span (map : LineMap) (start stop : Nat) : Span :=
  let (line, column) := map.position start
  ⟨start, stop, line, column⟩

end LineMap

/-- The lines of a text without their line ends. A line ends with a newline or a carriage return and
a newline; a carriage return anywhere else belongs to its line, and text after the last newline is a
line only if there is any. -/
def textLines (text : String) : List String :=
  go [] text.toList
where
  /-- `seen` holds the characters of the current line, last one first. -/
  go : List Char → List Char → List String
    | [], [] => []
    | seen, [] => [String.ofList seen.reverse]
    | seen, '\n' :: rest =>
      let line := match seen with
        | '\r' :: body => body
        | body => body
      String.ofList line.reverse :: go [] rest
    | seen, c :: rest => go (c :: seen) rest

end Ragged
