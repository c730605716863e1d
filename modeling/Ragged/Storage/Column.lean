import Ragged.Storage.Element

/-!
# Columns

A column is a list of scalars of one kind. Byte strings of a fixed width are packed: they stand end
to end in one buffer, which is cut again when an element is read, so that their width is nowhere
stored but once. `toList` is the list a column stands for, and all else is said of it.
-/

set_option autoImplicit false

namespace Ragged

/-- Elements of one kind, in the order in which they were added. -/
inductive Column where
  /-- Elements of a kind other than byte strings. -/
  | cells (kind : ElementKind) (items : Array Scalar)
  /-- `count` byte strings of the given width, one behind the other. -/
  | packed (width count : Nat) (data : Array UInt8)
deriving DecidableEq, Inhabited

namespace Column

/-- A column of a kind, with nothing in it. -/
def empty : ElementKind → Column
  | .bytes width => .packed width 0 #[]
  | kind => .cells kind #[]

def kind : Column → ElementKind
  | .cells kind _ => kind
  | .packed width _ _ => .bytes width

/-- The number of elements. -/
def size : Column → Nat
  | .cells _ items => items.size
  | .packed _ count _ => count

/-- Bytes of all elements together. -/
def byteSize : Column → Nat
  | .cells .text items => items.foldl (fun n s => n + s.byteSize) 0
  | .cells kind items => items.size * kind.byteSize?.getD 0
  | .packed width count _ => count * width

/-- The bytes of the element at an index, cut out of the buffer. -/
def cut (width : Nat) (data : Array UInt8) (index : Nat) : List UInt8 :=
  (data.extract (index * width) (index * width + width)).toList

/-- The element at an index, if there are that many. -/
def get? (c : Column) (index : Nat) : Option Scalar :=
  match c with
  | .cells _ items => items[index]?
  | .packed width count data => if index < count then some (.bytes (cut width data index)) else none

/-- All elements, read by number from the first on. -/
def elements (c : Column) : List Scalar := (List.range c.size).filterMap c.get?

/-- The list a column stands for. -/
def toList : Column → List Scalar
  | .cells _ items => items.toList
  | .packed width count data => (List.range count).map fun i => .bytes (cut width data i)

/-- Whether a scalar is of the column's kind. -/
def accepts (c : Column) (s : Scalar) : Bool := s.kind == c.kind

/-- Adds an element behind the others; one of another kind leaves the column as it is. -/
def push (c : Column) (s : Scalar) : Column :=
  match c, s with
  | .cells kind items, s => if s.kind = kind then .cells kind (items.push s) else .cells kind items
  | .packed width count data, .bytes bs =>
    if bs.length = width then .packed width (count + 1) (data.appendList bs)
    else .packed width count data
  | .packed width count data, _ => .packed width count data

end Column

end Ragged
