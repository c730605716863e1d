import Ragged.Entries
import Ragged.Number.Binary
import Ragged.Value.Pull

/-!
# Nested values

What arrays are built from: scalars, sequences of values, mappings from names to values, and lazy
sources of values, nested in any way. An array reads back as such a value too, with lists for its
dimensions and mappings for its records.

A mapping is a list of entries in the order in which they came. Nothing in the type keeps a key from
occurring twice; `Value.ofEntries` makes a mapping in which none does.
-/

set_option autoImplicit false

namespace Ragged

/-- A scalar of the input. Texts and truth values are scalars. -/
inductive Atom where
  | bool (b : Bool)
  | int (i : Int)
  | float (x : Binary64)
  | complex (re im : Binary64)
  | text (s : String)
deriving DecidableEq, Repr, Inhabited

namespace Atom

def typeName : Atom → String
  | .bool _ => "bool"
  | .int _ => "int"
  | .float _ => "float"
  | .complex _ _ => "complex"
  | .text _ => "string"

/-- Whether two scalars are of one type and equal as numbers: what is not a number differs from
itself, and the two zeros are equal. -/
def same : Atom → Atom → Bool
  | .bool a, .bool b => a == b
  | .int a, .int b => a == b
  | .float a, .float b => a.numEq b
  | .complex a b, .complex c d => a.numEq c && b.numEq d
  | .text a, .text b => a == b
  | _, _ => false

end Atom

inductive Value where
  | atom (a : Atom)
  | list (items : List Value)
  /-- A sequence that always reads as one record where records are wanted. -/
  | tuple (items : List Value)
  /-- A mapping, with its entries in order. -/
  | dict (entries : List (String × Value))
  | iter (source : Pull Value)
deriving Inhabited

inductive Category where
  | scalar
  | sequence
  | mapping
  | iterator
deriving DecidableEq, Repr, Inhabited

def Category.render : Category → String
  | .scalar => "scalar"
  | .sequence => "sequence"
  | .mapping => "mapping"
  | .iterator => "iterator"

namespace Value

def ofBool (b : Bool) : Value := .atom (.bool b)

def ofInt (i : Int) : Value := .atom (.int i)

def ofText (s : String) : Value := .atom (.text s)

/-- The mapping of some entries, in which no key occurs twice. -/
def ofEntries (entries : List (String × Value)) : Value := .dict (Entries.ofList entries)

def category : Value → Category
  | .atom _ => .scalar
  | .list _ | .tuple _ => .sequence
  | .dict _ => .mapping
  | .iter _ => .iterator

def isScalar : Value → Bool
  | .atom _ => true
  | _ => false

def typeName : Value → String
  | .atom a => a.typeName
  | .list _ => "list"
  | .tuple _ => "tuple"
  | .dict _ => "dict"
  | .iter _ => "iterator"

mutual

/-- Whether two values are equal: of one form, with equal elements in the same order, and the
entries of mappings in the same order too. A lazy source is equal to nothing. -/
def same : Value → Value → Bool
  | .atom a, .atom b => a.same b
  | .list as, .list bs => sameAll as bs
  | .tuple as, .tuple bs => sameAll as bs
  | .dict as, .dict bs => sameEntries as bs
  | _, _ => false

def sameAll : List Value → List Value → Bool
  | [], [] => true
  | a :: as, b :: bs => same a b && sameAll as bs
  | _, _ => false

def sameEntries : List (String × Value) → List (String × Value) → Bool
  | [], [] => true
  | (k, a) :: as, (l, b) :: bs => k == l && same a b && sameEntries as bs
  | _, _ => false

end

end Value

/-! ## The elements of a value used as a dimension -/

/-- The elements a sequence or a lazy source still has to give. -/
inductive Children where
  | sequence (rest : List Value)
  | iterator (source : Pull Value)
deriving Inhabited

namespace Children

/-- How many elements are still to come, if that is known without asking for them. -/
def lengthHint? : Children → Option Nat
  | .sequence rest => some rest.length
  | .iterator source => source.knownLength?

def isIterator : Children → Bool
  | .sequence _ => false
  | .iterator _ => true

/-- All elements still to come, in order. -/
def elements : Children → Supply Value
  | .sequence rest => .ofList rest
  | .iterator source => source.left

/-- The next element. -/
def next : Children → Option Value × Children
  | .sequence [] => (none, .sequence [])
  | .sequence (v :: rest) => (some v, .sequence rest)
  | .iterator source =>
    let (v, source) := source.next
    (v, .iterator source)

end Children

namespace Value

/-- The elements of a sequence or a lazy source; nothing else has any. -/
def children? : Value → Option Children
  | .list items | .tuple items => some (.sequence items)
  | .iter source => some (.iterator source)
  | .atom _ | .dict _ => none

/-- A value after its elements were gone through: `done` is what has become of those passed and
`rest` are the others. A source has handed out the former and keeps the latter. -/
def afterPass (v : Value) (done : List Value) (rest : Supply Value) (atEnd : Bool) : Value :=
  match v with
  | .list _ => .list (done ++ rest.toList)
  | .tuple _ => .tuple (done ++ rest.toList)
  | .iter source => .iter (source.handOut done atEnd)
  | v => v

end Value

end Ragged
