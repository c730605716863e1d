import Ragged.Leaf.Convert

/-!
# Layouts

A layout is an array type made ready for writing and reading: every strided dimension has a slot of
its own, in which the extent found in the data will be kept, and every leaf knows what kind of
column it is stored in. Slots are numbered from 0 in the order in which the dimensions are written
down, those of an array before those of its fields and one field after the other.
-/

set_option autoImplicit false

namespace Ragged

inductive LayoutDim where
  | fixed (extent : Nat)
  | strided (slot : Nat)
  | var
deriving DecidableEq, Repr, Inhabited

def LayoutDim.isVar : LayoutDim → Bool
  | .var => true
  | _ => false

mutual

/-- The layout of an array, or of a field. -/
structure Layout where
  dims : List LayoutDim
  leaf : LayoutLeaf

/-- The layout of a leaf: a column, or one layout for each field. -/
inductive LayoutLeaf where
  | element (kind : ElementKind) (leaf : LeafType)
  | struct (type : List Field) (fields : List Layout)

end

instance : Inhabited LayoutLeaf := ⟨.element default default⟩
instance : Inhabited Layout := ⟨⟨[], default⟩⟩

namespace Layout

/-- Index of the first var dimension at or behind an index, or the number of dimensions. -/
def nextVar (l : Layout) (start : Nat) : Nat :=
  match (l.dims.drop start).findIdx? LayoutDim.isVar with
  | some i => start + i
  | none => l.dims.length

/-- Gives slots to the strided ones among some dimensions, from the first number free; also returns
the next one free. -/
def assign (free : Nat) : List Dimension → List LayoutDim × Nat
  | [] => ([], free)
  | .fixed n :: rest =>
    let (ds, free) := assign free rest
    (.fixed n :: ds, free)
  | .var :: rest =>
    let (ds, free) := assign free rest
    (.var :: ds, free)
  | .strided :: rest =>
    let (ds, next) := assign (free + 1) rest
    (.strided free :: ds, next)

mutual

/-- The layout of a type whose slots start at the first number free, and the next one free. -/
def number [Machine] (free : Nat) : ArrayType → Layout × Nat
  | ⟨dims, leaf⟩ =>
    let (dims, free) := assign free dims
    let (leaf, free) := numberLeaf free leaf
    (⟨dims, leaf⟩, free)

def numberLeaf [Machine] (free : Nat) : LeafType → LayoutLeaf × Nat
  | .scalar kind => (.element kind.elementKind (.scalar kind), free)
  | .string type => (.element type.elementKind (.string type), free)
  | .struct fields =>
    let (layouts, free) := numberFields free fields
    (.struct fields layouts, free)

def numberFields [Machine] (free : Nat) : List Field → List Layout × Nat
  | [] => ([], free)
  | ⟨_, type⟩ :: rest =>
    let (layout, free) := number free type
    let (layouts, free) := numberFields free rest
    (layout :: layouts, free)

end

end Layout

/-- The layout of an array type, its slots numbered from 0. -/
def ArrayType.layout [Machine] (t : ArrayType) : Layout := (Layout.number 0 t).1

def ArrayType.slots [Machine] (t : ArrayType) : Nat := (Layout.number 0 t).2

end Ragged
