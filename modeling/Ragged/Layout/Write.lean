import Ragged.Layout.Basic
import Ragged.Value.Record

/-!
# Writing a value

A value is written in one pass, depth first, each leaf to the end of the region it belongs to. The
layout decides which that is.

* Dimensions that are not var are flattened: all instances of what lies below them share one block,
  one after the other in row-major order.
* Each field of a struct has a block of its own.
* Each instance of a var dimension is a row with a block of its own for its elements, whose regions
  are growable and are frozen when the row is complete.

The extent of a strided dimension is that of its first instance. Lazy sources are asked for one
element at a time, and at a dimension of known extent for no more than one beyond it. As everywhere,
the value comes back as it is afterwards, also when writing fails.
-/

set_option autoImplicit false

namespace Ragged

mutual

/-- Storage of some instances of a layout, from one of its dimensions on. -/
inductive Block where
  /-- The elements of a scalar or string leaf. -/
  | leaf (region : RegionId)
  /-- One block for each field. -/
  | struct (fields : List Block)
  /-- One row for each instance of a var dimension. -/
  | var (rows : Array Row)

/-- The elements of one instance of a var dimension. -/
structure Row where
  length : Nat
  block : Block

end

instance : Inhabited Block := ⟨.leaf default⟩

/-- What a block is, as messages call it. -/
def Block.form : Block → String
  | .leaf _ => "leaf"
  | .struct _ => "struct"
  | .var _ => "var"

/-- The regions written so far, and the extents found so far, one for each slot of the layout. -/
structure Store where
  arena : Arena
  extents : Array (Option Nat)

/-- How many instances a block is for. -/
inductive Sizing where
  /-- So many, and the regions are fixed. -/
  | exact (n : Nat)
  /-- Perhaps so many, and the regions grow. -/
  | growable (n : Nat)
deriving DecidableEq, Repr

/-- The elements of that many instances, each having the given number of them if it is known. A
number of elements beyond all sizes is no reason to fail, since there may be no instance after all.
-/
def Sizing.times : Sizing → Option Nat → Sizing
  | .exact n, some per => if n * per < sizeLimit then .exact (n * per) else .growable n
  | .growable n, some per => .growable (min (n * per) (sizeLimit - 1))
  | .exact n, none | .growable n, none => .growable n

namespace Store

/-- The extent of a dimension, as far as it is known. -/
def extent? (s : Store) : LayoutDim → Option Nat
  | .fixed n => some n
  | .strided slot => s.extents.getD slot none
  | .var => none

/-- The number of elements that an instance of some dimensions has, if all extents are known and the
number is a size. -/
def segment? (s : Store) : List LayoutDim → Option Nat
  | dims => dims.foldlM (fun n d => do
      let m := n * (← s.extent? d)
      if m < sizeLimit then some m else none) 1

/-- The extent in a slot, which is the given one from now on if there was none. -/
def settle (s : Store) (slot length : Nat) : Store × Nat :=
  match s.extents.getD slot none with
  | some n => (s, n)
  | none => ({ s with extents := s.extents.setIfInBounds slot (some length) }, length)

/-- Finishes the regions that belong to a block itself; rows have finished their own. -/
def freeze : Store → Block → Except BuildError Store
  | ⟨arena, extents⟩, .leaf id =>
    match arena.freeze id with
    | .ok arena => .ok ⟨arena, extents⟩
    | .error e => .error (.storage e)
  | s, .struct fields => freezeAll s fields
  | s, .var _ => .ok s
where
  freezeAll (s : Store) : List Block → Except BuildError Store
    | [] => .ok s
    | b :: rest => do freezeAll (← freeze s b) rest

end Store

mutual

/-- A block for instances of a layout. Those of a var dimension are rows that come one by one. -/
def Layout.allocate : Layout → Store → Sizing → Store × Block
  | ⟨dims, leaf⟩, s, sizing =>
    if dims.any LayoutDim.isVar then (s, .var #[])
    else leaf.allocate s (sizing.times (s.segment? dims))

def LayoutLeaf.allocate : LayoutLeaf → Store → Sizing → Store × Block
  | .element kind _, ⟨arena, extents⟩, .exact n =>
    let (arena, id) := arena.allocateFixed kind n
    (⟨arena, extents⟩, .leaf id)
  | .element kind _, ⟨arena, extents⟩, .growable n =>
    let capacity := max n arena.policy.initialCapacity
    let (arena, id) := arena.allocateGrowable kind capacity
    (⟨arena, extents⟩, .leaf id)
  | .struct _ fields, s, sizing =>
    let (s, blocks) := Layout.allocateAll fields s sizing
    (s, .struct blocks)

def Layout.allocateAll : List Layout → Store → Sizing → Store × List Block
  | [], s, _ => (s, [])
  | l :: rest, s, sizing =>
    let (s, b) := l.allocate s sizing
    let (s, bs) := Layout.allocateAll rest s sizing
    (s, b :: bs)

end

/-- What writing into a block leaves: the store and the block, or an error. -/
abbrev Written := Except BuildError (Store × Block)

/-- A way to write one value. -/
abbrev WriteOne := Value → Store → Block → Value × Written

/-- The elements of a value used as a dimension. -/
def Value.childrenAt (depth : Nat) : Value → Except BuildError Children
  | .list items | .tuple items => .ok (.sequence items)
  | .iter source => .ok (.iterator source)
  | .dict _ => .error (.shape (.mappingAsDimension depth))
  | .atom a => .error (.shape (.scalarAsDimension depth a.typeName))

/-- Where a pass over elements ended. -/
structure Pass where
  /-- The elements asked for, as they are afterwards. -/
  done : List Value
  /-- The elements never asked for. -/
  rest : Supply Value
  /-- Whether one more was asked for when none was left. -/
  atEnd : Bool
  outcome : Written

namespace Layout

/-- Writes element after element into one block. With a limit there must be just so many; `count` of
them are `done`, last one first. -/
def writeItems (writeOne : WriteOne) (depth : Nat) (limit : Option Nat) (count : Nat)
    (done : List Value) : Supply Value → Store → Block → Pass
  | .nil, s, b =>
    let outcome : Written :=
      match limit with
      | some n => if count < n then .error (.tooFew depth n count) else .ok (s, b)
      | none => .ok (s, b)
    ⟨done.reverse, .nil, true, outcome⟩
  | .cons v rest, s, b =>
    if limit = some count then
      ⟨(v :: done).reverse, rest ⟨⟩, false, .error (.tooMany depth count (.atLeast (count + 1)))⟩
    else
      match writeOne v s b with
      | (v, .error e) => ⟨(v :: done).reverse, rest ⟨⟩, false, .error e⟩
      | (v, .ok (s, b)) => writeItems writeOne depth limit (count + 1) (v :: done) (rest ⟨⟩) s b

/-- Writes the elements of a value at a dimension of known extent. If their number is known too, it
is compared first. -/
def writeRegular (writeOne : WriteOne) (depth expected : Nat) (children : Children) (v : Value)
    (s : Store) (b : Block) : Value × Written :=
  let length := children.lengthHint?.getD expected
  if length < expected then (v, .error (.tooFew depth expected length))
  else if expected < length then (v, .error (.tooMany depth expected (.exactly length)))
  else
    match writeItems writeOne depth (some expected) 0 [] children.elements s b with
    | ⟨done, rest, atEnd, outcome⟩ => (v.afterPass done rest atEnd, outcome)

/-- Writes the elements of a value as one row. -/
def writeRow (writeOne : WriteOne) (inner : Layout) (depth : Nat) (children : Children) (v : Value)
    (s : Store) (rows : Array Row) : Value × Written :=
  let (s, row) := inner.allocate s (.growable (children.lengthHint?.getD 0))
  match writeItems writeOne depth none 0 [] children.elements s row with
  | ⟨done, rest, atEnd, .error e⟩ => (v.afterPass done rest atEnd, .error e)
  | ⟨done, rest, atEnd, .ok (s, row)⟩ =>
    let outcome : Written :=
      match s.freeze row with
      | .error e => .error e
      | .ok s => .ok (s, .var (rows.push ⟨done.length, row⟩))
    (v.afterPass done rest atEnd, outcome)

/-- Writes one instance of some dimensions over a leaf, given how to write the leaf. -/
def writeDims (leaf : LayoutLeaf) (writeLeaf : WriteOne) : List LayoutDim → Nat → WriteOne
  | [], _ => writeLeaf
  | .var :: dims, depth => fun v s b =>
    match b with
    | .var rows =>
      match v.childrenAt depth with
      | .error e => (v, .error e)
      | .ok children =>
        writeRow (writeDims leaf writeLeaf dims (depth + 1)) ⟨dims, leaf⟩ depth children v s rows
    | b => (v, .error (.layout (.wrongBlock "var" b.form)))
  | .fixed n :: dims, depth => fun v s b =>
    match v.childrenAt depth with
    | .error e => (v, .error e)
    | .ok children =>
      writeRegular (writeDims leaf writeLeaf dims (depth + 1)) depth n children v s b
  | .strided slot :: dims, depth => fun v s b =>
    match v.childrenAt depth with
    | .error e => (v, .error e)
    | .ok children =>
      if children.isIterator then (v, .error (.source (.stridedIterator depth)))
      else
        let (s, n) := s.settle slot (children.lengthHint?.getD 0)
        writeRegular (writeDims leaf writeLeaf dims (depth + 1)) depth n children v s b

/-- Appends one scalar to the region of an element leaf. -/
def writeElement (leaf : LeafType) : WriteOne := fun v s b =>
  match b with
  | .leaf id =>
    match v with
    | .atom a =>
      match leaf.store a with
      | .error e => (v, .error e)
      | .ok scalar =>
        let ⟨arena, extents⟩ := s
        match arena.append id scalar with
        | (_, .error e) => (v, .error (.storage e))
        | (arena, .ok ()) => (v, .ok (⟨arena, extents⟩, .leaf id))
    | .dict _ => (v, .error (.type (.mappingAsScalar leaf.render)))
    | v => (v, .error (.shape (.elementsAsScalar leaf.render v.category.render)))
  | b => (v, .error (.layout (.wrongBlock "leaf" b.form)))

mutual

/-- Writes one instance of a layout. -/
def write : Layout → WriteOne
  | ⟨dims, leaf⟩ => writeDims leaf (writeLeaf leaf) dims 0

/-- Writes one leaf: a scalar, or a record field by field. -/
def writeLeaf : LayoutLeaf → WriteOne
  | .element _ leaf => writeElement leaf
  | .struct type fields => fun v s b =>
    match b with
    | .struct blocks =>
      match v.recordFields type with
      | (v, .error e) => (v, .error e)
      | (v, .ok values) =>
        let (values, outcome) := writeFields fields values blocks s
        (v.withRecordFields type values, outcome.map fun (s, blocks) => (s, .struct blocks))
    | b => (v, .error (.layout (.wrongBlock "struct" b.form)))

/-- Writes the values of a record's fields, each into its own block. -/
def writeFields : List Layout → List Value → List Block → Store →
    List Value × Except BuildError (Store × List Block)
  | l :: ls, v :: vs, b :: bs, s =>
    match write l v s b with
    | (v, .error e) => (v :: vs, .error e)
    | (v, .ok (s, b)) =>
      let (vs, outcome) := writeFields ls vs bs s
      (v :: vs, outcome.map fun (s, bs) => (s, b :: bs))
  | _, vs, bs, s => (vs, .ok (s, bs))

end

end Layout

/-- What an array is stored as: a block for its one instance, the regions, and for each slot of the
layout the extent found, if any instance of the dimension was reached. -/
structure Contents where
  root : Block
  arena : Arena
  extents : Array (Option Nat)

/-- Writes a value as an array of the given type. -/
def ArrayType.write (t : ArrayType) (growth : GrowthPolicy) (v : Value) :
    Value × Except BuildError Contents :=
  let s : Store := ⟨{ policy := growth }, Array.replicate t.slots none⟩
  let (s, block) := t.layout.allocate s (.exact 1)
  let (v, written) := t.layout.write v s block
  let outcome : Except BuildError Contents :=
    match written with
    | .error e => .error e
    | .ok (s, block) =>
      match s.freeze block with
      | .error e => .error e
      | .ok s => .ok ⟨block, s.arena, s.extents⟩
  (v, outcome)

end Ragged
