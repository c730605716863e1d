import Ragged.Layout.Write

/-!
# Reading an array back

An array reads back as a nested value: a list for each instance of a dimension, a mapping in
declared field order for each record. A path of field positions picks one field of each record on
the way down, and one of the records below it, and so on; what is read is then the same nesting with
the field in place of the record.

Instance `i` of a dimension of extent `n` has its elements at `i * n`, `i * n + 1` and so on among
the instances of the next one, which is row-major order said one dimension at a time.
-/

set_option autoImplicit false

namespace Ragged

/-- What the elements made of the numbers from `next` on are, `left` of them; `done` are those
before, last one first. -/
def collect (f : Nat → Except BuildError Value) :
    (left next : Nat) → List Value → Except BuildError (List Value)
  | 0, _, done => .ok done.reverse
  | left + 1, next, done =>
    match f next with
    | .error e => .error e
    | .ok v => collect f left (next + 1) (v :: done)

namespace Contents

/-- The extent of a dimension; one that no instance reached counts as empty. -/
def extent (c : Contents) : LayoutDim → Nat
  | .fixed n => n
  | .strided slot => (c.extents.getD slot none).getD 0
  | .var => 0

end Contents

namespace Layout

/-- Reads the instance of a number, given how to read that of a leaf. -/
def readDims (c : Contents) (readLeaf : Block → Nat → Except BuildError Value) :
    List LayoutDim → Block → Nat → Except BuildError Value
  | [], b, cell => readLeaf b cell
  | .var :: dims, b, cell =>
    match b with
    | .var rows =>
      match rows[cell]? with
      | none => .error (.layout (.missingRow cell))
      | some row => do
        return .list (← collect (readDims c readLeaf dims row.block) row.length 0 [])
    | _ => .error (.layout .notVar)
  | d :: dims, b, cell => do
    let n := c.extent d
    return .list (← collect (readDims c readLeaf dims b) n (cell * n) [])

/-- Reads the element of a number from the column of a leaf. -/
def readElement (c : Contents) (leaf : LeafType) (b : Block) (cell : Nat) :
    Except BuildError Value :=
  match b with
  | .leaf id =>
    match c.arena.column id with
    | .error e => .error (.storage e)
    | .ok column =>
      match column.get? cell with
      | none => .error (.layout (.missingElement id cell))
      | some scalar => (leaf.load scalar).map .atom
  | _ => .error (.layout .notLeaf)

mutual

/-- Reads the instance of a number, or the field that the path picks from each of its records. -/
def read (c : Contents) : Layout → List Nat → Block → Nat → Except BuildError Value
  | ⟨dims, leaf⟩, path, b, cell => readDims c (readLeaf c leaf path) dims b cell

def readLeaf (c : Contents) : LayoutLeaf → List Nat → Block → Nat → Except BuildError Value
  | .element _ leaf, _, b, cell => readElement c leaf b cell
  | .struct type fields, path, b, cell =>
    match b with
    | .struct blocks =>
      match path with
      | index :: path => readField c fields type index index path blocks cell
      | [] => do return .dict (← readRecord c fields type blocks cell [])
    | _ => .error (.layout .notLeaf)

/-- Reads a record's field, `skip` fields further on in the lists. -/
def readField (c : Contents) : List Layout → List Field → (index skip : Nat) → List Nat →
    List Block → Nat → Except BuildError Value
  | l :: _, _, _, 0, path, b :: _, cell => read c l path b cell
  | _ :: ls, type, index, skip + 1, path, _ :: bs, cell =>
    readField c ls type index skip path bs cell
  | _, type, index, _, _, _, _ => .error (.layout (.missingField index (Struct.render type)))

/-- Reads all fields of a record behind those already `done`. -/
def readRecord (c : Contents) : List Layout → List Field → List Block → Nat →
    List (String × Value) → Except BuildError (List (String × Value))
  | l :: ls, f :: fs, b :: bs, cell, done =>
    match read c l [] b cell with
    | .error e => .error e
    | .ok v => readRecord c ls fs bs cell (Entries.put done f.name v)
  | _, _, _, _, done => .ok done

end

end Layout

/-- The positions of the fields that some names lead through, each in the struct that the field
before it holds, and the type of the last. -/
def ArrayType.locate (t : ArrayType) : List String → Except BuildError (List Nat × ArrayType)
  | [] => .ok ([], t)
  | name :: rest =>
    match t.leaf with
    | .struct fields =>
      match Struct.indexOf? fields name, Struct.field? fields name with
      | some index, some field => do
        let (path, type) ← field.type.locate rest
        return (index :: path, type)
      | _, _ => .error (.noSuchField name t.render)
    | _ => .error (.noSuchField name t.render)

/-- An array: its type and what it is stored as. -/
structure PackedArray where
  type : ArrayType
  contents : Contents

namespace PackedArray

def rank (a : PackedArray) : Nat := a.type.rank

/-- The number of elements of the outermost dimension; an array without dimensions has one. -/
def length (a : PackedArray) : Nat :=
  match a.type.layout.dims with
  | [] => 1
  | .var :: _ =>
    match a.contents.root with
    | .var rows => (rows[0]?.map Row.length).getD 0
    | _ => 0
  | d :: _ => a.contents.extent d

def isEmpty (a : PackedArray) : Bool := a.length == 0

/-- The extent of each dimension, where there is one. -/
def extents (a : PackedArray) : List (Option Nat) :=
  a.type.layout.dims.map fun d => if d.isVar then none else some (a.contents.extent d)

/-- What was counted while the array was written. -/
def stats (a : PackedArray) : ArenaStats := a.contents.arena.stats

def toValue (a : PackedArray) : Except BuildError Value :=
  a.type.layout.read a.contents [] a.contents.root 0

/-- The names in a path, which stand between its points. -/
def names (path : String) : List String := path.splitOn "."

/-- One field of all records as a value: the dimensions of the array around those of the field. -/
def field (a : PackedArray) (path : String) : Except BuildError Value := do
  let (indices, _) ← a.type.locate (names path)
  a.type.layout.read a.contents indices a.contents.root 0

def fieldType (a : PackedArray) (path : String) : Except BuildError ArrayType := do
  let (_, type) ← a.type.locate (names path)
  return type

end PackedArray

end Ragged
