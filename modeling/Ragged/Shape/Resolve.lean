import Ragged.Config
import Ragged.Leaf.Convert
import Ragged.Shape.Survey

/-!
# From a shape to a type

The type of an array is settled before anything is written. With a full hint it is the hint, which
the lengths seen so far must not contradict; otherwise each depth of containers becomes a dimension:
of fixed extent if all containers there are known to have that length, and var if they differ or if
some of them is a lazy source or lies below one of which not all was looked at. Without a hint for
the leaf its type is the least that holds the sample.
-/

set_option autoImplicit false

namespace Ragged

/-- The dimension a level amounts to. A depth without any container can only be below empty ones. -/
def Level.dimension (l : Level) : Dimension :=
  if l.fromIterator || l.partly then .var
  else
    match l.lengths with
    | .all n => .fixed n
    | .between _ _ => .var
    | .unseen => .fixed 0

/-- The least integer kind, not below the configured width, that holds a range of integers. -/
def integerKind (width : IntegerWidth) (min max : Int) : Except BuildError ScalarKind :=
  let fits (k : ScalarKind) : Bool := k.bounds.1 ≤ min && max < k.bounds.2
  if width = .int32 ∧ fits .int32 then .ok .int32
  else if fits .int64 then .ok .int64
  else if fits .uint64 then .ok .uint64
  else .error (.type (.integersTooWide min max))

namespace Shape

/-- The dimensions the levels amount to, as many as the nesting has. -/
def dimensions (s : Shape) : List Dimension :=
  ((s.levels ++ List.replicate (s.rank - s.levels.length) ({} : Level)).take s.rank).map
    Level.dimension

mutual

/-- The type inferred from a shape. -/
def infer (config : Config) : Shape → Except BuildError ArrayType
  | ⟨levels, leafDepth, leaf⟩ => do
    return ⟨Shape.dimensions ⟨levels, leafDepth, .nothing⟩, ← inferLeaf config leaf⟩

/-- The leaf type inferred from a sample. -/
def inferLeaf (config : Config) : LeafSample → Except BuildError LeafType
  | .nothing => .ok config.defaultLeaf
  | .bool => .ok (.scalar .bool)
  | .int lo hi => do return .scalar (← integerKind config.integerWidth lo hi)
  | .float => .ok (.scalar .float64)
  | .complex => .ok (.scalar .cfloat64)
  | .text => .ok (.string {})
  | .struct fields => do
    match Struct.ofFields (← inferFields config fields) with
    | .ok fields => return .struct fields
    | .error name => .error (.type (.fieldInferredTwice name))

/-- The fields of a struct, each inferred by itself. -/
def inferFields (config : Config) : List (String × Shape) → Except BuildError (List Field)
  | [] => .ok []
  | (name, shape) :: rest => do return ⟨name, ← infer config shape⟩ :: (← inferFields config rest)

end

/-- Whether the lengths seen at a depth are as the dimension there wants them. Lazy sources are
checked later, when their elements come. -/
def checkLevel (depth : Nat) (l : Level) : Dimension → Except BuildError Unit
  | .fixed n =>
    let within (lo hi : Nat) : Except BuildError Unit :=
      if lo < n then .error (.tooFew depth n lo)
      else if n < hi then .error (.tooMany depth n (.exactly hi))
      else .ok ()
    match l.lengths with
    | .unseen => .ok ()
    | .all m => within m m
    | .between lo hi => within lo hi
  | .strided =>
    if l.fromIterator then .error (.source (.stridedIterator depth))
    else
      match l.lengths with
      | .between lo hi => .error (.shape (.stridedIrregular depth lo hi))
      | _ => .ok ()
  | .var => .ok ()

/-- Checks dimension by dimension, from a depth on, as far as there are levels. -/
def checkLevels (depth : Nat) : List Level → List Dimension → Except BuildError Unit
  | l :: ls, d :: ds => do
    checkLevel depth l d
    checkLevels (depth + 1) ls ds
  | _, _ => .ok ()

/-- The type of the array to be built from a value of this shape. -/
def resolve (s : Shape) (hint : Hint) (config : Config) : Except BuildError ArrayType :=
  match hint with
  | .infer => s.infer config
  | .uniform leaf => .ok ⟨s.dimensions, leaf⟩
  | .full type => do
    checkLevels 0 s.levels type.dims
    return type

end Shape

end Ragged
