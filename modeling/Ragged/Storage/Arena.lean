import Ragged.Storage.Column

/-!
# The arena

All elements of an array under construction live in the regions of one arena. A region is a column
that is still being written to, of a length declared beforehand (`fixed`) or not (`growable`), or
one that is finished (`frozen`) and never changes again. Regions are numbered in the order in which
they are allocated, and an operation touches the region it names and no other.

The capacity of a growable region is a count only, and so is the number of times it grew: what they
are for is to say how often a buffer with that policy would have been moved.

Requests for memory are taken to be met. A region may be allocated with any length declared and may
grow to any capacity; a program that runs out of memory, or is asked for more than there can be, has
no arena to speak of.
-/

set_option autoImplicit false

namespace Ragged

/-- The number of a region in its arena. -/
structure RegionId where
  index : Nat
deriving DecidableEq, Repr, Inhabited

/-- The text of a region in messages. -/
def RegionId.render (id : RegionId) : String := "#" ++ toString id.index

/-- How growable regions grow: the least capacity they grow to, and the factor of each step. -/
structure GrowthPolicy where
  initialCapacity : Nat := 8
  factor : Binary64 := ⟨0x4000000000000000⟩
deriving DecidableEq, Repr, Inhabited

/-- The capacity a full region of the given capacity grows to: scaled by the factor and rounded up,
but more than it had and not below the least capacity. -/
def GrowthPolicy.next (p : GrowthPolicy) (capacity : Nat) : Nat :=
  let scaled := ((Binary64.ofInt capacity).mul p.factor).ceilSize
  max (max scaled (capacity + 1)) p.initialCapacity

/-- Whether a region can still be written to, and how far. -/
inductive RegionState where
  /-- To be filled with exactly so many elements. -/
  | fixed (length : Nat)
  /-- Full at that capacity, and then grows. -/
  | growable (capacity : Nat)
  | frozen
deriving DecidableEq, Repr, Inhabited

structure Region where
  column : Column
  state : RegionState
deriving DecidableEq, Inhabited

/-- Why the arena refused an operation. -/
inductive StorageError where
  /-- A fixed region has all its elements. -/
  | regionFull (region : RegionId) (length : Nat)
  /-- A fixed region is to be frozen before it has all its elements. -/
  | underfilled (region : RegionId) (written length : Nat)
  | frozen (region : RegionId)
  | kindMismatch (expected found : ElementKind)
  | unknownRegion (region : RegionId)
deriving DecidableEq, Repr, Inhabited

def StorageError.message : StorageError → String
  | .regionFull id n =>
    "RegionFull: fixed region " ++ id.render ++ " already holds " ++ toString n ++ " elements"
  | .underfilled id written n =>
    "Underfilled: fixed region " ++ id.render ++ " holds " ++ toString written ++ " of "
      ++ toString n ++ " elements"
  | .frozen id => "Frozen: region " ++ id.render ++ " is frozen"
  | .kindMismatch expected found =>
    "KindMismatch: cannot store " ++ found.render ++ " in a " ++ expected.render ++ " region"
  | .unknownRegion id => "UnknownRegion: no region " ++ id.render

/-- Adds an element to a column, or says which kinds do not match. -/
def Column.append (c : Column) (s : Scalar) : Except StorageError Column :=
  if c.accepts s then .ok (c.push s) else .error (.kindMismatch c.kind s.kind)

/-- What an arena counts. -/
structure ArenaStats where
  fixedRegions : Nat := 0
  growableRegions : Nat := 0
  reallocations : Nat := 0
  /-- Bytes of all stored elements. -/
  bytes : Nat := 0
deriving DecidableEq, Repr, Inhabited

/-- Numbered regions, and what was counted while they were filled. -/
structure Arena where
  policy : GrowthPolicy := {}
  regions : Array Region := #[]
  fixedRegions : Nat := 0
  growableRegions : Nat := 0
  reallocations : Nat := 0
deriving DecidableEq, Inhabited

namespace Arena

/-- No region starts with a capacity above this, however much is asked for. -/
def maxInitialReserve : Nat := 65536

def stats (a : Arena) : ArenaStats :=
  ⟨a.fixedRegions, a.growableRegions, a.reallocations,
    a.regions.foldl (fun n r => n + r.column.byteSize) 0⟩

/-- The number of regions. -/
def size (a : Arena) : Nat := a.regions.size

/-- A new region for exactly so many elements. -/
def allocateFixed (a : Arena) (kind : ElementKind) (length : Nat) : Arena × RegionId :=
  let id : RegionId := ⟨a.regions.size⟩
  ({ a with
      regions := a.regions.push ⟨.empty kind, .fixed length⟩
      fixedRegions := a.fixedRegions + 1 }, id)

/-- A new region that grows, with room for some elements at first. -/
def allocateGrowable (a : Arena) (kind : ElementKind) (capacity : Nat) : Arena × RegionId :=
  let id : RegionId := ⟨a.regions.size⟩
  ({ a with
      regions := a.regions.push ⟨.empty kind, .growable (min capacity maxInitialReserve)⟩
      growableRegions := a.growableRegions + 1 }, id)

/-- The region of a number. -/
def region (a : Arena) (id : RegionId) : Except StorageError Region :=
  match a.regions[id.index]? with
  | some r => .ok r
  | none => .error (.unknownRegion id)

/-- The state in which a region takes its next element: a growable one that is full grows. -/
def stateToAppend (policy : GrowthPolicy) (id : RegionId) (r : Region) :
    Except StorageError RegionState :=
  match r.state with
  | .frozen => .error (.frozen id)
  | .fixed length =>
    if length ≤ r.column.size then .error (.regionFull id length) else .ok (.fixed length)
  | .growable capacity =>
    if capacity ≤ r.column.size then .ok (.growable (policy.next capacity))
    else .ok (.growable capacity)

/-- Replaces the region of a number by what a function makes of it, in place. -/
def modify (a : Arena) (id : RegionId) (f : Region → Region) : Arena :=
  { a with regions := a.regions.modify id.index f }

/-- Adds an element to a region. The arena comes back with the outcome also if there is an error,
since a full growable region grows before the kind of the element is looked at. -/
def append (a : Arena) (id : RegionId) (s : Scalar) : Arena × Except StorageError Unit :=
  match a.regions[id.index]? with
  | none => (a, .error (.unknownRegion id))
  | some r =>
    match stateToAppend a.policy id r with
    | .error e => (a, .error e)
    | .ok state =>
      let grown := if state = r.state then 0 else 1
      let outcome :=
        if r.column.accepts s then .ok () else .error (.kindMismatch r.column.kind s.kind)
      let a := { a with reallocations := a.reallocations + grown }
      (a.modify id fun r => ⟨r.column.push s, state⟩, outcome)

/-- Finishes a region, which from then on only can be read. A fixed region must have all its
elements. -/
def freeze (a : Arena) (id : RegionId) : Except StorageError Arena :=
  match a.regions[id.index]? with
  | none => .error (.unknownRegion id)
  | some r =>
    match r.state with
    | .frozen => .error (.frozen id)
    | .fixed length =>
      if r.column.size < length then .error (.underfilled id r.column.size length)
      else .ok (a.modify id fun r => ⟨r.column, .frozen⟩)
    | .growable _ => .ok (a.modify id fun r => ⟨r.column, .frozen⟩)

def isFrozen (a : Arena) (id : RegionId) : Except StorageError Bool := do
  return (← a.region id).state = .frozen

/-- The elements of a region. -/
def column (a : Arena) (id : RegionId) : Except StorageError Column := do
  return (← a.region id).column

end Arena

end Ragged
