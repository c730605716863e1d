import Ragged.Document.Settings
import Ragged.Error
import Ragged.Type.Parser

/-!
# Configuration

What the caller may decide once for all constructions: the leaf of arrays without leaves, the least
width of inferred integers, and how regions grow. None of it is needed to write a value at a known
type; growth shows in the arena's counts only.
-/

set_option autoImplicit false

namespace Ragged

/-- The narrowest integers that are inferred. -/
inductive IntegerWidth where
  | int32
  | int64
deriving DecidableEq, Repr, Inhabited

def IntegerWidth.name : IntegerWidth → String
  | .int32 => "int32"
  | .int64 => "int64"

def IntegerWidth.ofName? : String → Option IntegerWidth
  | "int32" => some .int32
  | "int64" => some .int64
  | _ => none

structure Config where
  /-- The leaf type where no leaf was seen. -/
  defaultLeaf : LeafType := .scalar .float64
  integerWidth : IntegerWidth := .int32
  growth : GrowthPolicy := {}
deriving DecidableEq, Inhabited

namespace Config

/-- The settings of a configuration before they are checked. -/
structure Draft where
  defaultLeaf : String := ScalarKind.float64.name
  integerWidth : IntegerWidth := .int32
  initialCapacity : Nat := 8
  growthFactor : Binary64 := ⟨0x4000000000000000⟩

/-- Enters one setting; its name must be known and its value of the right type. An integer counts as
a float where a float is wanted, and a table whose only entry holds nothing as the name of that
entry where one of several names is wanted. -/
def Draft.set? (d : Draft) : String × Setting → Option Draft
  | ("default_leaf", .text s) => some { d with defaultLeaf := s }
  | ("integer_width", v) => do
    return { d with integerWidth := ← IntegerWidth.ofName? (← v.choice?) }
  | ("initial_var_capacity", .integer i) =>
    if 0 ≤ i ∧ i < 0x10000000000000000 then some { d with initialCapacity := i.toNat } else none
  | ("growth_factor", .float x) => some { d with growthFactor := x }
  | ("growth_factor", .integer i) =>
    if -0x8000000000000000 ≤ i ∧ i < 0x10000000000000000 then some { d with growthFactor := .ofInt i } else none
  | _ => none

/-- Checks the settings, the default leaf first. Regions must really grow. -/
def Draft.check (d : Draft) : Except ConfigFault Config :=
  match LeafType.parse d.defaultLeaf with
  | .error e => .error (.defaultLeaf d.defaultLeaf e)
  | .ok leaf =>
    if leaf.isStruct then .error .structAsDefaultLeaf
    else if d.growthFactor.isFinite && d.growthFactor.datum.exceedsOne then
      .ok ⟨leaf, d.integerWidth, ⟨d.initialCapacity, d.growthFactor⟩⟩
    else .error (.growthFactor d.growthFactor.render)

def parse (source : String) : Except BuildError Config :=
  match (Settings.parse source).bind (·.foldlM Draft.set? {}) with
  | none => .error (.config .malformed)
  | some draft => draft.check.mapError .config

/-- Reads the file at a path, given what reading it gave. -/
def load (path : String) (contents : Except FileFault String) : Except BuildError Config :=
  match contents with
  | .error cause => .error (.config (.unreadable path cause))
  | .ok source => parse source

/-- The configuration that an environment variable names a file for; the defaults if it is not set.
-/
def ofVariable (path : Option String) (read : String → Except FileFault String) :
    Except BuildError Config :=
  match path with
  | none => .ok {}
  | some path => load path (read path)

end Config

end Ragged
