import Ragged.Entries
import Ragged.Error
import Ragged.Value.Basic

/-!
# The shape of a value

A shape sums up how a value nests: for every depth the lengths of the containers found there, the
depth of the leaves, and what the leaves are, joined into one sample. Samples of numbers are ordered
truth value, integer, float, complex, and the join of two is the greater; integers keep their range,
in which a truth value counts as 0 and 1. Texts join with texts. Mappings join if they have the same
keys, each key having a shape of its own for the values found under it.
-/

set_option autoImplicit false

namespace Ragged

/-- The lengths of the containers seen at one depth. -/
inductive Lengths where
  /-- No container of known length was seen. -/
  | unseen
  | all (n : Nat)
  | between (min max : Nat)
deriving DecidableEq, Repr, Inhabited

/-- The lengths seen, and one more. -/
def Lengths.observe (ls : Lengths) (n : Nat) : Lengths :=
  match ls with
  | .unseen => .all n
  | .all m => if m = n then .all m else .between (min m n) (max m n)
  | .between lo hi => .between (min lo n) (max hi n)

/-- What was seen at one depth. -/
structure Level where
  lengths : Lengths := .unseen
  /-- Some container is a lazy source. -/
  fromIterator : Bool := false
  /-- Some container lies below a lazy source of which not all was looked at. -/
  partly : Bool := false
deriving DecidableEq, Repr, Inhabited

mutual

/-- How a value nests. -/
structure Shape where
  /-- One entry for each depth at which containers were found, outermost first. -/
  levels : List Level
  /-- The depth of the leaves, if there are any. -/
  leafDepth : Option Nat
  leaf : LeafSample

/-- What the leaves are, as far as they were looked at. -/
inductive LeafSample where
  | nothing
  | bool
  | int (min max : Int)
  | float
  | complex
  | text
  /-- Mappings, with the shape of the values under each key, in the order of the first of them. -/
  | struct (fields : List (String × Shape))

end

instance : Inhabited LeafSample := ⟨.nothing⟩
instance : Inhabited Shape := ⟨⟨[], none, .nothing⟩⟩

namespace LeafSample

/-- The sort of a sample, as messages call it. -/
def name : LeafSample → String
  | .nothing => "nothing"
  | .bool => "bool"
  | .int _ _ => "int"
  | .float => "float"
  | .complex => "complex"
  | .text => "string"
  | .struct _ => "struct"

/-- The place of a sort of numbers among the others. -/
def rank? : LeafSample → Option Nat
  | .bool => some 0
  | .int _ _ => some 1
  | .float => some 2
  | .complex => some 3
  | _ => none

/-- The sample of one scalar. -/
def ofAtom : Atom → LeafSample
  | .bool _ => .bool
  | .int i => .int i i
  | .float _ => .float
  | .complex _ _ => .complex
  | .text _ => .text

/-- A sample joined with that of one more scalar. -/
def join (s : LeafSample) (a : Atom) : Except BuildError LeafSample :=
  let t := ofAtom a
  match s, t with
  | .nothing, t => .ok t
  | .text, .text => .ok .text
  | .int a b, .int c d => .ok (.int (min a c) (max b d))
  | .int lo hi, .bool | .bool, .int lo hi => .ok (.int (min lo 0) (max hi 1))
  | s, t =>
    match s.rank?, t.rank? with
    | some m, some n => .ok (if n ≤ m then s else t)
    | _, _ => .error (.type (.leavesDiffer s.name t.name))

/-- The text of the keys of mappings in messages. -/
def renderKeys (fields : List (String × Shape)) : String :=
  "\x7b" ++ ", ".intercalate (Entries.keys fields) ++ "\x7d"

/-- The fields a mapping of the given keys goes in with: those of the mappings before it, which must
have had the same keys, or none if it is the first leaf. -/
def fieldsFor (s : LeafSample) (keys : List String) : Except BuildError (List (String × Shape)) :=
  match s with
  | .nothing => .ok []
  | .struct fields =>
    match keys.find? (fun key => (Entries.get? fields key).isNone) with
    | some key => .error (.undeclaredField key (renderKeys fields))
    | none =>
      match (Entries.keys fields).find? (fun key => !keys.contains key) with
      | some key => .error (.missingField key (renderKeys fields))
      | none => .ok fields
  | s => .error (.type (.leavesDiffer s.name "struct"))

end LeafSample

namespace Shape

/-- The shape of nothing. -/
def empty : Shape := ⟨[], none, .nothing⟩

/-- The number of dimensions the nesting amounts to. -/
def rank (s : Shape) : Nat := s.leafDepth.getD s.levels.length

/-- Changes the level at a depth; levels above it that are still missing are added. -/
def updateLevel (f : Level → Level) : Nat → List Level → List Level
  | 0, [] => [f {}]
  | 0, l :: rest => f l :: rest
  | depth + 1, [] => {} :: updateLevel f depth []
  | depth + 1, l :: rest => l :: updateLevel f depth rest

/-- Notes a container at a depth. There must be no leaves. -/
def enterContainer (s : Shape) (depth : Nat) (f : Level → Level) : Except BuildError Shape :=
  if s.leafDepth = some depth then .error (.shape (.containerAmongLeaves depth))
  else .ok { s with levels := updateLevel f depth s.levels }

/-- Notes a leaf at a depth. There must be no containers, and no leaves anywhere else. -/
def enterLeaf (s : Shape) (depth : Nat) : Except BuildError Shape :=
  let here : Except BuildError Shape :=
    if depth < s.levels.length then .error (.shape (.leafAmongContainers depth))
    else .ok { s with leafDepth := some depth }
  match s.leafDepth with
  | some d => if d = depth then here else .error (.shape (.leavesApart d depth))
  | none => here

end Shape

end Ragged
