import Ragged.Shape.Basic
import Ragged.Type.Basic

/-!
# Surveying a value

Three ways to find the shape of a value, which differ in what they ask of lazy sources.

* `Value.survey` with `Sight.everything`: every source is gone through to its end, its elements
  staying in the queue, and every leaf is sampled.
* `Value.survey` with `Sight.firstOnly`: of every source only the first element is looked at, and
  all that lies below it is marked as seen in part. Leaves are not sampled.
* `Value.lengthsBelow`, for known dimensions: sources are not touched at all, and lengths are noted
  of sequences only.

Since looking ahead changes the sources, the first two return the value along with the shape, also
when they fail: what was asked of its sources has been asked.
-/

set_option autoImplicit false

namespace Ragged

/-- How much of a value is looked at. -/
inductive Sight where
  | everything
  /-- Only the first element of each lazy source. With `records`, a tuple is a leaf, and so is a
  list of scalars that is not empty. -/
  | firstOnly (records : Bool)
deriving DecidableEq, Repr

namespace Sight

/-- Whether a sequence is a leaf: a record whose fields are told apart by position. -/
def isRecord (sight : Sight) (isTuple : Bool) (items : List Value) : Bool :=
  match sight with
  | .firstOnly true => isTuple || (!items.isEmpty && items.all Value.isScalar)
  | _ => false

end Sight

namespace Value

/-- What a survey returns: the value as it is afterwards, and the shape with this value added. -/
abbrev Surveyed (α : Type) := α × Except BuildError Shape

/-- What is noted of a sequence. -/
def noteSequence (length : Nat) (partly : Bool) (l : Level) : Level :=
  { l with lengths := l.lengths.observe length, partly := l.partly || partly }

/-- What is noted of a lazy source before its elements are known. -/
def noteIterator (partly : Bool) (l : Level) : Level :=
  { l with fromIterator := true, partly := l.partly || partly }

mutual

/-- Adds a value found at a depth to a shape. `partly` tells that it lies below a source of which
not all is looked at. -/
def survey (sight : Sight) (depth : Nat) (partly : Bool) (shape : Shape) :
    Value → Surveyed Value
  | .atom a =>
    (.atom a, do
      let shape ← shape.enterLeaf depth
      match sight with
      | .everything => return { shape with leaf := ← shape.leaf.join a }
      | .firstOnly _ => return shape)
  | .dict entries =>
    match shape.enterLeaf depth with
    | .error e => (.dict entries, .error e)
    | .ok shape =>
      match sight with
      | .firstOnly _ => (.dict entries, .ok shape)
      | .everything =>
        match shape.leaf.fieldsFor (Entries.keys entries) with
        | .error e => (.dict entries, .error e)
        | .ok fields =>
          let (entries, outcome) := surveyEntries sight fields [] entries
          (.dict entries, outcome.map fun fields => { shape with leaf := .struct fields })
  | .list items =>
    if sight.isRecord false items then (.list items, shape.enterLeaf depth)
    else
      match shape.enterContainer depth (noteSequence items.length partly) with
      | .error e => (.list items, .error e)
      | .ok shape =>
        let (items, outcome) := surveyItems sight (depth + 1) partly shape [] items
        (.list items, outcome)
  | .tuple items =>
    if sight.isRecord true items then (.tuple items, shape.enterLeaf depth)
    else
      match shape.enterContainer depth (noteSequence items.length partly) with
      | .error e => (.tuple items, .error e)
      | .ok shape =>
        let (items, outcome) := surveyItems sight (depth + 1) partly shape [] items
        (.tuple items, outcome)
  | .iter ⟨label, taken, replay, source, pulled⟩ =>
    match shape.enterContainer depth (noteIterator partly) with
    | .error e => (.iter ⟨label, taken, replay, source, pulled⟩, .error e)
    | .ok shape =>
      match sight with
      | .everything =>
        let fresh := (source.getD .nil).toList
        let pulled := pulled + fresh.length
        let count := replay.length + fresh.length
        let shape := { shape with
          levels := Shape.updateLevel (fun l => { l with lengths := l.lengths.observe count })
            depth shape.levels }
        match surveyItems sight (depth + 1) partly shape [] replay with
        | (replay, .error e) => (.iter ⟨label, taken, replay ++ fresh, none, pulled⟩, .error e)
        | (replay, .ok shape) =>
          let (fresh, outcome) := surveySource sight (depth + 1) partly shape source
          (.iter ⟨label, taken, replay ++ fresh, none, pulled⟩, outcome)
      | .firstOnly _ =>
        match replay, source with
        | first :: rest, source =>
          let (first, outcome) := survey sight (depth + 1) true shape first
          (.iter ⟨label, taken, first :: rest, source, pulled⟩, outcome)
        | [], some (.cons first rest) =>
          let (first, outcome) := survey sight (depth + 1) true shape first
          (.iter ⟨label, taken, [first], some (rest ⟨⟩), pulled + 1⟩, outcome)
        | [], _ => (.iter ⟨label, taken, [], none, pulled⟩, .ok shape)

/-- Adds one value after the other; `done` are those before, last one first. -/
def surveyItems (sight : Sight) (depth : Nat) (partly : Bool) (shape : Shape)
    (done : List Value) : List Value → Surveyed (List Value)
  | [] => (done.reverse, .ok shape)
  | v :: rest =>
    match survey sight depth partly shape v with
    | (v, .error e) => (done.reverseAux (v :: rest), .error e)
    | (v, .ok shape) => surveyItems sight depth partly shape (v :: done) rest

/-- Adds what a source has yet to yield. -/
def surveySource (sight : Sight) (depth : Nat) (partly : Bool) (shape : Shape) :
    Option (Supply Value) → Surveyed (List Value)
  | none => ([], .ok shape)
  | some pending => surveySupply sight depth partly shape [] pending

/-- Adds one value of a supply after the other. -/
def surveySupply (sight : Sight) (depth : Nat) (partly : Bool) (shape : Shape)
    (done : List Value) : Supply Value → Surveyed (List Value)
  | .nil => (done.reverse, .ok shape)
  | .cons v rest =>
    match survey sight depth partly shape v with
    | (v, .error e) => (done.reverseAux (v :: (rest ⟨⟩).toList), .error e)
    | (v, .ok shape) => surveySupply sight depth partly shape (v :: done) (rest ⟨⟩)

/-- Adds the values of a mapping, each to the shape of its field. -/
def surveyEntries (sight : Sight) (fields : List (String × Shape))
    (done : List (String × Value)) :
    List (String × Value) → List (String × Value) × Except BuildError (List (String × Shape))
  | [] => (done.reverse, .ok fields)
  | (key, v) :: rest =>
    match survey sight 0 false ((Entries.get? fields key).getD Shape.empty) v with
    | (v, .error e) => (done.reverseAux ((key, v) :: rest), .error e)
    | (v, .ok shape) =>
      surveyEntries sight (Entries.put fields key shape) ((key, v) :: done) rest

end

/-- A scalar is a leaf, and its type is joined to those of the leaves so far. -/
theorem survey_atom {depth : Nat} {partly : Bool} {S : Shape} (a : Atom) :
    (survey .everything depth partly S (.atom a)).2 =
      (S.enterLeaf depth).bind fun S => (S.leaf.join a).map fun leaf => { S with leaf } := by
  rw [survey]
  cases S.enterLeaf depth with
  | error e => rfl
  | ok S =>
    show S.leaf.join a >>= _ = (S.leaf.join a).map _
    cases S.leaf.join a <;> rfl

mutual

/-- Adds to `levels` the lengths of the sequences of a value, down to a number of dimensions. The
value is at the given depth; its sources are only noted. -/
def lengthsBelow (rank depth : Nat) (levels : List Level) : Value → Except BuildError (List Level)
  | .list items =>
    if depth = rank then .ok levels
    else
      lengthsBelowItems rank (depth + 1)
        (Shape.updateLevel (noteSequence items.length false) depth levels) items
  | .tuple items =>
    if depth = rank then .ok levels
    else
      lengthsBelowItems rank (depth + 1)
        (Shape.updateLevel (noteSequence items.length false) depth levels) items
  | .iter _ =>
    if depth = rank then .ok levels
    else .ok (Shape.updateLevel (noteIterator false) depth levels)
  | .dict _ => if depth = rank then .ok levels else .error (.shape (.mappingAsDimension depth))
  | .atom a =>
    if depth = rank then .ok levels else .error (.shape (.scalarAsDimension depth a.typeName))

def lengthsBelowItems (rank depth : Nat) (levels : List Level) :
    List Value → Except BuildError (List Level)
  | [] => .ok levels
  | v :: rest =>
    match lengthsBelow rank depth levels v with
    | .error e => .error e
    | .ok levels => lengthsBelowItems rank depth levels rest

end

end Value

/-- What the caller knows of the type of an array. -/
inductive Hint where
  /-- Nothing: dimensions and leaf are inferred. -/
  | infer
  /-- All of it. -/
  | full (type : ArrayType)
  /-- Only the leaf: dimensions are inferred. -/
  | uniform (leaf : LeafType)
deriving DecidableEq, Inhabited

/-- Finds the shape of a value, asking of its sources only what the hint leaves open. -/
def Value.shape (hint : Hint) (v : Value) : Value × Except BuildError Shape :=
  match hint with
  | .infer => v.survey .everything 0 false .empty
  | .uniform leaf => v.survey (.firstOnly leaf.isStruct) 0 false .empty
  | .full type =>
    (v, do return { Shape.empty with levels := ← v.lengthsBelow type.rank 0 [] })

end Ragged
