import Ragged.Storage.Arena

/-!
# The plain arena

To those who use it an arena is a list of regions, and a region is a kind, the scalars that were
added, and whether more can be. This file has that and nothing else: no column is packed, nothing
has a capacity and nothing is counted. It answers the same requests as the arena does, and what can
be said of any sequence of them is said here first, where it is plain to see:

> the numbers given out are 0, 1, 2 and so on; a region holds the scalars whose adding was answered
> with success, in order.

Each is a fact about one request and, by induction, about all.
-/

set_option autoImplicit false

namespace Ragged

namespace Arena

/-- What can be asked of an arena: to change it, or to read it. -/
inductive Request where
  | allocateFixed (kind : ElementKind) (length : Nat)
  | allocateGrowable (kind : ElementKind) (capacity : Nat)
  | append (id : RegionId) (s : Scalar)
  | freeze (id : RegionId)
  | isFrozen (id : RegionId)
  | length (id : RegionId)
  | element (id : RegionId) (index : Nat)
  /-- The kind of a region and all its elements. -/
  | elements (id : RegionId)

/-- The answer to a request that was not refused. -/
inductive Reply where
  /-- The number of the new region. -/
  | region (id : RegionId)
  | done
  | isFrozen (yes : Bool)
  | length (n : Nat)
  | element (s : Option Scalar)
  | elements (kind : ElementKind) (items : List Scalar)
deriving DecidableEq

abbrev Outcome := Except StorageError Reply

/-- Answers requests one after the other: what has become of the state, and all outcomes. -/
def runWith {σ : Type} (answer : σ → Request → σ × Outcome) (s : σ) :
    List Request → σ × List Outcome
  | [] => (s, [])
  | q :: asked =>
    let (s, outcome) := answer s q
    let (s, outcomes) := runWith answer s asked
    (s, outcome :: outcomes)

/-! ## What a run shows -/

/-- The number that an outcome gives out. -/
def Outcome.number? : Outcome → Option RegionId
  | .ok (.region id) => some id
  | _ => none

/-- The scalar that a request has added to a region, if that was asked and not refused. -/
def added? (id : RegionId) : Request × Outcome → Option Scalar
  | (.append id' s, .ok _) => if id' = id then some s else none
  | _ => none

/-- All scalars that were added to a region, in order. -/
def added (id : RegionId) (asked : List Request) (outcomes : List Outcome) : List Scalar :=
  (asked.zip outcomes).filterMap (added? id)

end Arena

/-- Whether a region can still be written to, as far as its users see. -/
inductive PlainStatus where
  /-- To be filled with exactly so many elements. -/
  | fixed (length : Nat)
  | growable
  | frozen
deriving DecidableEq

structure PlainRegion where
  kind : ElementKind
  items : List Scalar
  status : PlainStatus
deriving DecidableEq

namespace PlainRegion

/-- Why a region does not take a scalar. A fixed one is full when it holds what was declared. -/
def refusesAppend (id : RegionId) (s : Scalar) (r : PlainRegion) : Option StorageError :=
  if r.status = .frozen then some (.frozen id)
  else if r.status = .fixed r.items.length then some (.regionFull id r.items.length)
  else if s.kind ≠ r.kind then some (.kindMismatch r.kind s.kind)
  else none

/-- Why a region cannot be frozen. -/
def refusesFreeze (id : RegionId) (r : PlainRegion) : Option StorageError :=
  match r.status with
  | .frozen => some (.frozen id)
  | .fixed n => if r.items.length = n then none else some (.underfilled id r.items.length n)
  | .growable => none

def append (r : PlainRegion) (s : Scalar) : PlainRegion := { r with items := r.items ++ [s] }

def freeze (r : PlainRegion) : PlainRegion := { r with status := .frozen }

end PlainRegion

abbrev PlainArena := List PlainRegion

namespace PlainArena

open Arena (Request Reply Outcome)

/-- Puts a new region behind the others. -/
def allocate (rs : PlainArena) (kind : ElementKind) (status : PlainStatus) : PlainArena × Outcome :=
  (rs ++ [⟨kind, [], status⟩], .ok (.region ⟨rs.length⟩))

/-- Changes the region of a number, unless there is none or it refuses. -/
def change (rs : PlainArena) (id : RegionId) (refusal? : PlainRegion → Option StorageError)
    (f : PlainRegion → PlainRegion) : PlainArena × Outcome :=
  match rs[id.index]? with
  | none => (rs, .error (.unknownRegion id))
  | some r =>
    match refusal? r with
    | some e => (rs, .error e)
    | none => (rs.set id.index (f r), .ok .done)

/-- Reads the region of a number, if there is one. -/
def read (rs : PlainArena) (id : RegionId) (f : PlainRegion → Reply) : PlainArena × Outcome :=
  match rs[id.index]? with
  | none => (rs, .error (.unknownRegion id))
  | some r => (rs, .ok (f r))

def answer (rs : PlainArena) : Request → PlainArena × Outcome
  | .allocateFixed kind n => rs.allocate kind (.fixed n)
  | .allocateGrowable kind _ => rs.allocate kind .growable
  | .append id s => rs.change id (PlainRegion.refusesAppend id s) (·.append s)
  | .freeze id => rs.change id (PlainRegion.refusesFreeze id) .freeze
  | .isFrozen id => rs.read id fun r => .isFrozen (r.status = .frozen)
  | .length id => rs.read id fun r => .length r.items.length
  | .element id index => rs.read id fun r => .element r.items[index]?
  | .elements id => rs.read id fun r => .elements r.kind r.items

def run : PlainArena → List Request → PlainArena × List Outcome := Arena.runWith answer

/-! ## One request -/

theorem change_cases (rs : PlainArena) (id : RegionId)
    (refusal? : PlainRegion → Option StorageError) (f : PlainRegion → PlainRegion) :
    (∃ e, rs.change id refusal? f = (rs, .error e)) ∨
      ∃ r, rs[id.index]? = some r ∧ refusal? r = none ∧
        rs.change id refusal? f = (rs.set id.index (f r), .ok .done) := by
  unfold change
  cases hr : rs[id.index]? with
  | none => exact .inl ⟨_, rfl⟩
  | some r =>
    cases he : refusal? r with
    | some e => exact .inl ⟨e, by simp only [he]⟩
    | none => exact .inr ⟨r, rfl, he, by simp only [he]⟩

/-- **What a request does**: it puts an empty region behind the others and gives out its number, or
adds a scalar to a region, or freezes one, or nothing. -/
theorem answer_cases (rs : PlainArena) (q : Request) :
    (∃ r : PlainRegion, r.items = [] ∧ rs.answer q = (rs ++ [r], .ok (.region ⟨rs.length⟩)) ∧
        ∀ id outcome, Arena.added? id (q, outcome) = none) ∨
      (∃ id s r, q = .append id s ∧ rs[id.index]? = some r ∧ r.refusesAppend id s = none ∧
        rs.answer q = (rs.set id.index (r.append s), .ok .done)) ∨
      (∃ id r, q = .freeze id ∧ rs[id.index]? = some r ∧ r.refusesFreeze id = none ∧
        rs.answer q = (rs.set id.index r.freeze, .ok .done)) ∨
      (rs.answer q).1 = rs ∧ (rs.answer q).2.number? = none ∧
        ∀ id, Arena.added? id (q, (rs.answer q).2) = none := by
  cases q with
  | allocateFixed kind n => exact .inl ⟨⟨kind, [], .fixed n⟩, rfl, rfl, fun _ _ => rfl⟩
  | allocateGrowable kind n => exact .inl ⟨⟨kind, [], .growable⟩, rfl, rfl, fun _ _ => rfl⟩
  | append id s =>
    rcases rs.change_cases id (PlainRegion.refusesAppend id s) (·.append s) with
      ⟨e, he⟩ | ⟨r, hr, hno, heq⟩
    · right; right; right
      rw [answer, he]
      exact ⟨rfl, rfl, fun _ => rfl⟩
    · exact .inr (.inl ⟨id, s, r, rfl, hr, hno, heq⟩)
  | freeze id =>
    rcases rs.change_cases id (PlainRegion.refusesFreeze id) .freeze with
      ⟨e, he⟩ | ⟨r, hr, hno, heq⟩
    · right; right; right
      rw [answer, he]
      exact ⟨rfl, rfl, fun _ => rfl⟩
    · exact .inr (.inr (.inl ⟨id, r, rfl, hr, hno, heq⟩))
  | isFrozen id | length id | element id index | elements id =>
    right; right; right
    simp only [answer, read]
    cases rs[id.index]? <;> exact ⟨rfl, rfl, fun _ => rfl⟩

/-- The elements of a region; one that is not there has none. -/
def items (rs : PlainArena) (id : RegionId) : List Scalar :=
  (rs[id.index]?.map PlainRegion.items).getD []

theorem items_of_getElem? {rs : PlainArena} {id : RegionId} {r : PlainRegion}
    (hr : rs[id.index]? = some r) : rs.items id = r.items := by
  rw [items, hr]
  rfl

theorem items_set (rs : PlainArena) {id : RegionId} {r : PlainRegion} (hr : rs[id.index]? = some r)
    (r' : PlainRegion) (id' : RegionId) :
    items (rs.set id.index r') id' = if id = id' then r'.items else rs.items id' := by
  have hlt : id.index < rs.length := (List.getElem?_eq_some_iff.mp hr).1
  unfold items
  rw [List.getElem?_set]
  by_cases hid : id = id'
  · rw [if_pos hid, if_pos (congrArg RegionId.index hid), if_pos hlt]
    rfl
  · have hne : id.index ≠ id'.index := fun h => hid (by cases id; cases id'; exact congrArg _ h)
    rw [if_neg hid, if_neg hne]

/-- A region has just those elements more that a request has added to it. -/
theorem items_answer (rs : PlainArena) (q : Request) (id : RegionId) :
    (rs.answer q).1.items id = rs.items id ++ (Arena.added? id (q, (rs.answer q).2)).toList := by
  rcases rs.answer_cases q with ⟨r, hitems, heq, hnone⟩ | ⟨id', s, r, rfl, hr, -, heq⟩ |
    ⟨id', r, rfl, hr, -, heq⟩ | ⟨hsame, -, hnone⟩
  · rw [heq, hnone, Option.toList_none, List.append_nil, items, items]
    show (((rs ++ [r])[id.index]?).map PlainRegion.items).getD [] = _
    rw [List.getElem?_append]
    by_cases hlt : id.index < rs.length
    · rw [if_pos hlt]
    · -- the new region is as empty as none
      rw [if_neg hlt, List.getElem?_eq_none (Nat.le_of_not_lt hlt)]
      cases id.index - rs.length with
      | zero => exact hitems
      | succ i => rfl
  · rw [heq, items_set rs hr]
    by_cases hid : id' = id
    · subst hid
      rw [if_pos rfl, Arena.added?, if_pos rfl, items_of_getElem? hr]
      rfl
    · rw [if_neg hid, Arena.added?, if_neg hid, Option.toList_none, List.append_nil]
  · rw [heq, items_set rs hr]
    show _ = rs.items id ++ []
    rw [List.append_nil]
    by_cases hid : id' = id
    · subst hid
      rw [if_pos rfl, items_of_getElem? hr]
      rfl
    · rw [if_neg hid]
  · rw [hsame, hnone, Option.toList_none, List.append_nil]

/-- A number given out is that of the one region more. -/
theorem number?_answer (rs : PlainArena) (q : Request) :
    ∃ n, (rs.answer q).1.length = rs.length + n ∧
      (rs.answer q).2.number?.toList = (List.range' rs.length n).map RegionId.mk := by
  rcases rs.answer_cases q with ⟨r, -, heq, -⟩ | ⟨id, s, r, rfl, -, -, heq⟩ |
    ⟨id, r, rfl, -, -, heq⟩ | ⟨hsame, hnone, -⟩
  · rw [heq]
    exact ⟨1, List.length_append, rfl⟩
  · rw [heq]
    exact ⟨0, List.length_set, rfl⟩
  · rw [heq]
    exact ⟨0, List.length_set, rfl⟩
  · rw [hsame, hnone]
    exact ⟨0, rfl, rfl⟩

/-! ## All requests -/

theorem run_cons (rs : PlainArena) (q : Request) (asked : List Request) :
    rs.run (q :: asked) =
      (((rs.answer q).1.run asked).1, (rs.answer q).2 :: ((rs.answer q).1.run asked).2) := rfl

/-- **A region has just those elements more that were added to it.** -/
theorem items_run (asked : List Request) (id : RegionId) : ∀ rs : PlainArena,
    (rs.run asked).1.items id = rs.items id ++ Arena.added id asked (rs.run asked).2 := by
  induction asked with
  | nil => exact fun rs => (List.append_nil _).symm
  | cons q asked ih =>
    intro rs
    have hadded : Arena.added id (q :: asked) (rs.run (q :: asked)).2 =
        (Arena.added? id (q, (rs.answer q).2)).toList ++
          Arena.added id asked ((rs.answer q).1.run asked).2 := by
      rw [run_cons, Arena.added, List.zip_cons_cons, List.filterMap_cons]
      cases Arena.added? id (q, (rs.answer q).2) <;> rfl
    rw [hadded, run_cons, ih, items_answer, List.append_assoc]

/-- **The numbers given out are those of the regions that have come**, in order. -/
theorem numbers_run (asked : List Request) : ∀ rs : PlainArena,
    ∃ n, (rs.run asked).1.length = rs.length + n ∧
      (rs.run asked).2.filterMap Arena.Outcome.number? =
        (List.range' rs.length n).map RegionId.mk := by
  induction asked with
  | nil => exact fun rs => ⟨0, rfl, rfl⟩
  | cons q asked ih =>
    intro rs
    obtain ⟨m, hlength, hone⟩ := rs.number?_answer q
    obtain ⟨n, hlength', hrest⟩ := ih (rs.answer q).1
    rw [hlength] at hlength' hrest
    refine ⟨m + n, by rw [run_cons, hlength', Nat.add_assoc], ?_⟩
    have hcons : ((rs.answer q).2 :: ((rs.answer q).1.run asked).2).filterMap
        Arena.Outcome.number? = (rs.answer q).2.number?.toList ++
          ((rs.answer q).1.run asked).2.filterMap Arena.Outcome.number? := by
      rw [List.filterMap_cons]
      cases (rs.answer q).2.number? <;> rfl
    -- one range behind the other
    rw [run_cons, hcons, hone, hrest, ← List.map_append, List.range'_append_1]

end PlainArena

end Ragged
