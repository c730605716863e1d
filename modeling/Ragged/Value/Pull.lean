import Ragged.Value.Supply

/-!
# Pulling from a lazy source

A `Pull` is a source of elements that can be asked for one element at a time, and only once for
each. Looking ahead moves elements from the source into a queue, and the queue is always served
before the source is asked again. The source is asked at its end at most once: it is dropped when it
tells that it has no more.

A source here is the supply of what it has yet to yield, called `pending`, and `taken` keeps what
was handed out. Two views say what the operations do. `elements`, which is `taken`, the queue and
`pending` one behind the other, is what the source yields over its life, and looking ahead and
handing out leave it as it is: nothing is lost, nothing comes twice, and the order stays.
`remaining` is what is left of it; looking ahead does not change that either, and `next` takes its
head.
-/

set_option autoImplicit false

namespace Ragged

/-- A lazy source of elements, with the elements looked ahead to. -/
structure Pull (α : Type) where
  /-- The number of the source, to tell sources apart. -/
  label : Nat
  /-- Elements handed out, in order. -/
  taken : List α
  /-- Elements the source has yielded but which are not handed out yet. -/
  replay : List α
  /-- Elements the source has yet to yield; none once it has told that it has no more. -/
  source : Option (Supply α)
  /-- The number of elements the source has yielded. -/
  pulled : Nat
deriving Inhabited

namespace Pull

variable {α : Type}

/-- A source nothing was asked of yet. -/
def ofSupply (label : Nat) (elements : Supply α) : Pull α := ⟨label, [], [], some elements, 0⟩

/-- What the source has yet to yield. -/
def pending (p : Pull α) : Supply α := p.source.getD .nil

/-- Whether the source has told that it has no more. -/
def ended (p : Pull α) : Bool := p.source.isNone

/-- Everything the source yields over its life, in order. -/
def elements (p : Pull α) : List α := p.taken ++ (p.replay ++ p.pending.toList)

/-- What is still to be handed out. -/
def remaining (p : Pull α) : List α := p.replay ++ p.pending.toList

@[simp] theorem remaining_ofSupply (label : Nat) (elements : Supply α) :
    (ofSupply label elements).remaining = elements.toList := rfl

/-- What is still to be handed out, as a supply. -/
def left (p : Pull α) : Supply α := p.pending.behind p.replay

theorem toList_left (p : Pull α) : p.left.toList = p.remaining := by simp [left, remaining]

/-- What the source has yielded so far, in order. -/
def yielded (p : Pull α) : List α := p.taken ++ p.replay

/-- Whether the source has ended; elements looked ahead to may be left. -/
def isDrained (p : Pull α) : Bool := p.ended

/-- Whether there is nothing more to hand out, as far as is known. -/
def isExhausted (p : Pull α) : Bool := p.ended && p.replay.isEmpty

/-- The number of elements looked ahead to. -/
def buffered (p : Pull α) : Nat := p.replay.length

/-- How many elements are still to come, known once the source has ended. -/
def knownLength? (p : Pull α) : Option Nat := if p.ended then some p.replay.length else none

theorem length_of_knownLength? {p : Pull α} {n : Nat} (h : p.knownLength? = some n) :
    p.remaining.length = n := by
  obtain ⟨label, taken, replay, source, pulled⟩ := p
  cases source with
  | none => simpa [knownLength?, ended, remaining, pending] using h
  | some s => simp [knownLength?, ended] at h

/-- Looks ahead until at least `n` elements are in the queue or the source has ended. -/
def fill (p : Pull α) (n : Nat) : Pull α :=
  let wanted := n - p.replay.length
  let (fresh, rest) := p.pending.draw wanted
  { p with
    replay := p.replay ++ fresh
    source := if fresh.length < wanted then none else p.source.map fun _ => rest
    pulled := p.pulled + fresh.length }

/-- What looking ahead does to the queue and to what stays behind it. -/
theorem replay_fill (p : Pull α) (n : Nat) :
    (p.fill n).replay = p.replay ++ p.pending.toList.take (n - p.replay.length) := by
  simp [fill, Supply.draw_eq]

theorem pending_fill (p : Pull α) (n : Nat) :
    (p.fill n).pending.toList = p.pending.toList.drop (n - p.replay.length) := by
  simp only [fill, Supply.draw_eq, pending, List.length_take]
  split
  next h => rw [List.drop_eq_nil_of_le (by omega)]; rfl
  next h => cases p.source <;> simp

theorem remaining_fill (p : Pull α) (n : Nat) : (p.fill n).remaining = p.remaining := by
  simp [remaining, replay_fill, pending_fill]

theorem elements_fill (p : Pull α) (n : Nat) : (p.fill n).elements = p.elements := by
  have htaken : (p.fill n).taken = p.taken := rfl
  simp [elements, replay_fill, pending_fill, htaken]

/-- After looking ahead there are as many elements in the queue as wanted, or none left in the
source. -/
theorem filled_or_ended (p : Pull α) (n : Nat) :
    n ≤ (p.fill n).replay.length ∨ (p.fill n).pending.toList = [] := by
  rw [replay_fill, pending_fill, List.length_append, List.length_take]
  by_cases h : n - p.replay.length ≤ p.pending.toList.length
  · left; omega
  · right; rw [List.drop_eq_nil_of_le (by omega)]

theorem buffered_le (p : Pull α) : p.buffered ≤ p.remaining.length := by
  rw [buffered, remaining, List.length_append]
  omega

/-- Looking ahead brings as much into the queue as is wanted there, if there is as much. -/
theorem buffered_fill (p : Pull α) (n : Nat) :
    (p.fill n).buffered = max p.buffered (min n p.remaining.length) := by
  rw [buffered, replay_fill, List.length_append, List.length_take, remaining, List.length_append,
    buffered]
  omega

/-- It asks for what is missing in the queue, and gets as much of it as there is. -/
theorem pulled_fill (p : Pull α) (n : Nat) : (p.fill n).pulled =
    p.pulled + min (n - p.buffered) p.pending.toList.length := by
  simp only [fill, Supply.draw_eq, List.length_take, buffered]

theorem pulled_fill_le (p : Pull α) (n : Nat) :
    (p.fill n).pulled ≤ p.pulled + (n - p.buffered) := by
  rw [pulled_fill]
  exact Nat.add_le_add_left (Nat.min_le_left ..) _

/-- Nothing is asked where enough waits in the queue. -/
theorem fill_of_le {p : Pull α} {n : Nat} (h : n ≤ p.buffered) : p.fill n = p := by
  obtain ⟨label, taken, replay, source, pulled⟩ := p
  have hwanted : n - replay.length = 0 := Nat.sub_eq_zero_of_le h
  cases source <;> simp [fill, hwanted, Supply.draw_eq, pending]

/-- Where no more is left than wanted, all of it is in the queue. -/
theorem replay_fill_of_le {p : Pull α} {n : Nat} (h : p.remaining.length ≤ n) :
    (p.fill n).replay = p.remaining := by
  rw [remaining, List.length_append] at h
  rw [replay_fill, List.take_of_length_le (by omega), remaining]

/-- Looks ahead to the end of the source. -/
def bufferAll (p : Pull α) : Pull α :=
  let fresh := p.pending.toList
  { p with
    replay := p.replay ++ fresh
    source := none
    pulled := p.pulled + fresh.length }

theorem elements_bufferAll (p : Pull α) : p.bufferAll.elements = p.elements := by
  simp [bufferAll, elements, pending]

/-- The next element, looked ahead to but not handed out. -/
def peek (p : Pull α) : Option α × Pull α :=
  let p := p.fill 1
  (p.replay.head?, p)

/-- Replaces the next element by another, if there is one. -/
def setFront (p : Pull α) (a : α) : Pull α :=
  match p.replay with
  | [] => p
  | _ :: rest => { p with replay := a :: rest }

/-- Hands out the next element. -/
def next (p : Pull α) : Option α × Pull α :=
  let p := p.fill 1
  match p.replay with
  | [] => (none, p)
  | a :: rest => (some a, { p with taken := p.taken ++ [a], replay := rest })

theorem elements_next (p : Pull α) : p.next.2.elements = p.elements := by
  rw [← elements_fill p 1]
  unfold next
  dsimp only
  split <;> simp_all [elements, pending]

/-- What comes next is the first of what is left. -/
theorem fst_next (p : Pull α) : p.next.1 = p.remaining.head? := by
  rw [← remaining_fill p 1]
  unfold next
  dsimp only
  split
  next h =>
    have := filled_or_ended p 1
    simp_all [remaining]
  next h => simp_all [remaining]

theorem remaining_next (p : Pull α) : p.next.2.remaining = p.remaining.tail := by
  rw [← remaining_fill p 1]
  unfold next
  dsimp only
  split
  next h =>
    have := filled_or_ended p 1
    simp_all [remaining]
  next h => simp_all [remaining, pending]

/-- Hands out as many elements as there are in `done`, which is what has become of them; `atEnd` if
one more was asked for when none was left. -/
def handOut (p : Pull α) (done : List α) (atEnd : Bool) : Pull α :=
  let fresh := done.length - p.replay.length
  { p with
    taken := p.taken ++ done
    replay := p.replay.drop done.length
    source := if atEnd then none else p.source.map (·.drop fresh)
    pulled := p.pulled + fresh }

theorem remaining_handOut (p : Pull α) (done : List α) {atEnd : Bool}
    (hend : atEnd = true → p.remaining.length ≤ done.length) :
    (p.handOut done atEnd).remaining = p.remaining.drop done.length := by
  cases atEnd with
  | false => cases h : p.source <;> simp [handOut, remaining, pending, List.drop_append, h]
  | true =>
    have hle := hend rfl
    simp only [remaining, List.length_append] at hle
    rw [List.drop_eq_nil_of_le (by simpa [remaining] using hle)]
    simp [handOut, remaining, pending]
    omega

/-- The state of a source in messages. -/
def render (p : Pull α) : String :=
  "ValueIter \x7b exhausted: " ++ toString p.ended ++ ", buffered: " ++ toString p.replay.length
    ++ ", pulled: " ++ toString p.pulled ++ " \x7d"

end Pull

end Ragged
