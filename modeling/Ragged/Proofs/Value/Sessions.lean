import Ragged.Value.Pull

/-!
# A source and what is asked of it

`Pull` says of each operation what it comes to. Here the operations are gone through request by
request: the queue is served first, and then the source is asked for one element at a time, until
there are enough of them or it tells that there are no more. A `Session` writes down what passes on
both sides, the replies of the source and the elements handed out.

> Whatever is requested in a session, the source has been asked for its elements in order, each of
> them once, and at most once at its end.

The replies say so by themselves: with those that are elements stands, behind them, at most one that
is not. That the operations here are those of `Pull` is proved first (`Session.pull_run`), and all
that is not about replies is then proved of `Pull`.
-/

set_option autoImplicit false

namespace Ragged

variable {α : Type}

/-- A way to look ahead. -/
inductive Look where
  | peek
  | fill (n : Nat)
  | all

/-- What can be requested of a source: the next element, or a look ahead. -/
inductive Request where
  | next
  | look (how : Look)

namespace Pull

def look (p : Pull α) : Look → Pull α
  | .peek => p.peek.2
  | .fill n => p.fill n
  | .all => p.bufferAll

def serve (p : Pull α) : Request → Pull α
  | .next => p.next.2
  | .look how => p.look how

end Pull

/-- A source with a record of what has passed. -/
structure Session (α : Type) where
  pull : Pull α
  /-- What the source has replied; nothing when it told that there are no more. -/
  replies : List (Option α)
  /-- The elements handed out. -/
  returned : List α

namespace Session

/-! ## The operations, request by request -/

def start (label : Nat) (s : Supply α) : Session α := ⟨.ofSupply label s, [], []⟩

/-- Asks the source for one element. Having told that there are no more it is dropped, and not asked
again. -/
def ask (w : Session α) : Option α × Session α :=
  match w.pull.source with
  | none => (none, w)
  | some .nil =>
    (none, { w with pull := { w.pull with source := none }, replies := w.replies ++ [none] })
  | some (.cons a rest) =>
    (some a, { w with
      pull := { w.pull with source := some (rest ⟨⟩), pulled := w.pull.pulled + 1 }
      replies := w.replies ++ [some a] })

def enqueue (w : Session α) (a : α) : Session α :=
  { w with pull := { w.pull with replay := w.pull.replay ++ [a] } }

/-- Hands out an element, behind which others stay in the queue. -/
def handOut (w : Session α) (a : α) (queue : List α) : Session α :=
  { w with pull := { w.pull with taken := w.pull.taken ++ [a], replay := queue } }

/-- Asks up to so many times, and puts what comes into the queue. -/
def askFor : Nat → Session α → Session α
  | 0, w => w
  | k + 1, w =>
    match w.ask with
    | (some a, w) => askFor k (w.enqueue a)
    | (none, w) => w

theorem pending_ask {w w' : Session α} {a : α} (h : w.ask = (some a, w')) :
    w.pull.pending.toList = a :: w'.pull.pending.toList := by
  unfold ask at h
  split at h
  next => exact absurd h (by simp)
  next => exact absurd h (by simp)
  next b rest hs =>
    obtain ⟨hb, rfl⟩ := Prod.mk.inj h
    simp only [Pull.pending, hs, Option.getD_some, Supply.toList_cons, Option.some.inj hb]

/-- Asks until there are no more. -/
def askAll (w : Session α) : Session α :=
  match _ : w.ask with
  | (some a, w) => askAll (w.enqueue a)
  | (none, w) => w
termination_by w.pull.pending.toList.length
decreasing_by
  rename_i h
  rw [pending_ask h]
  exact Nat.lt_succ_self _

def next (w : Session α) : Option α × Session α :=
  match w.pull.replay with
  | a :: rest => (some a, w.handOut a rest)
  | [] =>
    match w.ask with
    | (some a, w) => (some a, w.handOut a [])
    | (none, w) => (none, w)

def peek (w : Session α) : Option α × Session α :=
  match w.pull.replay with
  | a :: _ => (some a, w)
  | [] =>
    match w.ask with
    | (some a, w) => (some a, w.enqueue a)
    | (none, w) => (none, w)

/-- Looks ahead until so many elements are in the queue, and tells how many there are. -/
def fill (n : Nat) (w : Session α) : Nat × Session α :=
  let w := w.askFor (n - w.pull.buffered)
  (w.pull.buffered, w)

def look (w : Session α) : Look → Session α
  | .peek => w.peek.2
  | .fill n => (w.fill n).2
  | .all => w.askAll

def serve (w : Session α) : Request → Session α
  | .next => { w.next.2 with returned := w.returned ++ w.next.1.toList }
  | .look how => w.look how

def run (w : Session α) (requests : List Request) : Session α := requests.foldl serve w

/-! ## All asking is asking so many times -/

/-- To ask until there are no more is to ask once more than there are elements. -/
theorem askAll_eq (w : Session α) : w.askAll = w.askFor (w.pull.pending.toList.length + 1) := by
  induction w using askAll.induct with
  | case1 w a w' h ih =>
    have hpending : (w'.enqueue a).pull.pending = w'.pull.pending := rfl
    rw [hpending] at ih
    rw [pending_ask h, List.length_cons, askFor, h]
    show w.askAll = askFor _ (w'.enqueue a)
    rw [← ih, askAll]
    split
    next b w₁ h₁ =>
      obtain ⟨rfl, rfl⟩ : a = b ∧ w' = w₁ := by simpa using h.symm.trans h₁
      rfl
    next h₁ => exact absurd (h.symm.trans h₁) (by simp)
  | case2 w w' h =>
    rw [askFor, h, askAll]
    split
    next h₁ => exact absurd (h.symm.trans h₁) (by simp)
    next w₁ h₁ => exact (Prod.mk.inj (h.symm.trans h₁)).2.symm

theorem fill_one_of_queue {w : Session α} {a : α} {rest : List α} (h : w.pull.replay = a :: rest) :
    (w.fill 1).2 = w := by
  have hnone : 1 - w.pull.buffered = 0 := by simp [Pull.buffered, h]
  rw [fill, hnone, askFor]

/-- To peek is to look at the front of a queue with at least one element, if there is one. -/
theorem peek_eq (w : Session α) : w.peek = ((w.fill 1).2.pull.replay.head?, (w.fill 1).2) := by
  cases hr : w.pull.replay with
  | cons a rest => rw [fill_one_of_queue hr, peek, hr, List.head?_cons]
  | nil =>
    obtain ⟨⟨label, taken, replay, source, pulled⟩, replies, returned⟩ := w
    obtain rfl : replay = [] := hr
    cases source with
    | none => rfl
    | some s => cases s <;> rfl

/-- And what is handed out next is taken from it. -/
theorem next_eq (w : Session α) : w.next =
    match (w.fill 1).2.pull.replay with
    | [] => (none, (w.fill 1).2)
    | a :: rest => (some a, (w.fill 1).2.handOut a rest) := by
  cases hr : w.pull.replay with
  | cons a rest => rw [fill_one_of_queue hr, next, hr]
  | nil =>
    obtain ⟨⟨label, taken, replay, source, pulled⟩, replies, returned⟩ := w
    obtain rfl : replay = [] := hr
    cases source with
    | none => rfl
    | some s => cases s <;> rfl

/-! ## What the operations come to -/

/-- Asking so often looks ahead by so many elements. -/
theorem pull_askFor (k : Nat) : ∀ w : Session α,
    (w.askFor k).pull = w.pull.fill (w.pull.replay.length + k) := by
  induction k with
  | zero =>
    intro w
    obtain ⟨⟨label, taken, replay, source, pulled⟩, replies, returned⟩ := w
    cases source <;> simp [askFor, Pull.fill, Pull.pending, Supply.draw_eq]
  | succ k ih =>
    intro w
    obtain ⟨⟨label, taken, replay, source, pulled⟩, replies, returned⟩ := w
    cases source with
    | none => simp [askFor, ask, Pull.fill, Pull.pending, Supply.draw_eq]
    | some s => cases s with
      | nil => simp [askFor, ask, Pull.fill, Pull.pending, Supply.draw_eq]
      | cons a rest =>
        simp only [askFor, ask, ih]
        simp [enqueue, Pull.fill, Pull.pending, Supply.draw_eq]
        omega

theorem pull_fill (n : Nat) (w : Session α) : (w.fill n).2.pull = w.pull.fill n := by
  simp [fill, pull_askFor, Pull.fill, Pull.buffered]

theorem pull_askAll (w : Session α) : w.askAll.pull = w.pull.bufferAll := by
  rw [askAll_eq, pull_askFor]
  simp [Pull.fill, Pull.bufferAll, Supply.draw_eq, List.take_of_length_le]

theorem pull_peek (w : Session α) : w.peek.1 = w.pull.peek.1 ∧ w.peek.2.pull = w.pull.peek.2 := by
  rw [peek_eq, Pull.peek, pull_fill]
  exact ⟨rfl, rfl⟩

theorem pull_next (w : Session α) : w.next.1 = w.pull.next.1 ∧ w.next.2.pull = w.pull.next.2 := by
  rw [next_eq, Pull.next, pull_fill]
  cases (w.pull.fill 1).replay with
  | nil => exact ⟨rfl, pull_fill 1 w⟩
  | cons a rest => exact ⟨rfl, by rw [← pull_fill]; rfl⟩

theorem pull_look (w : Session α) (how : Look) : (w.look how).pull = w.pull.look how := by
  cases how with
  | peek => exact w.pull_peek.2
  | fill n => exact pull_fill n w
  | all => exact w.pull_askAll

theorem pull_serve (w : Session α) (request : Request) :
    (w.serve request).pull = w.pull.serve request := by
  cases request with
  | next => exact w.pull_next.2
  | look how => exact w.pull_look how

/-- **A session makes of the source what is said of `Pull`.** -/
theorem pull_run (requests : List Request) : ∀ w : Session α,
    (w.run requests).pull = requests.foldl Pull.serve w.pull := by
  induction requests with
  | nil => exact fun _ => rfl
  | cons request rest ih =>
    intro w
    rw [List.foldl_cons, ← pull_serve]
    exact ih (w.serve request)

end Session

/-! ## Nothing is lost, and nothing comes twice -/

namespace Pull

/-- All that was counted was handed out or is in the queue. -/
def Counted (p : Pull α) : Prop := p.pulled = p.yielded.length

theorem elements_look (p : Pull α) (how : Look) : (p.look how).elements = p.elements := by
  cases how with
  | peek => exact elements_fill p 1
  | fill n => exact elements_fill p n
  | all => exact elements_bufferAll p

theorem elements_serve (p : Pull α) (request : Request) :
    (p.serve request).elements = p.elements := by
  cases request with
  | next => exact elements_next p
  | look how => exact elements_look p how

theorem taken_look (p : Pull α) (how : Look) : (p.look how).taken = p.taken := by
  cases how <;> rfl

theorem remaining_look (p : Pull α) (how : Look) : (p.look how).remaining = p.remaining :=
  List.append_cancel_left ((congrArg (· ++ (p.look how).remaining) (taken_look p how)).symm.trans
    (elements_look p how))

theorem taken_next (p : Pull α) : p.next.2.taken = p.taken ++ p.next.1.toList := by
  have htaken : (p.fill 1).taken = p.taken := rfl
  unfold next
  dsimp only
  split
  next => rw [htaken, Option.toList_none, List.append_nil]
  next => rw [htaken, Option.toList_some]

theorem knownLength?_eq (p : Pull α) :
    p.knownLength? = if p.isDrained then some p.remaining.length else none := by
  cases hended : p.ended with
  | false => simp [knownLength?, isDrained, hended]
  | true =>
    have hsome : p.knownLength? = some p.replay.length := if_pos hended
    rw [isDrained, hended, if_pos rfl, length_of_knownLength? hsome, hsome]

theorem Counted.fill {p : Pull α} (h : p.Counted) (n : Nat) : (p.fill n).Counted := by
  simp only [Counted, yielded, Pull.fill, List.length_append] at h ⊢
  omega

theorem Counted.bufferAll {p : Pull α} (h : p.Counted) : p.bufferAll.Counted := by
  simp only [Counted, yielded, Pull.bufferAll, List.length_append] at h ⊢
  omega

theorem Counted.next {p : Pull α} (h : p.Counted) : p.next.2.Counted := by
  have hfill := h.fill 1
  unfold Pull.next
  dsimp only
  split
  next => exact hfill
  next a rest hr =>
    simpa [Counted, yielded, hr] using hfill

theorem Counted.serve {p : Pull α} (h : p.Counted) (request : Request) :
    (p.serve request).Counted := by
  cases request with
  | next => exact h.next
  | look how => cases how with
    | peek => exact h.fill 1
    | fill n => exact h.fill n
    | all => exact h.bufferAll

end Pull

namespace Session

/-! ## What the source has replied -/

/-- The source has been asked for the elements it has yielded, one after the other, and once more if
it is known to have ended. -/
def Heard (w : Session α) : Prop :=
  w.replies = w.pull.yielded.map some ++ if w.pull.isDrained then [none] else []

theorem heard_askFor (k : Nat) : ∀ {w : Session α}, w.Heard → (w.askFor k).Heard := by
  induction k with
  | zero => exact fun h => h
  | succ k ih =>
    intro w h
    obtain ⟨⟨label, taken, replay, source, pulled⟩, replies, returned⟩ := w
    cases source with
    | none => exact h
    | some s =>
      obtain rfl : replies = (taken ++ replay).map some := by
        simpa [Heard, Pull.yielded, Pull.isDrained, Pull.ended] using h
      cases s with
      | nil => simp [askFor, ask, Heard, Pull.yielded, Pull.isDrained, Pull.ended]
      | cons a rest =>
        refine ih ?_
        simp [enqueue, Heard, Pull.yielded, Pull.isDrained, Pull.ended]

theorem heard_next {w : Session α} (h : w.Heard) : w.next.2.Heard := by
  have hfill : (w.fill 1).2.Heard := heard_askFor _ h
  rw [next_eq]
  cases hr : (w.fill 1).2.pull.replay with
  | nil => exact hfill
  | cons a rest =>
    -- what leaves the queue has been yielded just as before
    have hyielded : ((w.fill 1).2.handOut a rest).pull.yielded = (w.fill 1).2.pull.yielded := by
      simp [handOut, Pull.yielded, hr]
    rw [Heard, hyielded]
    exact hfill

theorem heard_serve {w : Session α} (h : w.Heard) (request : Request) :
    (w.serve request).Heard := by
  cases request with
  | next => exact heard_next h
  | look how => cases how with
    | peek =>
      rw [serve, look, peek_eq]
      exact heard_askFor _ h
    | fill n => exact heard_askFor _ h
    | all =>
      rw [serve, look, askAll_eq]
      exact heard_askFor _ h

/-- Looking ahead hands out nothing. -/
theorem returned_askFor (k : Nat) : ∀ w : Session α, (w.askFor k).returned = w.returned := by
  induction k with
  | zero => exact fun _ => rfl
  | succ k ih =>
    intro w
    obtain ⟨⟨label, taken, replay, source, pulled⟩, replies, returned⟩ := w
    cases source with
    | none => rfl
    | some s => cases s with
      | nil => rfl
      | cons a rest => exact ih _

theorem returned_look (w : Session α) (how : Look) : (w.look how).returned = w.returned := by
  cases how with
  | peek =>
    rw [look, peek_eq]
    exact returned_askFor _ w
  | fill n => exact returned_askFor _ w
  | all =>
    rw [look, askAll_eq]
    exact returned_askFor _ w

/-- What has passed in a session on a supply with these elements. -/
structure Accounts (elements : List α) (w : Session α) : Prop where
  elements : w.pull.elements = elements
  counted : w.pull.Counted
  heard : w.Heard
  returned : w.returned = w.pull.taken

theorem Accounts.serve {elements : List α} {w : Session α} (h : w.Accounts elements)
    (request : Request) : (w.serve request).Accounts elements where
  elements := by rw [pull_serve, Pull.elements_serve, h.elements]
  counted := by
    rw [pull_serve]
    exact h.counted.serve request
  heard := heard_serve h.heard request
  returned := by
    rw [pull_serve]
    cases request with
    | next =>
      have hnext := w.pull_next.1
      rw [Pull.serve, Pull.taken_next, ← hnext, ← h.returned]
      rfl
    | look how =>
      rw [Pull.serve, Pull.taken_look, ← h.returned]
      exact returned_look w how

theorem Accounts.run {elements : List α} (requests : List Request) : ∀ {w : Session α},
    w.Accounts elements → (w.run requests).Accounts elements := by
  induction requests with
  | nil => exact fun h => h
  | cons request rest ih => exact fun h => ih (h.serve request)

theorem accounts_start (label : Nat) (s : Supply α) : (start label s).Accounts s.toList where
  elements := by simp [start, Pull.ofSupply, Pull.elements, Pull.pending]
  counted := rfl
  heard := rfl
  returned := rfl

/-! ## What is answered -/

/-- **What is seen by peeking is handed out next**, however far one looks in between. -/
theorem next_looks_peek (w : Session α) (looks : List Look) :
    (looks.foldl look w.peek.2).next.1 = w.peek.1 := by
  have hpull : ∀ (looks : List Look) (w : Session α),
      (looks.foldl look w).pull.remaining = w.pull.remaining := by
    intro looks
    induction looks with
    | nil => exact fun _ => rfl
    | cons how rest ih =>
      intro w
      rw [List.foldl_cons, ih, pull_look, Pull.remaining_look]
  have hpeek : w.peek.1 = w.next.1 := by
    rw [peek_eq, next_eq]
    cases (w.fill 1).2.pull.replay <;> rfl
  have hremaining : w.peek.2.pull.remaining = w.pull.remaining := by
    rw [w.pull_peek.2]
    exact Pull.remaining_look w.pull .peek
  rw [(looks.foldl look w.peek.2).pull_next.1, Pull.fst_next, hpull, hremaining, ← Pull.fst_next,
    ← w.pull_next.1, hpeek]

/-- **Filling gives as many as wanted, or as there are**, and takes none away. -/
theorem fst_fill (n : Nat) (w : Session α) : (w.fill n).1 =
    if n < w.pull.buffered then w.pull.buffered else min n w.pull.remaining.length := by
  have hfst : (w.fill n).1 = (w.pull.fill n).buffered := congrArg Pull.buffered (pull_fill n w)
  rw [hfst, Pull.buffered, Pull.replay_fill, Pull.buffered, Pull.remaining]
  simp only [List.length_append, List.length_take]
  split <;> omega

end Session

/-- **Every session accounts for all elements.** After whatever requests, what has been handed out,
the queue and what the source has not yielded are the elements of the source; the source has been
asked for what it yielded, each of it once and in order, and once more just if it is known to have
ended; what is counted and known follows from that; and peeking and filling answer as they should.
-/
theorem session_accounts (label : Nat) (s : Supply α) (requests : List Request) :
    let w := (Session.start label s).run requests
    w.pull = requests.foldl Pull.serve (.ofSupply label s) ∧
      w.returned ++ (w.pull.replay ++ w.pull.pending.toList) = s.toList ∧
      w.pull.pulled = w.returned.length + w.pull.buffered ∧
      w.replies = (s.toList.take w.pull.pulled).map some ++
        (if w.pull.isDrained then [none] else []) ∧
      w.pull.knownLength? =
        (if w.pull.isDrained then some w.pull.remaining.length else none) ∧
      (∀ looks : List Look, (looks.foldl Session.look w.peek.2).next.1 = w.peek.1) ∧
      ∀ n, (w.fill n).1 =
        if n < w.pull.buffered then w.pull.buffered else min n w.pull.remaining.length := by
  intro w
  have h : w.Accounts s.toList := (Session.accounts_start label s).run requests
  have hyielded : s.toList.take w.pull.pulled = w.pull.yielded := by
    rw [← h.elements, h.counted, Pull.elements, ← List.append_assoc]
    exact List.take_left
  refine ⟨Session.pull_run requests _, ?_, ?_, ?_, w.pull.knownLength?_eq,
    Session.next_looks_peek w, fun n => Session.fst_fill n w⟩
  · rw [h.returned, ← h.elements]
    rfl
  · rw [h.counted, h.returned, Pull.yielded, List.length_append]
    rfl
  · rw [hyielded]
    exact h.heard

/-- Of two elements one is peeked at, three are wanted, and then both are handed out. -/
example : ((Session.start 0 (.ofList [4, 7])).run
    [.look .peek, .look (.fill 3), .next, .next, .next]).replies = [some 4, some 7, none] := by
  decide

end Ragged
