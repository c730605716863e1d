/-!
# Supplies made on demand

A supply is a finite sequence of elements that are made one at a time: behind an element stands the
way to the rest and not the rest itself, so that the first few elements of a very long supply cost
no more than those of a short one.

`toList` makes all of them and is the view in which the operations are described. Supplies with the
same elements are equal (`ofList_toList`), so it can never be told from the outcome how an element
was made, only from what it costs.
-/

set_option autoImplicit false

namespace Ragged

/-- What is put to a supply to get on. There is only one way to ask. -/
structure Supply.Ask where

/-- A finite sequence of elements, made on demand. -/
inductive Supply (α : Type) where
  | nil
  | cons (head : α) (tail : Supply.Ask → Supply α)
deriving Inhabited

namespace Supply

variable {α β : Type}

/-- Makes all elements and puts them behind those seen so far, of which the last comes first. -/
def toListOnto (seen : List α) : Supply α → List α
  | nil => seen.reverse
  | cons a tail => toListOnto (a :: seen) (tail ⟨⟩)

def toList (s : Supply α) : List α := s.toListOnto []

theorem toListOnto_eq (seen : List α) (s : Supply α) :
    s.toListOnto seen = seen.reverse ++ s.toList := by
  unfold toList
  induction s generalizing seen with
  | nil => simp [toListOnto]
  | cons a tail ih => simp [toListOnto, ih ⟨⟩ (a :: seen), ih ⟨⟩ [a]]

@[simp] theorem toList_nil : (nil : Supply α).toList = [] := rfl

@[simp] theorem toList_cons (a : α) (tail : Ask → Supply α) :
    (cons a tail).toList = a :: (tail ⟨⟩).toList := by
  simp [toList, toListOnto, toListOnto_eq [a]]

/-- A supply of elements that are there already. -/
def ofList : List α → Supply α
  | [] => nil
  | a :: rest => cons a fun _ => ofList rest

@[simp] theorem toList_ofList (as : List α) : (ofList as).toList = as := by
  induction as with
  | nil => rfl
  | cons a rest ih => simp [ofList, ih]

/-- A supply is determined by its elements. -/
@[simp] theorem ofList_toList (s : Supply α) : ofList s.toList = s := by
  induction s with
  | nil => rfl
  | cons a tail ih => simp [ofList, ih]

/-- A supply that first gives elements which are there already. -/
def behind (s : Supply α) : List α → Supply α
  | [] => s
  | a :: rest => cons a fun _ => behind s rest

@[simp] theorem toList_behind (s : Supply α) (as : List α) :
    (s.behind as).toList = as ++ s.toList := by
  induction as with
  | nil => rfl
  | cons a rest ih => simp [behind, ih]

def map (f : α → β) : Supply α → Supply β
  | nil => nil
  | cons a tail => cons (f a) fun _ => map f (tail ⟨⟩)

@[simp] theorem toList_map (f : α → β) (s : Supply α) : (s.map f).toList = s.toList.map f := by
  induction s with
  | nil => rfl
  | cons a tail ih => simp [map, ih]

/-- So many integers, each the same step away from the one before. -/
def progression (start step : Int) : Nat → Supply Int
  | 0 => nil
  | n + 1 => cons start fun _ => progression (start + step) step n

/-- Asks for up to so many elements and puts them behind those seen so far, of which the last comes
first. -/
def drawOnto (seen : List α) : Nat → Supply α → List α × Supply α
  | n + 1, cons a tail => drawOnto (a :: seen) n (tail ⟨⟩)
  | _, s => (seen.reverse, s)

/-- Asks for up to so many elements: those that came, and the supply behind them. -/
def draw (n : Nat) (s : Supply α) : List α × Supply α := s.drawOnto [] n

theorem drawOnto_eq (seen : List α) (n : Nat) (s : Supply α) :
    s.drawOnto seen n = (seen.reverse ++ s.toList.take n, ofList (s.toList.drop n)) := by
  induction s generalizing seen n with
  | nil => cases n <;> simp [drawOnto, ofList]
  | cons a tail ih =>
    cases n with
    | zero => simp [drawOnto, ofList]
    | succ n => simp [drawOnto, ih]

/-- What comes is the front of the supply, and what stays is the rest of it. -/
theorem draw_eq (n : Nat) (s : Supply α) :
    s.draw n = (s.toList.take n, ofList (s.toList.drop n)) := by
  simp [draw, drawOnto_eq]

def drop : Nat → Supply α → Supply α
  | n + 1, cons _ tail => drop n (tail ⟨⟩)
  | _, s => s

@[simp] theorem toList_drop (n : Nat) (s : Supply α) : (s.drop n).toList = s.toList.drop n := by
  induction s generalizing n with
  | nil => cases n <;> simp [drop]
  | cons a tail ih => cases n <;> simp [drop, ih]

end Supply

end Ragged
