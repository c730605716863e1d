import Ragged.Proofs.Value.Elements

/-!
# Values by their depth

Taken together, the values at one depth and the values right below them have lost what holds them
together: which element is whose. That is how a shape looks at values. `Layers` are all that is left,
for each depth the values found there, from the first to the last.

Values come into layers as a survey comes to them. Its steps are

> a value with elements is noted at its depth, and then its elements come in below
> (`Layers.add_elements`); a leaf is only noted (`Layers.add_leaf`).

What mappings at one depth have under a key makes a column, and starts layers of its own.
-/

set_option autoImplicit false

namespace Ragged

/-- The values found at each depth, in the order in which they were come to. -/
abbrev Layers := Nat → List Value

namespace Layers

/-- What stands so many depths below some values. -/
def below : Nat → List Value → List Value
  | 0, vs => vs
  | k + 1, vs => below k (vs.flatMap fun v => v.items?.getD [])

/-- Some values, and below them what is inside. -/
def of (vs : List Value) : Layers := fun k => below k vs

/-- One more value at a depth, by itself. -/
def note (L : Layers) (depth : Nat) (v : Value) : Layers :=
  fun k => if k = depth then L k ++ [v] else L k

/-- More values at a depth, and below them what is inside. -/
def add (L : Layers) (depth : Nat) (vs : List Value) : Layers :=
  fun k => if depth ≤ k then L k ++ below (k - depth) vs else L k

/-- What the mappings among some values have under a key. -/
def column (key : String) (vs : List Value) : List Value := vs.filterMap (Value.entry? key)

/-! ## Values come in -/

variable {L : Layers} {depth : Nat} {v : Value}

theorem below_append (k : Nat) : ∀ vs ws, below k (vs ++ ws) = below k vs ++ below k ws := by
  induction k with
  | zero => exact fun _ _ => rfl
  | succ k ih =>
    intro vs ws
    rw [below, below, below, List.flatMap_append, ih]

theorem below_nil (k : Nat) : below k [] = [] := by
  induction k with
  | zero => rfl
  | succ k ih => exact ih

theorem of_concat (vs : List Value) (v : Value) : of (vs ++ [v]) = (of vs).add 0 [v] := by
  funext k
  exact below_append k vs [v]

theorem add_nil (L : Layers) (depth : Nat) : L.add depth [] = L := by
  funext k
  rw [add, below_nil, List.append_nil, ite_self]

theorem add_cons (L : Layers) (depth : Nat) (v : Value) (vs : List Value) :
    L.add depth (v :: vs) = (L.add depth [v]).add depth vs := by
  funext k
  rw [add, add, add]
  split
  · rw [List.append_assoc, ← below_append]
    rfl
  · rfl

theorem add_items (L : Layers) (depth : Nat) (v : Value) :
    L.add depth [v] = (L.note depth v).add (depth + 1) (v.items?.getD []) := by
  funext k
  rw [add, add, note]
  rcases Nat.lt_trichotomy k depth with hk | rfl | hk
  · rw [if_neg (by omega), if_neg (by omega), if_neg (by omega)]
  · rw [if_pos (Nat.le_refl k), if_neg (by omega), if_pos rfl, Nat.sub_self]
    rfl
  · obtain ⟨i, rfl⟩ : ∃ i, k = depth + 1 + i := ⟨k - (depth + 1), by omega⟩
    rw [if_pos (by omega), if_pos (by omega), if_neg (by omega), Nat.add_sub_cancel_left,
      show depth + 1 + i - depth = i + 1 by omega, below, List.flatMap_singleton]

theorem add_elements {xs : List Value} (hxs : v.items? = some xs) :
    L.add depth [v] = (L.note depth v).add (depth + 1) xs := by
  rw [add_items, hxs]
  rfl

theorem add_leaf (hv : v.items? = none) : L.add depth [v] = L.note depth v := by
  rw [add_items, hv]
  exact add_nil _ _

/-! ## What is there -/

theorem note_self (L : Layers) (depth : Nat) (v : Value) : L.note depth v depth = L depth ++ [v] :=
  if_pos rfl

theorem note_of_ne {k : Nat} (h : k ≠ depth) : L.note depth v k = L k := if_neg h

theorem mem_note {k : Nat} {w : Value} :
    w ∈ L.note depth v k ↔ w ∈ L k ∨ k = depth ∧ w = v := by
  rw [note]
  split
  · rename_i heq
    rw [List.mem_append, List.mem_singleton, and_iff_right heq]
  · rename_i hne
    rw [or_iff_left fun h => hne h.1]

theorem mem_add {k : Nat} {w : Value} {vs : List Value} (h : w ∈ L k) : w ∈ L.add depth vs k := by
  rw [add]
  split
  · exact List.mem_append_left _ h
  · exact h

theorem column_concat (key : String) (vs : List Value) (v : Value) :
    column key (vs ++ [v]) = column key vs ++ (v.entry? key).toList := by
  rw [column, List.filterMap_append]
  cases h : v.entry? key <;> simp [column, h]

theorem mem_column {key : String} {vs : List Value} {x : Value} :
    x ∈ column key vs ↔ ∃ w ∈ vs, w.entry? key = some x := List.mem_filterMap

end Layers

end Ragged
