import Ragged.Proofs.Type.Conformance

/-!
# Values without lazy sources

`Value.listed` puts a list in place of every lazy source and every tuple of a value, at whatever
depth: of what the source has left, and of the elements of the tuple. What a type wants of a value
comes out the same, except at one place, where lazy sources are not taken at all:

> a value conforms to a type just if its listed form does, and no lazy source stands at a strided
> dimension.
-/

set_option autoImplicit false

namespace Ragged

namespace Value

mutual

/-- A value with lists for all containers that are not mappings. -/
def listed : Value → Value
  | .atom a => .atom a
  | .list items => .list (listedItems items)
  | .tuple items => .list (listedItems items)
  | .dict entries => .dict (listedEntries entries)
  | .iter ⟨_, _, replay, none, _⟩ => .list (listedItems replay)
  | .iter ⟨_, _, replay, some pending, _⟩ => .list (listedItems replay ++ listedSupply pending)

def listedItems : List Value → List Value
  | [] => []
  | v :: rest => listed v :: listedItems rest

def listedEntries : List (String × Value) → List (String × Value)
  | [] => []
  | (key, v) :: rest => (key, listed v) :: listedEntries rest

def listedSupply : Supply Value → List Value
  | .nil => []
  | .cons v rest => listed v :: listedSupply (rest ⟨⟩)

end

theorem listedItems_eq (items : List Value) : listedItems items = items.map listed := by
  induction items with
  | nil => rfl
  | cons v rest ih => rw [listedItems, ih, List.map_cons]

theorem listedSupply_eq (s : Supply Value) : listedSupply s = s.toList.map listed := by
  induction s with
  | nil => rfl
  | cons v rest ih => rw [listedSupply, ih, Supply.toList_cons, List.map_cons]

theorem listed_dict (entries : List (String × Value)) :
    (dict entries).listed = .dict (entries.map fun e => (e.1, e.2.listed)) := by
  have hentries : listedEntries entries = entries.map fun e => (e.1, e.2.listed) := by
    induction entries with
    | nil => rfl
    | cons e rest ih => rw [listedEntries, ih, List.map_cons]
  rw [listed, hentries]

/-- Whatever has elements is made the list of them. -/
theorem listed_of_items? {v : Value} {xs : List Value} (h : v.items? = some xs) :
    v.listed = .list (xs.map listed) := by
  cases v with
  | atom a => exact absurd h (by simp [items?])
  | dict entries => exact absurd h (by simp [items?])
  | list items | tuple items =>
    obtain rfl := Option.some.inj h
    rw [listed, listedItems_eq]
  | iter source =>
    obtain rfl := Option.some.inj h
    obtain ⟨label, taken, replay, source, pulled⟩ := source
    cases source with
    | none => simp [listed, listedItems_eq, Pull.remaining, Pull.pending]
    | some pending => simp [listed, listedItems_eq, listedSupply_eq, Pull.remaining, Pull.pending]

theorem isIterator_listed (v : Value) : v.listed.isIterator = false := by
  cases h : v.items? with
  | some xs => rw [listed_of_items? h]; rfl
  | none =>
    cases v with
    | atom a => rfl
    | dict entries => rw [listed_dict]; rfl
    | _ => exact absurd h (by simp [items?])

theorem preserves_listed : Preserves listed where
  atom := fun _ => rfl
  dict := listed_dict
  items? := by
    intro v
    cases h : v.items? with
    | some xs => rw [listed_of_items? h]; rfl
    | none =>
      cases v with
      | atom a => rfl
      | dict entries => rw [listed_dict]; rfl
      | _ => exact absurd h (by simp [items?])

end Value

/-! ## Listed values at a type -/

namespace ArrayType

variable {accepts : LeafType → Atom → Prop} {σ : Nat → Nat} {t : ArrayType} {free : Nat} {v : Value}

/-- **A value conforms just if its listed form does**, apart from lazy sources at strided dimensions.
-/
theorem conforms_listed_iff :
    t.Conforms accepts σ free v ↔ t.Conforms accepts σ free v.listed ∧ ¬t.LazyStride free v := by
  constructor
  · intro h
    refine ⟨h.map Value.preserves_listed fun w hw => ?_, h.not_lazyStride⟩
    exact absurd hw (by rw [Value.isIterator_listed]; simp)
  · rintro ⟨h, hlazy⟩
    refine h.of_map Value.preserves_listed ?_
    simp only [Value.isIterator_listed, and_true]
    exact hlazy

/-- A listed value reaches the strided dimensions that the value reaches. -/
theorem reaches_listed {slot : Nat} : t.Reaches free slot v.listed ↔ t.Reaches free slot v :=
  meets_map Value.preserves_listed fun _ _ _ => Iff.rfl

end ArrayType

end Ragged
