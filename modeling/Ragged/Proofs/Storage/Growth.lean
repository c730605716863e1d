import Ragged.Proofs.Except
import Ragged.Proofs.Storage.Regions

/-!
# How regions grow is nobody's business

A region that grows has a capacity, an arena has a policy that says what capacity comes next, and it
counts how often that happened. Two arenas resemble each other if they differ in nothing else, and

> an operation is refused by both or by none, with the same error, and afterwards they still resemble
> each other.

Two arenas with different policies take different branches, since one may have to grow where the
other has room. Both branches lead to a region that grows, and that is all that is compared.
-/

set_option autoImplicit false

namespace Ragged

/-- The state without the capacity. -/
def RegionState.ungrown : RegionState → RegionState
  | .growable _ => .growable 0
  | state => state

/-- The region without its capacity. -/
def Region.ungrown (r : Region) : Region := ⟨r.column, r.state.ungrown⟩

/-- The arenas differ at most in their policies, in capacities and in the number of reallocations. -/
structure Arena.Resembles (a a' : Arena) : Prop where
  regions : a.regions.map Region.ungrown = a'.regions.map Region.ungrown
  fixedRegions : a.fixedRegions = a'.fixedRegions
  growableRegions : a.growableRegions = a'.growableRegions

namespace Arena

variable {a a' : Arena}

theorem Resembles.size (h : a.Resembles a') : a.regions.size = a'.regions.size := by
  have hsize := congrArg Array.size h.regions
  rwa [Array.size_map, Array.size_map] at hsize

/-- What stands at an index, if anything does, is the same but for capacity. -/
theorem Resembles.region? (h : a.Resembles a') (i : Nat) :
    (a.regions[i]? = none ∧ a'.regions[i]? = none) ∨
      ∃ r r', a.regions[i]? = some r ∧ a'.regions[i]? = some r' ∧ r.ungrown = r'.ungrown := by
  have hget := congrArg (fun regions : Array Region => regions[i]?) h.regions
  simp only [Array.getElem?_map] at hget
  cases hr : a.regions[i]? with
  | none =>
    rw [hr, Option.map_none, eq_comm, Option.map_eq_none_iff] at hget
    exact .inl ⟨rfl, hget⟩
  | some r =>
    rw [hr, Option.map_some, eq_comm, Option.map_eq_some_iff] at hget
    obtain ⟨r', hr', heq⟩ := hget
    exact .inr ⟨r, r', rfl, hr', heq.symm⟩

/-- Corresponding regions have one column, and either both grow or their states are equal. -/
theorem states_of_ungrown {r r' : Region} (h : r.ungrown = r'.ungrown) :
    r.column = r'.column ∧
      ((∃ c c', r.state = .growable c ∧ r'.state = .growable c') ∨ r.state = r'.state) := by
  obtain ⟨column, state⟩ := r
  obtain ⟨column', state'⟩ := r'
  obtain ⟨hcolumn, hstate⟩ := Region.mk.inj h
  refine ⟨hcolumn, ?_⟩
  cases state with
  | growable c =>
    cases state' with
    | growable c' => exact .inl ⟨c, c', rfl, rfl⟩
    | fixed n => exact absurd hstate (by simp [RegionState.ungrown])
    | frozen => exact absurd hstate (by simp [RegionState.ungrown])
  | fixed n =>
    cases state' with
    | growable c' => exact absurd hstate (by simp [RegionState.ungrown])
    | fixed n' => exact .inr hstate
    | frozen => exact .inr hstate
  | frozen =>
    cases state' with
    | growable c' => exact absurd hstate (by simp [RegionState.ungrown])
    | fixed n' => exact .inr hstate
    | frozen => exact .inr rfl

/-- Where nothing can be written to any more, no capacity is left that could differ. -/
theorem Resembles.regions_eq (h : a.Resembles a')
    (hfrozen : ∀ i < a.size, ∃ r, a.regions[i]? = some r ∧ r.state = .frozen) :
    a.regions = a'.regions := by
  apply Array.ext_getElem?
  intro i
  rcases h.region? i with ⟨hr, hr'⟩ | ⟨r, r', hr, hr', heq⟩
  · rw [hr, hr']
  · obtain ⟨r₁, hr₁, hstate⟩ := hfrozen i (lt_size_of_getElem? hr)
    obtain rfl : r = r₁ := Option.some.inj (hr.symm.trans hr₁)
    obtain ⟨hcolumn, ⟨c, c', hc, -⟩ | hstates⟩ := states_of_ungrown heq
    · exact absurd (hstate.symm.trans hc) (by simp)
    · obtain ⟨column, state⟩ := r
      obtain ⟨column', state'⟩ := r'
      rw [hr, hr', show column = column' from hcolumn, show state = state' from hstates]

/-! ## Operations -/

theorem Resembles.allocateFixed (h : a.Resembles a') (kind : ElementKind) (length : Nat) :
    (a.allocateFixed kind length).1.Resembles (a'.allocateFixed kind length).1 ∧
      (a.allocateFixed kind length).2 = (a'.allocateFixed kind length).2 := by
  refine ⟨⟨?_, congrArg (· + 1) h.fixedRegions, h.growableRegions⟩, congrArg RegionId.mk h.size⟩
  simp only [Arena.allocateFixed, Array.map_push, h.regions]

/-- The capacities asked for may differ. -/
theorem Resembles.allocateGrowable (h : a.Resembles a') (kind : ElementKind) (c c' : Nat) :
    (a.allocateGrowable kind c).1.Resembles (a'.allocateGrowable kind c').1 ∧
      (a.allocateGrowable kind c).2 = (a'.allocateGrowable kind c').2 := by
  refine ⟨⟨?_, h.fixedRegions, congrArg (· + 1) h.growableRegions⟩, congrArg RegionId.mk h.size⟩
  simp only [Arena.allocateGrowable, Array.map_push, h.regions]
  rfl

/-- One region each is replaced, by regions that correspond if those before did. -/
theorem Resembles.modify (h : a.Resembles a') (id : RegionId) (f f' : Region → Region)
    (hf : ∀ r r', r.ungrown = r'.ungrown → (f r).ungrown = (f' r').ungrown) :
    (a.modify id f).Resembles (a'.modify id f') := by
  refine ⟨?_, h.fixedRegions, h.growableRegions⟩
  apply Array.ext_getElem?
  intro j
  rw [Array.getElem?_map, Array.getElem?_map]
  simp only [Arena.modify, Array.getElem?_modify]
  rcases h.region? j with ⟨hr, hr'⟩ | ⟨r, r', hr, hr', heq⟩
  · simp only [hr, hr', Option.map_none, ite_self]
  · rw [hr, hr']
    split
    · exact congrArg some (hf r r' heq)
    · exact congrArg some heq

/-- One may grow where the other does not. -/
theorem stateToAppend_ungrown {p p' : GrowthPolicy} (id : RegionId) {r r' : Region}
    (h : r.ungrown = r'.ungrown) :
    Alike (fun state state' => state.ungrown = state'.ungrown) (stateToAppend p id r)
      (stateToAppend p' id r') := by
  obtain ⟨hcolumn, ⟨c, c', hc, hc'⟩ | hstate⟩ := states_of_ungrown h
  · simp only [stateToAppend, hc, hc']
    split <;> split <;> rfl
  · simp only [stateToAppend, ← hcolumn, ← hstate]
    cases r.state with
    | frozen => rfl
    | fixed length =>
      by_cases hfull : length ≤ r.column.size
      · simp only [if_pos hfull]; rfl
      · simp only [if_neg hfull]; rfl
    | growable c =>
      simp only
      split <;> rfl

theorem Resembles.append (h : a.Resembles a') (id : RegionId) (s : Scalar) :
    (a.append id s).1.Resembles (a'.append id s).1 ∧ (a.append id s).2 = (a'.append id s).2 := by
  unfold Arena.append
  rcases h.region? id.index with ⟨hr, hr'⟩ | ⟨r, r', hr, hr', heq⟩
  · rw [hr, hr']
    exact ⟨h, rfl⟩
  · rw [hr, hr']
    have hcolumn := (states_of_ungrown heq).1
    have hstates := @stateToAppend_ungrown a.policy a'.policy id r r' heq
    simp only
    rcases hstates.cases with ⟨e, hstate, hstate'⟩ | ⟨state, state', hstate, hstate', hungrown⟩
    · rw [hstate, hstate']
      exact ⟨h, rfl⟩
    · rw [hstate, hstate']
      let counted : Arena :=
        { a with reallocations := a.reallocations + if state = r.state then 0 else 1 }
      let counted' : Arena :=
        { a' with reallocations := a'.reallocations + if state' = r'.state then 0 else 1 }
      have hcounted : counted.Resembles counted' := ⟨h.regions, h.fixedRegions, h.growableRegions⟩
      refine ⟨hcounted.modify id _ _ fun r r' heq => ?_, by rw [hcolumn]⟩
      show Region.mk (r.column.push s) state.ungrown = Region.mk (r'.column.push s) state'.ungrown
      rw [(states_of_ungrown heq).1, hungrown]

theorem Resembles.frozen (h : a.Resembles a') (id : RegionId) :
    (a.modify id fun r => ⟨r.column, .frozen⟩).Resembles
      (a'.modify id fun r => ⟨r.column, .frozen⟩) := by
  exact h.modify id _ _ fun r r' heq => congrArg (Region.mk · .frozen) (states_of_ungrown heq).1

theorem Resembles.freeze (h : a.Resembles a') (id : RegionId) :
    Alike Resembles (a.freeze id) (a'.freeze id) := by
  unfold Arena.freeze
  rcases h.region? id.index with ⟨hr, hr'⟩ | ⟨r, r', hr, hr', heq⟩
  · rw [hr, hr']
    rfl
  · rw [hr, hr']
    obtain ⟨hcolumn, ⟨c, c', hc, hc'⟩ | hstate⟩ := states_of_ungrown heq
    · simp only [hc, hc']
      exact h.frozen id
    · simp only [← hcolumn, ← hstate]
      cases r.state with
      | frozen => rfl
      | growable c => exact h.frozen id
      | fixed length =>
        by_cases hunder : r.column.size < length
        · simp only [if_pos hunder]; rfl
        · simp only [if_neg hunder]; exact h.frozen id

/-- Bytes are counted by columns. -/
theorem Resembles.stats (h : a.Resembles a') (hregions : a.regions = a'.regions) :
    { a.stats with reallocations := 0 } = { a'.stats with reallocations := 0 } := by
  simp only [Arena.stats, hregions, h.fixedRegions, h.growableRegions]

end Arena

end Ragged
