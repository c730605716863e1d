import Ragged.Proofs.Storage.Columns
import Ragged.Storage.Arena

/-!
# What an operation does to the arena

Every operation names one region and leaves the others alone, and this is said once, by
`Arena.Changes`: of the regions there were, only those of a list may be different afterwards. The
list of an allocation is empty, and those of `append` and `freeze` have one entry.

The rest of an operation's effect concerns the region it names. `Region.Takes` is what a region has
to be for the next elements to go in: of their kind, not frozen, and, if its length was declared,
short of it by just as many as are still to come. So `append` never fails on a region that takes one
more, and `freeze` never fails on one that takes no more.
-/

set_option autoImplicit false

namespace Ragged

/-- The region takes elements of a kind: any number of them if it grows, and otherwise just as many
as are said to be left. With nothing said, only a region that grows will do. -/
structure Region.Takes (r : Region) (kind : ElementKind) (left : Option Nat) : Prop where
  kind_eq : r.column.kind = kind
  sound : r.column.Sound
  room : match r.state with
    | .fixed length => ∃ n, left = some n ∧ length = r.column.size + n
    | .growable _ => True
    | .frozen => False

theorem Region.Takes.not_frozen {r : Region} {kind : ElementKind} {left : Option Nat}
    (h : r.Takes kind left) : r.state ≠ .frozen := by
  intro hf
  have hroom := h.room
  rw [hf] at hroom
  exact hroom

/-- What a region that grows takes does not depend on what is said to be left. -/
theorem Region.Takes.of_none {r : Region} {kind : ElementKind} (h : r.Takes kind none)
    (left : Option Nat) : r.Takes kind left := by
  refine ⟨h.kind_eq, h.sound, ?_⟩
  have hroom := h.room
  cases hst : r.state with
  | fixed length => rw [hst] at hroom; obtain ⟨n, hn, -⟩ := hroom; exact absurd hn (by simp)
  | growable capacity => trivial
  | frozen => rw [hst] at hroom; exact hroom

namespace Arena

/-- Of the regions of the first arena, only those of the list may differ in the second, which may
have more. -/
structure Changes (own : List Nat) (a a' : Arena) : Prop where
  size_le : a.size ≤ a'.size
  others : ∀ {i : Nat} {r : Region}, a.regions[i]? = some r → i ∉ own → a'.regions[i]? = some r

namespace Changes

theorem refl (own : List Nat) (a : Arena) : Changes own a a := ⟨Nat.le_refl _, fun h _ => h⟩

theorem mono {own own' : List Nat} {a a' : Arena} (h : Changes own a a')
    (hsub : ∀ i ∈ own, i ∈ own') : Changes own' a a' :=
  ⟨h.size_le, fun hr hi => h.others hr fun hmem => hi (hsub _ hmem)⟩

theorem trans {own : List Nat} {a a' a'' : Arena} (h : Changes own a a')
    (h' : Changes own a' a'') : Changes own a a'' :=
  ⟨Nat.le_trans h.size_le h'.size_le, fun hr hi => h'.others (h.others hr hi) hi⟩

/-- Regions that came later do not count as changed. -/
theorem of_fresh {own fresh : List Nat} {a a' a'' : Arena} (h : Changes own a a')
    (h' : Changes fresh a' a'') (hfresh : ∀ i ∈ fresh, a.size ≤ i) : Changes own a a'' := by
  refine ⟨Nat.le_trans h.size_le h'.size_le, fun {i r} hr hi => h'.others (h.others hr hi) ?_⟩
  intro hmem
  obtain ⟨hlt, -⟩ := Array.getElem?_eq_some_iff.mp hr
  exact absurd hlt (Nat.not_lt.mpr (hfresh i hmem))

end Changes

theorem lt_size_of_getElem? {a : Arena} {i : Nat} {r : Region} (h : a.regions[i]? = some r) :
    i < a.size := by
  obtain ⟨hlt, -⟩ := Array.getElem?_eq_some_iff.mp h
  exact hlt

/-! ## One region in place, one region more

Stated of any two arenas whose regions are so related: the operations also count, and what they
count is in no region. -/

theorem changes_of_modify {a a' : Arena} {id : RegionId} {f : Region → Region}
    (h : a'.regions = a.regions.modify id.index f) : Changes [id.index] a a' := by
  refine ⟨by simp [size, h], fun {i r} hr hi => ?_⟩
  have hne : id.index ≠ i := fun h => hi (by rw [h]; exact List.mem_singleton_self i)
  rw [h, Array.getElem?_modify, if_neg hne, hr]

theorem getElem?_of_modify {a a' : Arena} {id : RegionId} {f : Region → Region} {r : Region}
    (h : a'.regions = a.regions.modify id.index f) (hr : a.regions[id.index]? = some r) :
    a'.regions[id.index]? = some (f r) := by
  rw [h, Array.getElem?_modify, if_pos rfl, hr, Option.map_some]

theorem changes_of_push {a a' : Arena} {r : Region} (h : a'.regions = a.regions.push r) :
    Changes [] a a' ∧ a'.size = a.size + 1 ∧ a'.regions[a.size]? = some r := by
  refine ⟨⟨by simp [size, h], fun {i r} hr _ => ?_⟩, by simp [size, h], by simp [size, h]⟩
  have hne : i ≠ a.regions.size := Nat.ne_of_lt (lt_size_of_getElem? hr)
  rw [h, Array.getElem?_push, if_neg hne, hr]

/-! ## Appending and freezing -/

/-- **A region that takes one more element takes it**: nothing else changes, and afterwards one less
is left. -/
theorem append_of_takes {a : Arena} {id : RegionId} {r : Region} {s : Scalar} {left : Option Nat}
    (hr : a.regions[id.index]? = some r) (ht : r.Takes s.kind (left.map (· + 1))) :
    ∃ a' r', a.append id s = (a', .ok ()) ∧ Changes [id.index] a a' ∧
      a'.regions[id.index]? = some r' ∧ r'.column = r.column.push s ∧ r'.Takes s.kind left := by
  have hsize := Column.size_push_of_kind ht.sound ht.kind_eq.symm
  have hsound := (Column.push_of_kind ht.sound ht.kind_eq.symm).1
  -- the state in which the region takes the element, which leaves room for the others
  obtain ⟨state, hstate, hroom⟩ : ∃ state, stateToAppend a.policy id r = .ok state ∧
      Region.Takes ⟨r.column.push s, state⟩ s.kind left := by
    have hleft := ht.room
    have hkind : (r.column.push s).kind = s.kind := by rw [Column.kind_push, ht.kind_eq]
    cases hst : r.state with
    | fixed length =>
      rw [hst] at hleft
      obtain ⟨n, hn, hlen⟩ := hleft
      obtain ⟨m, hm, rfl⟩ := Option.map_eq_some_iff.mp hn
      refine ⟨.fixed length, ?_, hkind, hsound, m, hm, ?_⟩
      · simp only [stateToAppend, hst]
        rw [if_neg (by omega)]
      · show length = (r.column.push s).size + m
        omega
    | growable capacity =>
      simp only [stateToAppend, hst]
      by_cases hcap : capacity ≤ r.column.size
      · exact ⟨_, if_pos hcap, hkind, hsound, trivial⟩
      · exact ⟨_, if_neg hcap, hkind, hsound, trivial⟩
    | frozen => rw [hst] at hleft; exact hleft.elim
  have haccepts : r.column.accepts s = true := by simp [Column.accepts, ht.kind_eq]
  let taken : Region → Region := fun r => ⟨r.column.push s, state⟩
  let grown := a.reallocations + if state = r.state then 0 else 1
  refine ⟨{ a with reallocations := grown, regions := a.regions.modify id.index taken }, taken r,
    ?_, changes_of_modify rfl, getElem?_of_modify (f := taken) rfl hr, rfl, hroom⟩
  simp only [append, hr, hstate, haccepts, if_true, modify, grown, taken]

/-- **A region that takes no more can be frozen**: its elements stay, and nothing else changes. -/
theorem freeze_of_takes {a : Arena} {id : RegionId} {r : Region} {kind : ElementKind}
    {left : Option Nat} (hr : a.regions[id.index]? = some r) (ht : r.Takes kind left)
    (hleft : ∀ n, left = some n → n = 0) :
    ∃ a', a.freeze id = .ok a' ∧ Changes [id.index] a a' ∧
      a'.regions[id.index]? = some ⟨r.column, .frozen⟩ := by
  let done : Region → Region := fun r => ⟨r.column, .frozen⟩
  refine ⟨a.modify id done, ?_, changes_of_modify rfl, getElem?_of_modify (f := done) rfl hr⟩
  have hroom := ht.room
  cases hst : r.state with
  | fixed length =>
    rw [hst] at hroom
    obtain ⟨n, hn, hlen⟩ := hroom
    have hzero := hleft n hn
    simp only [freeze, hr, hst]
    rw [if_neg (by omega)]
  | growable capacity => simp only [freeze, hr, hst, done]
  | frozen => rw [hst] at hroom; exact hroom.elim

end Arena

end Ragged
