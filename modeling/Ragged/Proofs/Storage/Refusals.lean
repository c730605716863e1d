import Ragged.Proofs.Storage.Behaviour

/-!
# What a refused request leaves behind

A request that is refused leaves the arena as it was, with one exception. An append looks first
whether its region has room, and a full growable region is moved to a larger capacity there and
then; that the scalar is of another kind comes out only when it is to be stored. Such an append is
refused and has grown the region all the same: a reallocation more is counted, and no region has
another element. `Arena.answer_of_growsInVain` says that this is left behind each time, and
`Arena.answer_of_not_growsInVain` that it is all that ever is.
-/

set_option autoImplicit false

namespace Ragged

/-- A growable region with its next capacity. -/
def Region.grown (policy : GrowthPolicy) (r : Region) : Region :=
  match r.state with
  | .growable capacity => ⟨r.column, .growable (policy.next capacity)⟩
  | _ => r

namespace Arena

variable {a : Arena} {q : Request} {id : RegionId} {s : Scalar} {e : StorageError}

/-- The request is to add a scalar to a growable region that is full and of another kind. -/
inductive GrowsInVain (a : Arena) : Request → RegionId → Prop
  | append {id : RegionId} {s : Scalar} {r : Region} {capacity : Nat}
      (hr : a.regions[id.index]? = some r) (hstate : r.state = .growable capacity)
      (hfull : capacity ≤ r.column.size) (hs : s.kind ≠ r.column.kind) :
      GrowsInVain a (.append id s) id

/-- The arena with one region grown, that being counted, and nothing else. -/
def grown (a : Arena) (id : RegionId) : Arena :=
  { a.modify id (Region.grown a.policy) with reallocations := a.reallocations + 1 }

/-! ## What is left of a region -/

theorem modify_congr {f g : Region → Region} {r : Region} (hr : a.regions[id.index]? = some r)
    (h : f r = g r) : a.modify id f = a.modify id g := by
  have hregions : a.regions.modify id.index f = a.regions.modify id.index g := by
    apply Array.ext_getElem?
    intro i
    rw [Array.getElem?_modify, Array.getElem?_modify]
    by_cases hi : id.index = i
    · rw [if_pos hi, if_pos hi, ← hi, hr, Option.map_some, Option.map_some, h]
    · rw [if_neg hi, if_neg hi]
  rw [modify, modify, hregions]

theorem modify_id (a : Arena) (id : RegionId) : a.modify id (fun r => r) = a := by
  have hregions : a.regions.modify id.index (fun r => r) = a.regions := by
    apply Array.ext_getElem?
    intro i
    rw [Array.getElem?_modify, Option.map_id', ite_self]
  rw [modify, hregions]

/-- Growing a region shows neither in it nor in any other. -/
theorem plain_grown (a : Arena) (id : RegionId) : (a.grown id).plain = a.plain := by
  apply List.ext_getElem?
  intro i
  rw [getElem?_plain, getElem?_plain]
  show ((a.regions.modify id.index (Region.grown a.policy))[i]?).map Region.plain = _
  rw [Array.getElem?_modify]
  by_cases hi : id.index = i
  · rw [if_pos hi, Option.map_map]
    congr 1
    funext r
    obtain ⟨column, state⟩ := r
    cases state <;> rfl
  · rw [if_neg hi]

/-! ## Refused requests -/

/-- A scalar of another kind is not stored, but its region may have grown before. -/
theorem append_of_kind_ne {r : Region} {state : RegionState} (hr : a.regions[id.index]? = some r)
    (hstate : stateToAppend a.policy id r = .ok state) (hs : s.kind ≠ r.column.kind) :
    a.append id s =
      ({ a.modify id (fun _ => ⟨r.column, state⟩) with
          reallocations := a.reallocations + if state = r.state then 0 else 1 },
        .error (.kindMismatch r.column.kind s.kind)) := by
  have hrefused : ¬r.column.accepts s = true := fun h => hs (beq_iff_eq.mp h)
  have hmodify : a.modify id (fun r => ⟨r.column.push s, state⟩) =
      a.modify id (fun _ => ⟨r.column, state⟩) :=
    modify_congr hr (by rw [Column.push_of_kind_ne hs])
  simp only [append, hr, hstate, if_neg hrefused]
  rw [← hmodify]
  rfl

theorem answer_of_growsInVain (h : a.GrowsInVain q id) : (a.answer q).1 = a.grown id := by
  cases h with
  | append hr hstate hfull hs =>
    rename_i s r capacity
    have hnext : stateToAppend a.policy id r = .ok (.growable (a.policy.next capacity)) := by
      simp only [stateToAppend, hstate, if_pos hfull]
    have hmoved : ¬RegionState.growable (a.policy.next capacity) = r.state := by
      rw [hstate]
      exact fun h => Nat.ne_of_gt (a.policy.lt_next capacity) (RegionState.growable.inj h)
    have hgrown : a.modify id (Region.grown a.policy) =
        a.modify id (fun _ => ⟨r.column, .growable (a.policy.next capacity)⟩) :=
      modify_congr hr (by simp only [Region.grown, hstate])
    show (a.append id s).1 = _
    rw [append_of_kind_ne hr hnext hs, if_neg hmoved, grown, hgrown]

/-- All other refusals come before anything is changed. -/
theorem answer_of_not_growsInVain (h : (a.answer q).2 = .error e)
    (hno : ∀ id, ¬a.GrowsInVain q id) : (a.answer q).1 = a := by
  cases q with
  | allocateFixed kind n | allocateGrowable kind n => exact absurd h (by simp [answer])
  | append id s =>
    show (a.append id s).1 = a
    cases hr : a.regions[id.index]? with
    | none => simp only [append, hr]
    | some r =>
      cases hstate : stateToAppend a.policy id r with
      | error e => simp only [append, hr, hstate]
      | ok state =>
        by_cases hs : s.kind = r.column.kind
        · have haccepts : r.column.accepts s = true := beq_iff_eq.mpr hs
          simp only [answer, append, hr, hstate, if_pos haccepts] at h
          exact absurd h (by simp [Except.map])
        · -- the region has room, or it would grow in vain
          have hsame : state = r.state := by
            unfold stateToAppend at hstate
            cases hr' : r.state with
            | frozen => simp [hr'] at hstate
            | fixed n =>
              by_cases hfull : n ≤ r.column.size
              · simp [hr', if_pos hfull] at hstate
              · simp only [hr', if_neg hfull] at hstate
                exact (Except.ok.inj hstate).symm
            | growable capacity =>
              have hroom : ¬capacity ≤ r.column.size :=
                fun hfull => hno id (.append hr hr' hfull hs)
              simp only [hr', if_neg hroom] at hstate
              exact (Except.ok.inj hstate).symm
          subst hsame
          rw [append_of_kind_ne hr hstate hs, if_pos rfl, modify_congr (g := fun r => r) hr rfl,
            modify_id]
          rfl
  | freeze id =>
    cases hfreeze : a.freeze id with
    | error e => simp only [answer, hfreeze]
    | ok a' => simp [answer, hfreeze] at h
  | isFrozen id | length id | element id index | elements id => rfl

theorem stats_grown (h : a.Sound) (hgrown : (a.grown id).Sound) :
    (a.grown id).stats = { a.stats with reallocations := a.reallocations + 1 } := by
  have hbytes : (a.grown id).stats.bytes = a.stats.bytes := by
    rw [bytes_eq_sum hgrown, bytes_eq_sum h, plain_grown]
  exact congrArg (ArenaStats.mk a.fixedRegions a.growableRegions (a.reallocations + 1)) hbytes

/-- **A refused request changes nothing, or it has grown one region in vain**: a capacity is larger
and a reallocation more is counted, but no region is another to those who use it. -/
theorem refused_after (policy : GrowthPolicy) (asked : List Request) (q : Request)
    (e : StorageError) (h : ((after policy asked).answer q).2 = .error e) :
    (∀ id, ¬(after policy asked).GrowsInVain q id) ∧
        ((after policy asked).answer q).1 = after policy asked ∨
      ∃ id, (after policy asked).GrowsInVain q id ∧
        ((after policy asked).answer q).1 = (after policy asked).grown id ∧
        ((after policy asked).grown id).plain = (after policy asked).plain ∧
        ((after policy asked).grown id).stats =
          { (after policy asked).stats with
            reallocations := (after policy asked).reallocations + 1 } := by
  have hsound := sound_after policy asked
  by_cases hvain : ∃ id, (after policy asked).GrowsInVain q id
  · right
    obtain ⟨id, hvain⟩ := hvain
    have hgrown := answer_of_growsInVain hvain
    have hsound' : ((after policy asked).grown id).Sound := hgrown ▸ (agrees hsound q).1
    exact ⟨id, hvain, hgrown, plain_grown _ id, stats_grown hsound hsound'⟩
  · left
    have hno := not_exists.mp hvain
    exact ⟨hno, answer_of_not_growsInVain h hno⟩

/-- A truth value is refused by a region of numbers that has no room yet. -/
theorem refused_after_growable :
    ((after {} [.allocateGrowable .int32 0]).answer (.append ⟨0⟩ (.bool true))).2 =
        .error (.kindMismatch .int32 .bool) ∧
      ∃ id, (after {} [.allocateGrowable .int32 0]).GrowsInVain (.append ⟨0⟩ (.bool true)) id := by
  have hrefused : ((after {} [.allocateGrowable .int32 0]).answer (.append ⟨0⟩ (.bool true))).2 =
      .error (.kindMismatch .int32 .bool) := rfl
  refine ⟨hrefused, ?_⟩
  rcases refused_after {} [.allocateGrowable .int32 0] _ _ hrefused with ⟨hno, -⟩ | ⟨id, hvain, -⟩
  · exact absurd (.append rfl rfl (Nat.le_refl 0) (by decide)) (hno ⟨0⟩)
  · exact ⟨id, hvain⟩

/-- It is counted that the region was moved, though nothing was added to it. -/
theorem append_refused_counts :
    ((after {} [.allocateGrowable .int32 0]).append ⟨0⟩ (.bool true)).2 =
        .error (.kindMismatch .int32 .bool) ∧
      (after {} [.allocateGrowable .int32 0]).stats.reallocations = 0 ∧
      ((after {} [.allocateGrowable .int32 0]).append ⟨0⟩ (.bool true)).1.stats.reallocations = 1 ∧
      ((after {} [.allocateGrowable .int32 0]).append ⟨0⟩ (.bool true)).1 ≠
        after {} [.allocateGrowable .int32 0] := by
  have hvain : (after {} [.allocateGrowable .int32 0]).GrowsInVain (.append ⟨0⟩ (.bool true)) ⟨0⟩ :=
    .append rfl rfl (Nat.le_refl 0) (by decide)
  have hgrown : ((after {} [.allocateGrowable .int32 0]).append ⟨0⟩ (.bool true)).1 =
      (after {} [.allocateGrowable .int32 0]).grown ⟨0⟩ := answer_of_growsInVain hvain
  rw [hgrown]
  refine ⟨rfl, rfl, rfl, fun h => ?_⟩
  exact Nat.one_ne_zero (congrArg Arena.reallocations h)

end Arena

end Ragged
