import Mathlib.Algebra.BigOperators.Group.Finset.Piecewise
import Mathlib.Logic.Function.Iterate
import Mathlib.Order.Bounds.Basic
import Ragged.Proofs.Storage.Behaviour
import Ragged.Proofs.Storage.Regions

/-!
# How often a region grows

A region that is full grows to the next capacity of the policy, whatever numbers the policy has, and
each time a reallocation is counted. All regions of an arena are counted together; what one of them
contributes is what more is counted after the appends to it. The main statement is that

> after so many appends, none of them refused, a region has grown the least number of times that
> leads from its first capacity to one with room for them,

whatever was asked of other regions in between. What carries it is `Region.Grown`: the capacity is
that of so many steps, and no fewer steps would do. An append keeps this, since a step is taken just
where there is no room.
-/

set_option autoImplicit false

namespace Ragged

/-! ## One step of a policy -/

namespace GrowthPolicy

variable (p : GrowthPolicy)

theorem initialCapacity_le_next (capacity : Nat) : p.initialCapacity ≤ p.next capacity :=
  Nat.le_max_right _ _

theorem ceilSize_le (x : Binary64) : x.ceilSize ≤ 0xFFFFFFFFFFFFFFFF := by
  unfold Binary64.ceilSize
  cases x.datum with
  | nan => exact Nat.zero_le _
  | infinite negative => cases negative <;> decide
  | finite negative m e =>
    cases negative with
    | true => exact Nat.zero_le _
    | false => exact Nat.min_le_right _ _

/-- The next capacity of a size is a size. -/
theorem next_lt {capacity : Nat} (hinitial : p.initialCapacity < 2 ^ 64)
    (hcapacity : capacity < 2 ^ 64 - 1) : p.next capacity < 2 ^ 64 := by
  have hscaled := ceilSize_le ((Binary64.ofInt capacity).mul p.factor)
  have hmore : capacity + 1 < 2 ^ 64 := Nat.add_lt_of_lt_sub hcapacity
  exact Nat.max_lt.mpr ⟨Nat.max_lt.mpr ⟨Nat.lt_succ_of_le hscaled, hmore⟩, hinitial⟩

/-- The capacity that so many steps lead to. -/
def capacityAfter (first steps : Nat) : Nat := p.next^[steps] first

theorem capacityAfter_succ (first steps : Nat) :
    p.capacityAfter first (steps + 1) = p.next (p.capacityAfter first steps) :=
  Function.iterate_succ_apply' p.next steps first

/-- More steps lead further. -/
theorem capacityAfter_strictMono (first : Nat) : StrictMono (p.capacityAfter first) := by
  apply strictMono_nat_of_lt_succ
  intro steps
  rw [capacityAfter_succ]
  exact p.lt_next _

end GrowthPolicy

/-! ## One region -/

/-- A region with so many elements, which has grown so often: as often as they need. -/
structure Region.Grown (p : GrowthPolicy) (first count steps : Nat) (r : Region) : Prop where
  size_eq : r.column.size = count
  least : IsLeast {steps | count ≤ p.capacityAfter first steps} steps
  state : r.state = .growable (p.capacityAfter first steps) ∨ r.state = .frozen

namespace Region

variable {p : GrowthPolicy} {first count steps : Nat} {r : Region} {id : RegionId} {s : Scalar}
  {state : RegionState}

theorem grown_empty (p : GrowthPolicy) (first : Nat) (kind : ElementKind) :
    Grown p first 0 0 ⟨.empty kind, .growable first⟩ :=
  ⟨Column.size_empty kind, ⟨Nat.zero_le _, fun _ _ => Nat.zero_le _⟩, .inl rfl⟩

/-- **One element more**: where there is no room for it, no fewer steps than one more would do. -/
theorem Grown.append (h : r.Grown p first count steps) (hsound : r.column.Sound)
    (hs : s.kind = r.column.kind) (hstate : Arena.stateToAppend p id r = .ok state) :
    Grown p first (count + 1) (steps + if state = r.state then 0 else 1)
      ⟨r.column.push s, state⟩ := by
  have hsize : (r.column.push s).size = count + 1 := by
    rw [Column.size_push_of_kind hsound hs, h.size_eq]
  obtain ⟨henough, hleast⟩ := h.least
  rcases h.state with hgrowable | hfrozen
  · simp only [Arena.stateToAppend, hgrowable, h.size_eq] at hstate
    by_cases hfull : p.capacityAfter first steps ≤ count
    · -- the region is just full
      rw [if_pos hfull] at hstate
      obtain rfl := Except.ok.inj hstate
      have hmoved : ¬RegionState.growable (p.next (p.capacityAfter first steps)) = r.state := by
        rw [hgrowable]
        exact fun h => Nat.ne_of_gt (p.lt_next _) (RegionState.growable.inj h)
      rw [if_neg hmoved, ← p.capacityAfter_succ]
      refine ⟨hsize, ⟨?_, fun steps' henough' => ?_⟩, .inl rfl⟩
      · show count < p.capacityAfter first (steps + 1)
        exact Nat.lt_of_le_of_lt henough (p.capacityAfter_strictMono first (Nat.lt_succ_self steps))
      · have hlt : p.capacityAfter first steps < p.capacityAfter first steps' :=
          Nat.lt_of_le_of_lt hfull henough'
        exact (p.capacityAfter_strictMono first).lt_iff_lt.mp hlt
    · rw [if_neg hfull] at hstate
      obtain rfl := Except.ok.inj hstate
      rw [if_pos hgrowable.symm]
      exact ⟨hsize, ⟨Nat.lt_of_not_le hfull, fun _ henough' => hleast (Nat.le_of_succ_le henough')⟩,
        .inl rfl⟩
  · simp only [Arena.stateToAppend, hfrozen] at hstate
    exact absurd hstate (by simp)

/-- A region can be frozen without its having grown. -/
theorem Grown.of_state (h : r.Grown p first count steps) (hstate : state = r.state ∨ state = .frozen) :
    Grown p first count steps ⟨r.column, state⟩ := by
  refine ⟨h.size_eq, h.least, ?_⟩
  rcases hstate with rfl | rfl
  · exact h.state
  · exact .inr rfl

end Region

/-! ## One request -/

namespace Arena

/-- The request is to append to a region. -/
def Request.AppendsTo (id : RegionId) : Request → Prop
  | .append id' _ => id' = id
  | _ => False

instance (id : RegionId) : DecidablePred (Request.AppendsTo id)
  | .append id' _ => inferInstanceAs (Decidable (id' = id))
  | .allocateFixed _ _ | .allocateGrowable _ _ | .freeze _ | .isFrozen _ | .length _ | .element _ _
  | .elements _ => .isFalse fun h => h

/-- The reallocations that a request makes a region contribute. -/
def moves (a : Arena) (id : RegionId) (q : Request) : Nat :=
  if q.AppendsTo id then (a.answer q).1.reallocations - a.reallocations else 0

variable {a : Arena} {q : Request} {id : RegionId} {r : Region} {s : Scalar}

/-- No request changes the policy. -/
theorem policy_answer (a : Arena) (q : Request) : (a.answer q).1.policy = a.policy := by
  cases q with
  | append id s =>
    show (a.append id s).1.policy = a.policy
    rcases append_cases a id s with ⟨e, happend⟩ | ⟨r, state, -, -, happend⟩ <;> rw [happend]
    rfl
  | freeze id =>
    rcases freeze_cases a id with hfreeze | ⟨r, -, -, hfreeze⟩ <;> rw [hfreeze]
    rfl
  | _ => rfl

/-- An append changes no other region. -/
theorem changes_append (a : Arena) (id : RegionId) (s : Scalar) :
    Changes [id.index] a (a.append id s).1 := by
  rcases append_cases a id s with ⟨e, happend⟩ | ⟨r, state, -, -, happend⟩
  · rw [happend]
    exact .refl _ a
  · rw [happend]
    exact changes_of_modify (f := fun r => ⟨r.column.push s, state⟩) rfl

theorem changes_freeze (a : Arena) (id : RegionId) :
    Changes [id.index] a (a.answer (.freeze id)).1 := by
  rcases freeze_cases a id with hfreeze | ⟨r, -, -, hfreeze⟩
  · rw [hfreeze]
    exact .refl _ a
  · rw [hfreeze]
    exact changes_of_modify (f := fun r => ⟨r.column, .frozen⟩) rfl

/-- What an append that was not refused has done. -/
theorem append_of_done (hr : a.regions[id.index]? = some r)
    (h : (a.answer (.append id s)).2 = .ok .done) :
    ∃ state, stateToAppend a.policy id r = .ok state ∧ s.kind = r.column.kind ∧
      (a.answer (.append id s)).1.regions[id.index]? = some ⟨r.column.push s, state⟩ ∧
      (a.answer (.append id s)).1.reallocations =
        a.reallocations + if state = r.state then 0 else 1 := by
  have hmap : (a.append id s).2.map (fun _ => Reply.done) = .ok .done := h
  show ∃ state, _ ∧ _ ∧ (a.append id s).1.regions[id.index]? = _ ∧
    (a.append id s).1.reallocations = _
  rcases append_cases a id s with ⟨e, happend⟩ | ⟨r', state, hr', hstate, happend⟩
  · rw [happend] at hmap
    exact absurd hmap (by simp [Except.map])
  · obtain rfl : r = r' := Option.some.inj (hr.symm.trans hr')
    rw [happend] at hmap ⊢
    refine ⟨state, hstate, ?_,
      getElem?_of_modify (f := fun r => ⟨r.column.push s, state⟩) rfl hr, rfl⟩
    by_contra hs
    have hrefused : ¬r.column.accepts s = true := fun h => hs (beq_iff_eq.mp h)
    rw [if_neg hrefused] at hmap
    exact absurd hmap (by simp [Except.map])

/-- What is not an append to a region leaves its elements, and at most freezes it. -/
theorem region_of_not_appendsTo (hr : a.regions[id.index]? = some r) (hq : ¬q.AppendsTo id) :
    ∃ state, (a.answer q).1.regions[id.index]? = some ⟨r.column, state⟩ ∧
      (state = r.state ∨ state = .frozen) := by
  have hkept : (a.answer q).1.regions[id.index]? = some r →
      ∃ state, (a.answer q).1.regions[id.index]? = some ⟨r.column, state⟩ ∧
        (state = r.state ∨ state = .frozen) := fun h => ⟨r.state, h, .inl rfl⟩
  have hother : ∀ {id' : RegionId}, id' ≠ id → id.index ∉ [id'.index] := by
    intro id' hne hmem
    exact hne (congrArg RegionId.mk (List.mem_singleton.mp hmem).symm)
  cases q with
  | allocateFixed kind n | allocateGrowable kind n =>
    exact hkept ((changes_of_push rfl).1.others hr (List.not_mem_nil))
  | append id' s => exact hkept ((changes_append a id' s).others hr (hother hq))
  | freeze id' =>
    by_cases hid : id' = id
    · subst hid
      rcases freeze_cases a id' with hfreeze | ⟨r', -, -, hfreeze⟩
      · exact hkept (by rw [hfreeze]; exact hr)
      · rw [hfreeze]
        exact ⟨.frozen, getElem?_of_modify (f := fun r => ⟨r.column, .frozen⟩) rfl hr, .inr rfl⟩
    · exact hkept ((changes_freeze a id').others hr (hother hid))
  | isFrozen id' | length id' | element id' index | elements id' => exact hkept hr

/-- No region is ever lost. -/
theorem size_le_answer (a : Arena) (q : Request) : a.size ≤ (a.answer q).1.size := by
  cases q with
  | allocateFixed kind n | allocateGrowable kind n => exact (changes_of_push rfl).1.size_le
  | append id s => exact (changes_append a id s).size_le
  | freeze id => exact (changes_freeze a id).size_le
  | isFrozen id | length id | element id index | elements id => exact Nat.le_refl _

/-- Reallocations are counted for appends only, and only for appends to regions there are. -/
theorem reallocations_append (a : Arena) (id : RegionId) (s : Scalar) :
    a.reallocations ≤ (a.append id s).1.reallocations ∧
      (a.size ≤ id.index → (a.append id s).1.reallocations = a.reallocations) := by
  rcases append_cases a id s with ⟨e, happend⟩ | ⟨r, state, hr, -, happend⟩
  · rw [happend]
    exact ⟨Nat.le_refl _, fun _ => rfl⟩
  · rw [happend]
    exact ⟨Nat.le_add_right _ _, fun hle => absurd (lt_size_of_getElem? hr) (Nat.not_lt.mpr hle)⟩

theorem reallocations_of_not_append (hq : ∀ id, ¬q.AppendsTo id) :
    (a.answer q).1.reallocations = a.reallocations := by
  cases q with
  | append id s => exact absurd rfl (hq id)
  | freeze id =>
    rcases freeze_cases a id with hfreeze | ⟨r, -, -, hfreeze⟩ <;> rw [hfreeze]
    rfl
  | _ => rfl

/-- **What a request counts is what it makes the regions contribute.** -/
theorem reallocations_answer (a : Arena) (q : Request) {n : Nat} (hn : a.size ≤ n) :
    (a.answer q).1.reallocations = a.reallocations + ∑ i ∈ Finset.range n, a.moves ⟨i⟩ q := by
  by_cases hq : ∀ id, ¬q.AppendsTo id
  · have hzero : ∀ i ∈ Finset.range n, a.moves ⟨i⟩ q = 0 := fun i _ => if_neg (hq ⟨i⟩)
    rw [Finset.sum_eq_zero hzero, reallocations_of_not_append hq, Nat.add_zero]
  · obtain ⟨id, hid⟩ := not_forall_not.mp hq
    cases q with
    | append id' s =>
      obtain rfl : id' = id := hid
      obtain ⟨hle, hnone⟩ := reallocations_append a id' s
      have hmoves : ∀ i, a.moves ⟨i⟩ (.append id' s) =
          if id'.index = i then (a.append id' s).1.reallocations - a.reallocations else 0 := by
        intro i
        have hiff : Request.AppendsTo ⟨i⟩ (.append id' s) ↔ id'.index = i :=
          ⟨congrArg RegionId.index, congrArg RegionId.mk⟩
        exact if_congr hiff rfl rfl
      show (a.append id' s).1.reallocations = _
      simp only [hmoves, Finset.sum_ite_eq, Finset.mem_range]
      by_cases hlt : id'.index < n
      · rw [if_pos hlt]
        omega
      · rw [if_neg hlt, hnone (Nat.le_trans hn (Nat.le_of_not_lt hlt)), Nat.add_zero]
    | _ => exact hid.elim

/-! ## All requests -/

/-- The reallocations that a region contributes while requests are answered one after the other. -/
def contribution (id : RegionId) : Arena → List Request → Nat
  | _, [] => 0
  | a, q :: asked => a.moves id q + contribution id (a.answer q).1 asked

/-- How many of the requests are appends to a region. -/
def Request.appends (id : RegionId) (asked : List Request) : Nat :=
  asked.countP (·.AppendsTo id)

/-- No append to a region was refused. -/
def NoneRefused (id : RegionId) (asked : List Request) (outcomes : List Outcome) : Prop :=
  ∀ answered ∈ asked.zip outcomes, answered.1.AppendsTo id → answered.2 = .ok .done

instance (id : RegionId) (asked : List Request) (outcomes : List Outcome) :
    Decidable (NoneRefused id asked outcomes) :=
  inferInstanceAs (Decidable (∀ answered ∈ asked.zip outcomes, answered.1.AppendsTo id → _))

theorem size_le_run (asked : List Request) : ∀ a : Arena, a.size ≤ (a.run asked).1.size := by
  induction asked with
  | nil => exact fun a => Nat.le_refl _
  | cons q asked ih => exact fun a => Nat.le_trans (size_le_answer a q) (ih (a.answer q).1)

theorem policy_run (asked : List Request) : ∀ a : Arena, (a.run asked).1.policy = a.policy := by
  induction asked with
  | nil => exact fun a => rfl
  | cons q asked ih => exact fun a => (ih (a.answer q).1).trans (policy_answer a q)

/-- **The regions contribute just what is counted**, whatever was asked for. -/
theorem reallocations_run (asked : List Request) : ∀ (a : Arena) {n : Nat},
    (a.run asked).1.size ≤ n → (a.run asked).1.reallocations =
      a.reallocations + ∑ i ∈ Finset.range n, contribution ⟨i⟩ a asked := by
  induction asked with
  | nil =>
    intro a n _
    show a.reallocations = a.reallocations + ∑ _i ∈ Finset.range n, 0
    rw [Finset.sum_const_zero, Nat.add_zero]
  | cons q asked ih =>
    intro a n hn
    have hrest := ih (a.answer q).1 hn
    have hfirst := reallocations_answer a q
      (Nat.le_trans (Nat.le_trans (size_le_answer a q) (size_le_run asked _)) hn)
    show ((a.answer q).1.run asked).1.reallocations =
      a.reallocations + ∑ i ∈ Finset.range n, (a.moves ⟨i⟩ q + contribution ⟨i⟩ (a.answer q).1 asked)
    rw [hrest, hfirst, Finset.sum_add_distrib, Nat.add_assoc]

/-- **A region grows only as often as needed**, whatever is asked of others in between. -/
theorem grown_run {first : Nat} (asked : List Request) : ∀ {a : Arena} {r : Region}
    {count steps : Nat}, a.Sound → a.regions[id.index]? = some r →
    r.Grown a.policy first count steps → NoneRefused id asked (a.run asked).2 →
    ∃ r', (a.run asked).1.regions[id.index]? = some r' ∧
      r'.Grown a.policy first (count + Request.appends id asked)
        (steps + contribution id a asked) := by
  induction asked with
  | nil => exact fun _ hr hgrown _ => ⟨_, hr, hgrown⟩
  | cons q asked ih =>
    intro a r count steps hsound hr hgrown hdone
    have hsound' : (a.answer q).1.Sound := (agrees hsound q).1
    have hrest : NoneRefused id asked ((a.answer q).1.run asked).2 :=
      fun answered hmem => hdone answered (List.mem_cons_of_mem _ hmem)
    have hpolicy := policy_answer a q
    show ∃ r', ((a.answer q).1.run asked).1.regions[id.index]? = some r' ∧
      r'.Grown a.policy first (count + (q :: asked).countP (·.AppendsTo id))
        (steps + (a.moves id q + contribution id (a.answer q).1 asked))
    rw [← hpolicy] at hgrown ⊢
    by_cases hq : q.AppendsTo id
    · cases q with
      | append id' s =>
        obtain rfl : id' = id := hq
        have happend : (Request.append id' s).AppendsTo id' := rfl
        have houtcome := hdone _ List.mem_cons_self happend
        obtain ⟨state, hstate, hs, hr', hcount⟩ := append_of_done hr houtcome
        rw [← hpolicy] at hstate
        have hmoves : a.moves id' (.append id' s) = if state = r.state then 0 else 1 := by
          rw [moves, if_pos happend, hcount, Nat.add_sub_cancel_left]
        have hcons : (Request.append id' s :: asked).countP (·.AppendsTo id') =
            1 + Request.appends id' asked := by
          rw [List.countP_cons_of_pos (by simpa using happend), Nat.add_comm]
          rfl
        rw [hmoves, hcons, ← Nat.add_assoc, ← Nat.add_assoc]
        exact ih hsound' hr' (hgrown.append (hsound.region hr).column hs hstate) hrest
      | _ => exact hq.elim
    · obtain ⟨state, hr', hstate⟩ := region_of_not_appendsTo hr hq
      have hmoves : a.moves id q = 0 := if_neg hq
      rw [hmoves, Nat.zero_add, List.countP_cons_of_neg (by simpa using hq)]
      exact ih hsound' hr' (hgrown.of_state hstate) hrest

theorem new_of_allocateGrowable {a' : Arena} {kind : ElementKind} {capacity : Nat} (h : a.Sound)
    (hallocate : a.allocateGrowable kind capacity = (a', id)) :
    a'.Sound ∧ a'.policy = a.policy ∧ a'.regions[id.index]? =
      some ⟨.empty kind, .growable (min capacity maxInitialReserve)⟩ := by
  obtain ⟨rfl, rfl⟩ := Prod.mk.inj hallocate
  exact ⟨(agrees h (.allocateGrowable kind capacity)).1, rfl, (changes_of_push rfl).2.2⟩

/-! ## The count -/

/-- What a policy promises of capacities, and an arena of what it counts. -/
structure GrowsAsNeeded (policy : GrowthPolicy) : Prop where
  /-- A step leads to more than there was, and to no less than the least capacity. -/
  step : ∀ capacity, capacity < policy.next capacity ∧
    policy.initialCapacity ≤ policy.next capacity
  /-- It stays within what sizes can be. -/
  bounded : policy.initialCapacity < 2 ^ 64 → ∀ capacity < 2 ^ 64 - 1, policy.next capacity < 2 ^ 64
  /-- A region has never more elements than its capacity. -/
  room : ∀ (asked : List Request) (i : Nat) (r : Region) (capacity : Nat),
    (after policy asked).regions[i]? = some r → r.state = .growable capacity →
    r.column.size ≤ capacity
  /-- All that is counted is what the regions contribute. -/
  total : ∀ before asked, ((after policy before).run asked).1.reallocations =
    (after policy before).reallocations +
      ∑ i ∈ Finset.range ((after policy before).run asked).1.size,
        contribution ⟨i⟩ (after policy before) asked
  /-- A new region, after whatever was asked before, grows just as often as its elements need. -/
  least : ∀ before kind capacity a id asked,
    (after policy before).allocateGrowable kind capacity = (a, id) →
    NoneRefused id asked (a.run asked).2 →
    ∃ r, (a.run asked).1.region id = .ok r ∧
      r.Grown policy (min capacity maxInitialReserve) (Request.appends id asked)
        (contribution id a asked)

/-- **Growth is strict, and reallocations are counted exactly**, by any growth policy. -/
theorem grows_as_needed (policy : GrowthPolicy) : GrowsAsNeeded policy where
  step capacity := ⟨policy.lt_next capacity, policy.initialCapacity_le_next capacity⟩
  bounded hinitial _ hcapacity := policy.next_lt hinitial hcapacity
  room asked i r capacity hr hstate := by
    have hfits := ((sound_after policy asked).region hr).fits
    rw [hstate] at hfits
    exact hfits
  total before asked := reallocations_run asked _ (Nat.le_refl _)
  least := by
    intro before kind capacity a id asked hallocate hdone
    obtain ⟨hsound, hpolicy, hr⟩ := new_of_allocateGrowable (sound_after policy before) hallocate
    have hafter : a.policy = policy := hpolicy.trans (policy_run before _)
    have hgrown := Region.grown_empty policy (min capacity maxInitialReserve) kind
    rw [← hafter] at hgrown
    obtain ⟨r, hr', hgrown'⟩ := grown_run asked hsound hr hgrown hdone
    rw [hafter, Nat.zero_add, Nat.zero_add] at hgrown'
    exact ⟨r, by rw [region, hr'], hgrown'⟩

/-- Where the factor is no number a region grows by one at a time, and nothing is counted for it when
another region refuses an element. -/
theorem grows_as_needed_nan :
    ∃ a id r,
      (after ⟨0, ⟨0x7FF8000000000000⟩⟩ [.allocateFixed .bool 1]).allocateGrowable .int32 1 = (a, id) ∧
      (a.run [.append id (.int32 5), .append ⟨0⟩ (.int32 6), .append id (.int32 7),
        .append id (.int32 8)]).1.region id = .ok r ∧
      r.Grown ⟨0, ⟨0x7FF8000000000000⟩⟩ 1 3 2 := by
  obtain ⟨r, hr, hgrown⟩ := (grows_as_needed ⟨0, ⟨0x7FF8000000000000⟩⟩).least
    [.allocateFixed .bool 1] .int32 1 _ ⟨1⟩ [.append ⟨1⟩ (.int32 5), .append ⟨0⟩ (.int32 6),
      .append ⟨1⟩ (.int32 7), .append ⟨1⟩ (.int32 8)] rfl (by decide)
  exact ⟨_, ⟨1⟩, r, rfl, hr, hgrown⟩

end Arena

end Ragged
