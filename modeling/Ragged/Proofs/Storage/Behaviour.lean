import Ragged.Proofs.Storage.Refinement

/-!
# What an arena promises

`Arena.Behaves` is the contract of an arena towards those who write to it, with no word of columns or
capacities: what its regions are after any requests, which requests it refuses and why, and what it
counts. All of it is read off the plain arena but for two things. That a frozen region is the very
same region later is said of the arena itself, capacities and all; and the bytes are counted over
the columns as they are stored.
-/

set_option autoImplicit false

namespace Ragged

open Arena (Request Reply Outcome)

/-! ## Refusals -/

namespace PlainRegion

/-- The region takes one more scalar, if that is of its kind. -/
structure Open (r : PlainRegion) : Prop where
  thawed : r.status ≠ .frozen
  room : ∀ n, r.status = .fixed n → r.items.length < n

/-- The region can be frozen. -/
structure Complete (r : PlainRegion) : Prop where
  thawed : r.status ≠ .frozen
  filled : ∀ n, r.status = .fixed n → r.items.length = n

/-- The region does not hold more than was declared. -/
def Fits (r : PlainRegion) : Prop := ∀ n, r.status = .fixed n → r.items.length ≤ n

end PlainRegion

/-- The region that a request names. -/
def Arena.Request.region? : Request → Option RegionId
  | .allocateFixed _ _ | .allocateGrowable _ _ => none
  | .append id _ | .freeze id | .isFrozen id | .length id | .element id _ | .elements id => some id

namespace PlainArena

/-- What must be the case for a request to be refused with an error. -/
inductive Refused (rs : PlainArena) : Request → StorageError → Prop
  | unknown {q : Request} {id : RegionId} (hq : q.region? = some id)
      (hr : rs[id.index]? = none) : Refused rs q (.unknownRegion id)
  | frozenAppend {id : RegionId} {s : Scalar} {r : PlainRegion} (hr : rs[id.index]? = some r)
      (hfrozen : r.status = .frozen) : Refused rs (.append id s) (.frozen id)
  | frozenFreeze {id : RegionId} {r : PlainRegion} (hr : rs[id.index]? = some r)
      (hfrozen : r.status = .frozen) : Refused rs (.freeze id) (.frozen id)
  | full {id : RegionId} {s : Scalar} {r : PlainRegion} {n : Nat} (hr : rs[id.index]? = some r)
      (hfixed : r.status = .fixed n) (hn : r.items.length = n) :
      Refused rs (.append id s) (.regionFull id n)
  | mismatch {id : RegionId} {s : Scalar} {r : PlainRegion} (hr : rs[id.index]? = some r)
      (hopen : r.Open) (hs : s.kind ≠ r.kind) :
      Refused rs (.append id s) (.kindMismatch r.kind s.kind)
  | underfilled {id : RegionId} {r : PlainRegion} {n : Nat} (hr : rs[id.index]? = some r)
      (hfixed : r.status = .fixed n) (hn : r.items.length < n) :
      Refused rs (.freeze id) (.underfilled id r.items.length n)

variable {rs : PlainArena} {q : Request} {id : RegionId} {r : PlainRegion} {s : Scalar}
  {e : StorageError}

/-- What is refused is answered with that error and changes nothing. -/
theorem Refused.answer (h : Refused rs q e) : rs.answer q = (rs, .error e) := by
  cases h with
  | unknown hq hr =>
    cases q with
    | allocateFixed kind n | allocateGrowable kind n => exact absurd hq (by simp [Request.region?])
    | append id s | freeze id =>
      obtain rfl := Option.some.inj hq
      simp only [PlainArena.answer, change, hr]
    | isFrozen id | length id | element id index | elements id =>
      obtain rfl := Option.some.inj hq
      simp only [PlainArena.answer, read, hr]
  | frozenAppend hr hfrozen =>
    simp only [PlainArena.answer, change, hr, PlainRegion.refusesAppend, if_pos hfrozen]
  | frozenFreeze hr hfrozen =>
    simp only [PlainArena.answer, change, hr, PlainRegion.refusesFreeze, hfrozen]
  | full hr hfixed hn =>
    subst hn
    have hthawed : ¬_ = PlainStatus.frozen := fun h => PlainStatus.noConfusion (hfixed.symm.trans h)
    simp only [PlainArena.answer, change, hr, PlainRegion.refusesAppend, if_neg hthawed,
      if_pos hfixed]
  | mismatch hr hopen hs =>
    have hroom : ¬_ = PlainStatus.fixed _ := fun h => Nat.lt_irrefl _ (hopen.room _ h)
    simp only [PlainArena.answer, change, hr, PlainRegion.refusesAppend, if_neg hopen.thawed,
      if_neg hroom, if_pos hs]
  | underfilled hr hfixed hn =>
    simp only [PlainArena.answer, change, hr, PlainRegion.refusesFreeze, hfixed,
      if_neg (Nat.ne_of_lt hn)]

theorem answer_append (hr : rs[id.index]? = some r) (hopen : r.Open) (hs : s.kind = r.kind) :
    rs.answer (.append id s) = (rs.set id.index (r.append s), .ok .done) := by
  have hroom : ¬_ = PlainStatus.fixed _ := fun h => Nat.lt_irrefl _ (hopen.room _ h)
  simp only [answer, change, hr, PlainRegion.refusesAppend, if_neg hopen.thawed, if_neg hroom,
    if_neg (not_not_intro hs)]

theorem answer_freeze (hr : rs[id.index]? = some r) (hcomplete : r.Complete) :
    rs.answer (.freeze id) = (rs.set id.index r.freeze, .ok .done) := by
  have hno : r.refusesFreeze id = none := by
    unfold PlainRegion.refusesFreeze
    cases hstatus : r.status with
    | frozen => exact absurd hstatus hcomplete.thawed
    | growable => rfl
    | fixed n => exact if_pos (hcomplete.filled n hstatus)
  simp only [answer, change, hr, hno]

/-- An append is refused, or its region has room for a scalar of that kind. -/
theorem append_total (hfits : ∀ r ∈ rs, r.Fits) (id : RegionId) (s : Scalar) :
    (∃ e, Refused rs (.append id s) e) ∨
      ∃ r, rs[id.index]? = some r ∧ r.Open ∧ s.kind = r.kind := by
  cases hr : rs[id.index]? with
  | none => exact .inl ⟨_, .unknown rfl hr⟩
  | some r =>
    by_cases hfrozen : r.status = .frozen
    · exact .inl ⟨_, .frozenAppend hr hfrozen⟩
    by_cases hfull : r.status = .fixed r.items.length
    · exact .inl ⟨_, .full hr hfull rfl⟩
    have hopen : r.Open := by
      refine ⟨hfrozen, fun n hn => ?_⟩
      apply Nat.lt_of_le_of_ne (hfits r (List.mem_of_getElem? hr) n hn)
      rintro rfl
      exact hfull hn
    by_cases hs : s.kind = r.kind
    · exact .inr ⟨r, rfl, hopen, hs⟩
    · exact .inl ⟨_, .mismatch hr hopen hs⟩

/-- A freeze is refused, or its region is complete. -/
theorem freeze_total (hfits : ∀ r ∈ rs, r.Fits) (id : RegionId) :
    (∃ e, Refused rs (.freeze id) e) ∨ ∃ r, rs[id.index]? = some r ∧ r.Complete := by
  cases hr : rs[id.index]? with
  | none => exact .inl ⟨_, .unknown rfl hr⟩
  | some r =>
    by_cases hfrozen : r.status = .frozen
    · exact .inl ⟨_, .frozenFreeze hr hfrozen⟩
    by_cases hfilled : ∀ n, r.status = .fixed n → r.items.length = n
    · exact .inr ⟨r, rfl, hfrozen, hfilled⟩
    · left
      obtain ⟨n, hne⟩ := Classical.not_forall.mp hfilled
      obtain ⟨hn, hne⟩ := Classical.not_imp.mp hne
      exact ⟨_, .underfilled hr hn
        (Nat.lt_of_le_of_ne (hfits r (List.mem_of_getElem? hr) n hn) hne)⟩

/-- **The errors are just those of the refusals.** -/
theorem answer_eq_error_iff (hfits : ∀ r ∈ rs, r.Fits) :
    (rs.answer q).2 = .error e ↔ Refused rs q e := by
  constructor
  · intro h
    -- refused, with an error that can only be this one, or answered
    have hof : ∀ e', Refused rs q e' → Refused rs q e := by
      intro e' hrefused
      rw [hrefused.answer] at h
      rwa [← Except.error.inj h]
    cases q with
    | allocateFixed kind n | allocateGrowable kind n => exact absurd h (by simp [answer, allocate])
    | append id s =>
      rcases append_total hfits id s with ⟨e', hrefused⟩ | ⟨r, hr, hopen, hs⟩
      · exact hof e' hrefused
      · rw [answer_append hr hopen hs] at h
        exact absurd h (by simp)
    | freeze id =>
      rcases freeze_total hfits id with ⟨e', hrefused⟩ | ⟨r, hr, hcomplete⟩
      · exact hof e' hrefused
      · rw [answer_freeze hr hcomplete] at h
        exact absurd h (by simp)
    | isFrozen id | length id | element id index | elements id =>
      cases hr : rs[id.index]? with
      | none => exact hof _ (.unknown rfl hr)
      | some r =>
        simp only [answer, read, hr] at h
        exact absurd h (by simp)
  · intro h
    rw [h.answer]

/-- **An append succeeds just where there is room for a scalar of that kind.** -/
theorem append_eq_done_iff (hfits : ∀ r ∈ rs, r.Fits) :
    (rs.answer (.append id s)).2 = .ok .done ↔
      ∃ r, rs[id.index]? = some r ∧ r.Open ∧ s.kind = r.kind := by
  constructor
  · intro h
    apply (append_total hfits id s).resolve_left
    rintro ⟨e, hrefused⟩
    rw [hrefused.answer] at h
    exact absurd h (by simp)
  · rintro ⟨r, hr, hopen, hs⟩
    rw [answer_append hr hopen hs]

/-- **A freeze succeeds just where the region is complete.** -/
theorem freeze_eq_done_iff (hfits : ∀ r ∈ rs, r.Fits) :
    (rs.answer (.freeze id)).2 = .ok .done ↔ ∃ r, rs[id.index]? = some r ∧ r.Complete := by
  constructor
  · intro h
    apply (freeze_total hfits id).resolve_left
    rintro ⟨e, hrefused⟩
    rw [hrefused.answer] at h
    exact absurd h (by simp)
  · rintro ⟨r, hr, hcomplete⟩
    rw [answer_freeze hr hcomplete]

end PlainArena

namespace Arena

variable {a : Arena} {asked : List Request} {id : RegionId} {s : Scalar}

theorem Sound.fits (h : a.Sound) : ∀ r ∈ a.plain, r.Fits := by
  intro r hr n hn
  obtain ⟨r, hmem, rfl⟩ := List.mem_map.mp hr
  have hfits := (h.regions r (Array.mem_toList_iff.mp hmem)).fits
  have hlength : r.plain.items.length = r.column.size := r.column.length_toList
  rw [hlength]
  cases hstate : r.state with
  | fixed m =>
    rw [Region.plain, hstate] at hn
    rw [hstate] at hfits
    obtain rfl := PlainStatus.fixed.inj hn
    exact hfits
  | growable m | frozen =>
    rw [Region.plain, hstate] at hn
    exact absurd hn (by simp [RegionState.plain])

/-! ## Frozen regions -/

theorem frozen_modify {f : Region → Region} {i : Nat} {r r' : Region}
    (hr : a.regions[i]? = some r) (hfrozen : r.state = .frozen)
    (hr' : a.regions[id.index]? = some r') (hopen : r'.state ≠ .frozen) :
    (a.regions.modify id.index f)[i]? = some r := by
  have hne : id.index ≠ i := by
    rintro rfl
    exact hopen (Option.some.inj (hr'.symm.trans hr) ▸ hfrozen)
  rw [Array.getElem?_modify, if_neg hne, hr]

/-- A frozen region is the very same after any request. -/
theorem frozen_answer {i : Nat} {r : Region} (hr : a.regions[i]? = some r)
    (hfrozen : r.state = .frozen) (q : Request) : (a.answer q).1.regions[i]? = some r := by
  have hlt : i < a.regions.size := (Array.getElem?_eq_some_iff.mp hr).1
  cases q with
  | allocateFixed kind n | allocateGrowable kind n =>
    show (a.regions.push _)[i]? = some r
    rw [Array.getElem?_push_lt hlt, ← hr, Array.getElem?_eq_getElem hlt]
  | append id s =>
    show (a.append id s).1.regions[i]? = some r
    rcases append_cases a id s with ⟨e, happend⟩ | ⟨r', state, hr', hstate, happend⟩ <;> rw [happend]
    · exact hr
    · apply frozen_modify hr hfrozen hr'
      intro h
      rw [stateToAppend, h] at hstate
      exact absurd hstate (by simp)
  | freeze id =>
    rcases freeze_cases a id with hfreeze | ⟨r', hr', hopen, hfreeze⟩ <;> rw [hfreeze]
    · exact hr
    · exact frozen_modify hr hfrozen hr' hopen
  | isFrozen id | length id | element id index | elements id => exact hr

/-- **A frozen region never changes again.** -/
theorem frozen_run (asked : List Request) {i : Nat} {r : Region} (hfrozen : r.state = .frozen) :
    ∀ {a : Arena}, a.regions[i]? = some r → (a.run asked).1.regions[i]? = some r := by
  induction asked with
  | nil => exact fun hr => hr
  | cons q asked ih => exact fun hr => ih (frozen_answer hr hfrozen q)

/-! ## Bytes -/

/-- The bytes counted are those of all scalars that are stored. -/
theorem bytes_eq_sum (h : a.Sound) :
    a.stats.bytes = (a.plain.map fun r => (r.items.map Scalar.byteSize).sum).sum := by
  show a.regions.foldl (fun n r => n + r.column.byteSize) 0 = _
  rw [← Array.foldl_toList, ← List.foldl_map (g := fun n m => n + m), ← List.sum_eq_foldl, plain,
    List.map_map]
  congr 1
  apply List.map_congr_left
  intro r hr
  exact Column.byteSize_eq_sum (h.regions r (Array.mem_toList_iff.mp hr)).column

/-! ## The contract -/

/-- What holds of an arena that was asked for so much and has answered so. -/
structure Behaves (asked : List Request) (a : Arena) (outcomes : List Outcome) : Prop where
  /-- Its regions are those of the plain arena. -/
  regions : a.plain = (PlainArena.run [] asked).1
  /-- So are its answers, the errors with them. -/
  answers : outcomes = (PlainArena.run [] asked).2
  /-- The numbers given out are 0, 1, 2 and so on, one for each region. -/
  numbers : outcomes.filterMap Outcome.number? = (List.range a.size).map RegionId.mk
  /-- A request is refused just for these reasons, with the error that goes with each. -/
  refused : ∀ q e, (a.answer q).2 = .error e ↔ a.plain.Refused q e
  append : ∀ id s, (a.answer (.append id s)).2 = .ok .done ↔
    ∃ r, a.plain[id.index]? = some r ∧ r.Open ∧ s.kind = r.kind
  /-- A scalar goes behind the others of its region, and all other regions stay. -/
  appended : ∀ id s r, a.plain[id.index]? = some r → r.Open → s.kind = r.kind →
    (a.answer (.append id s)).1.plain = a.plain.set id.index (r.append s)
  freeze : ∀ id, (a.answer (.freeze id)).2 = .ok .done ↔
    ∃ r, a.plain[id.index]? = some r ∧ r.Complete
  freezes : ∀ id r, a.plain[id.index]? = some r → r.Complete →
    (a.answer (.freeze id)).1.plain = a.plain.set id.index r.freeze
  /-- A frozen region never changes again, whatever is asked for. -/
  frozen : ∀ (i : Nat) (r : Region), a.regions[i]? = some r → r.state = .frozen →
    ∀ more, (a.run more).1.regions[i]? = some r
  /-- A region has the scalars whose appending succeeded, in order. -/
  items : ∀ id r, a.plain[id.index]? = some r → r.items = added id asked outcomes
  /-- Its column lists them, all at once or by number. -/
  columns : ∀ id r, a.plain[id.index]? = some r → ∃ c, a.column id = .ok c ∧ c.kind = r.kind ∧
    c.toList = r.items ∧ c.size = r.items.length ∧ ∀ i, c.get? i = r.items[i]?
  counted : a.stats.fixedRegions + a.stats.growableRegions = a.size
  bytes : a.stats.bytes = (a.plain.map fun r => (r.items.map Scalar.byteSize).sum).sum

/-- The column of a region lists what the plain region has. -/
theorem column_of_plain {r : PlainRegion} (hr : a.plain[id.index]? = some r) :
    ∃ c, a.column id = .ok c ∧ c.kind = r.kind ∧ c.toList = r.items ∧ c.size = r.items.length ∧
      ∀ i, c.get? i = r.items[i]? := by
  rw [getElem?_plain] at hr
  obtain ⟨r', hr', rfl⟩ := Option.map_eq_some_iff.mp hr
  have hcolumn : a.column id = .ok r'.column := by
    rw [column, region, hr']
    rfl
  exact ⟨r'.column, hcolumn, rfl, rfl, r'.column.length_toList.symm, r'.column.get?_eq_getElem?⟩

/-- **An arena keeps its promises**, by any growth policy and after any requests. -/
theorem behaves (policy : GrowthPolicy) (asked : List Request) :
    Behaves asked (after policy asked) (outcomes policy asked) := by
  have hsound : (after policy asked).Sound := sound_after policy asked
  have hplain := plain_after policy asked
  have houtcomes := outcomes_eq policy asked
  constructor
  case regions => exact hplain
  case answers => exact houtcomes
  case numbers =>
    obtain ⟨n, hlength, hnumbers⟩ := PlainArena.numbers_run asked []
    have hsize : (after policy asked).size = n := by
      rw [← length_plain, hplain, hlength, List.length_nil, Nat.zero_add]
    rw [houtcomes, hnumbers, hsize, List.range_eq_range']
    rfl
  case refused =>
    intro q e
    rw [(agrees hsound q).2.2]
    exact PlainArena.answer_eq_error_iff hsound.fits
  case append =>
    intro id s
    rw [(agrees hsound _).2.2]
    exact PlainArena.append_eq_done_iff hsound.fits
  case appended =>
    intro id s r hr hopen hs
    rw [(agrees hsound _).2.1, PlainArena.answer_append hr hopen hs]
  case freeze =>
    intro id
    rw [(agrees hsound _).2.2]
    exact PlainArena.freeze_eq_done_iff hsound.fits
  case freezes =>
    intro id r hr hcomplete
    rw [(agrees hsound _).2.1, PlainArena.answer_freeze hr hcomplete]
  case frozen => exact fun i r hr hfrozen more => frozen_run more hfrozen hr
  case items =>
    intro id r hr
    have hitems := PlainArena.items_run asked id []
    rw [← hplain, ← houtcomes, PlainArena.items_of_getElem? hr] at hitems
    exact hitems
  case columns => exact fun id r hr => column_of_plain hr
  case counted => exact hsound.counted
  case bytes => exact bytes_eq_sum hsound

end Arena

end Ragged
