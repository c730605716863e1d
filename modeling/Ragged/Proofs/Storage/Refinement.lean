import Ragged.Proofs.Storage.Columns
import Ragged.Proofs.Storage.Plain

/-!
# An arena is a plain arena

What packing, capacities and counters are for does not show: the arena answers every request as the
plain arena does. `Arena.plain` forgets them, and the main fact is about one request:

> what is answered is what the plain arena answers, and what the regions become is what the plain
> regions become.

It needs to be known of the arena that its columns are sound and that no region holds more than it
was declared to, which every request keeps. So the fact holds of all requests in a row, and what is
plain to see of the plain arena carries over.
-/

set_option autoImplicit false

namespace Ragged

/-! ## Forgetting what does not show -/

def RegionState.plain : RegionState → PlainStatus
  | .fixed n => .fixed n
  | .growable _ => .growable
  | .frozen => .frozen

/-- A region as those who use it see it. -/
def Region.plain (r : Region) : PlainRegion := ⟨r.column.kind, r.column.toList, r.state.plain⟩

/-- So many elements are not more than there is room for. -/
def RegionState.Fits (n : Nat) : RegionState → Prop
  | .fixed m | .growable m => n ≤ m
  | .frozen => True

/-- What every request keeps of a region. -/
structure Region.Sound (r : Region) : Prop where
  column : r.column.Sound
  fits : r.state.Fits r.column.size

/-- A region that grows has more room than before. -/
theorem GrowthPolicy.lt_next (p : GrowthPolicy) (capacity : Nat) : capacity < p.next capacity :=
  Nat.lt_of_lt_of_le (Nat.lt_succ_self capacity)
    (Nat.le_trans (Nat.le_max_right _ _) (Nat.le_max_left _ _))

namespace Arena

def plain (a : Arena) : PlainArena := a.regions.toList.map Region.plain

def answer (a : Arena) : Request → Arena × Outcome
  | .allocateFixed kind n => ((a.allocateFixed kind n).1, .ok (.region (a.allocateFixed kind n).2))
  | .allocateGrowable kind n =>
    ((a.allocateGrowable kind n).1, .ok (.region (a.allocateGrowable kind n).2))
  | .append id s => ((a.append id s).1, (a.append id s).2.map fun _ => .done)
  | .freeze id =>
    match a.freeze id with
    | .ok a => (a, .ok .done)
    | .error e => (a, .error e)
  | .isFrozen id => (a, (a.isFrozen id).map .isFrozen)
  | .length id => (a, (a.column id).map fun c => .length c.size)
  | .element id index => (a, (a.column id).map fun c => .element (c.get? index))
  | .elements id => (a, (a.column id).map fun c => .elements c.kind c.toList)

def run : Arena → List Request → Arena × List Outcome := runWith answer

/-- What every request keeps of an arena. -/
structure Sound (a : Arena) : Prop where
  regions : ∀ r ∈ a.regions, r.Sound
  counted : a.fixedRegions + a.growableRegions = a.size

variable {a a' : Arena} {id : RegionId} {r : Region} {s : Scalar}

theorem getElem?_plain (a : Arena) (i : Nat) :
    a.plain[i]? = a.regions[i]?.map Region.plain := by
  rw [plain, List.getElem?_map, Array.getElem?_toList]

theorem length_plain (a : Arena) : a.plain.length = a.size := by
  rw [plain, List.length_map, Array.length_toList, size]

theorem Sound.region (h : a.Sound) {i : Nat} (hr : a.regions[i]? = some r) : r.Sound :=
  h.regions r (Array.mem_of_getElem? hr)

/-! ## One region changed, one region more -/

theorem plain_of_modify {f : Region → Region}
    (h : a'.regions = a.regions.modify id.index f) (hr : a.regions[id.index]? = some r) :
    a'.plain = a.plain.set id.index (f r).plain := by
  apply List.ext_getElem?
  intro i
  rw [getElem?_plain, h, Array.getElem?_modify, List.getElem?_set, getElem?_plain, length_plain]
  by_cases hi : id.index = i
  · subst hi
    have hlt : id.index < a.size := (Array.getElem?_eq_some_iff.mp hr).1
    rw [if_pos rfl, if_pos rfl, if_pos hlt, hr]
    rfl
  · rw [if_neg hi, if_neg hi]

theorem Sound.of_modify {f : Region → Region} (hsound : a.Sound)
    (h : a'.regions = a.regions.modify id.index f)
    (hcounts : a'.fixedRegions = a.fixedRegions ∧ a'.growableRegions = a.growableRegions)
    (hr : a.regions[id.index]? = some r) (hf : (f r).Sound) : a'.Sound := by
  constructor
  · intro r' hr'
    obtain ⟨i, hr'⟩ := Array.mem_iff_getElem?.mp hr'
    rw [h, Array.getElem?_modify] at hr'
    by_cases hi : id.index = i
    · rw [if_pos hi, ← hi, hr] at hr'
      obtain rfl := Option.some.inj hr'
      exact hf
    · rw [if_neg hi] at hr'
      exact hsound.region hr'
  · rw [hcounts.1, hcounts.2, hsound.counted, size, size, h, Array.size_modify]

theorem plain_of_push (h : a'.regions = a.regions.push r) : a'.plain = a.plain ++ [r.plain] := by
  rw [plain, plain, h, Array.toList_push, List.map_append]
  rfl

theorem Sound.of_push (hsound : a.Sound) (h : a'.regions = a.regions.push r)
    (hcounts : a'.fixedRegions + a'.growableRegions = a.fixedRegions + a.growableRegions + 1)
    (hr : r.Sound) : a'.Sound := by
  constructor
  · intro r' hr'
    rw [h] at hr'
    rcases Array.mem_push.mp hr' with hr' | rfl
    · exact hsound.regions r' hr'
    · exact hr
  · rw [hcounts, hsound.counted, size, size, h, Array.size_push]

/-! ## What a request can do -/

/-- The arena when a scalar has gone to a region that takes it in that state. -/
def stored (a : Arena) (id : RegionId) (s : Scalar) (r : Region) (state : RegionState) : Arena :=
  { a with
    regions := a.regions.modify id.index fun r => ⟨r.column.push s, state⟩
    reallocations := a.reallocations + if state = r.state then 0 else 1 }

/-- An append does nothing, or it finds a region with a state to take a scalar in, and only then does
the kind of the scalar matter. -/
theorem append_cases (a : Arena) (id : RegionId) (s : Scalar) :
    (∃ e, a.append id s = (a, .error e)) ∨ ∃ r state, a.regions[id.index]? = some r ∧
      stateToAppend a.policy id r = .ok state ∧ a.append id s =
        (a.stored id s r state, if r.column.accepts s then .ok ()
          else .error (.kindMismatch r.column.kind s.kind)) := by
  unfold append
  cases hr : a.regions[id.index]? with
  | none => exact .inl ⟨_, rfl⟩
  | some r =>
    cases hstate : stateToAppend a.policy id r with
    | error e => exact .inl ⟨e, by simp only [hstate]⟩
    | ok state => exact .inr ⟨r, state, rfl, hstate, by simp only [hstate]; rfl⟩

/-- A freeze does nothing, or it changes the state of one region, which was not frozen before. -/
theorem freeze_cases (a : Arena) (id : RegionId) :
    (a.answer (.freeze id)).1 = a ∨ ∃ r, a.regions[id.index]? = some r ∧ r.state ≠ .frozen ∧
      (a.answer (.freeze id)).1 = a.modify id fun r => ⟨r.column, .frozen⟩ := by
  rw [answer, freeze]
  cases hr : a.regions[id.index]? with
  | none => exact .inl rfl
  | some r =>
    dsimp only
    cases hstate : r.state with
    | frozen => exact .inl rfl
    | growable capacity => exact .inr ⟨r, rfl, by simp [hstate], rfl⟩
    | fixed n =>
      by_cases hn : r.column.size < n
      · exact .inl (by simp only [if_pos hn])
      · exact .inr ⟨r, rfl, by simp [hstate], by simp only [if_neg hn]⟩

/-! ## One request -/

/-- The arena answers as the plain arena does, and stays sound. -/
def Agrees (a : Arena) (q : Request) : Prop :=
  (a.answer q).1.Sound ∧ (a.answer q).1.plain = (a.plain.answer q).1 ∧
    (a.answer q).2 = (a.plain.answer q).2

theorem agrees_of_allocate {kind : ElementKind} {status : PlainStatus} {q : Request}
    (hplain : a.plain.answer q = a.plain.allocate kind status)
    (hanswer : a.answer q = (a', .ok (.region ⟨a.size⟩)))
    (hregions : a'.regions = a.regions.push r) (hr : r.plain = ⟨kind, [], status⟩)
    (hsound : a'.Sound) : a.Agrees q := by
  rw [Agrees, hplain, hanswer, PlainArena.allocate, length_plain, plain_of_push hregions, hr]
  exact ⟨hsound, rfl, rfl⟩

theorem sound_empty (kind : ElementKind) {state : RegionState} (h : state.Fits 0) :
    Region.Sound ⟨.empty kind, state⟩ := by
  refine ⟨Column.sound_empty kind, ?_⟩
  rw [Column.size_empty]
  exact h

theorem plain_empty (kind : ElementKind) (state : RegionState) :
    Region.plain ⟨.empty kind, state⟩ = ⟨kind, [], state.plain⟩ := by
  rw [Region.plain, Column.kind_empty, Column.toList_empty]

theorem agrees_allocateFixed (h : a.Sound) (kind : ElementKind) (n : Nat) :
    a.Agrees (.allocateFixed kind n) := by
  refine agrees_of_allocate rfl rfl rfl (plain_empty kind (.fixed n)) ?_
  apply h.of_push rfl
  · show a.fixedRegions + 1 + a.growableRegions = _
    rw [Nat.add_right_comm]
  · exact sound_empty kind (Nat.zero_le n)

theorem agrees_allocateGrowable (h : a.Sound) (kind : ElementKind) (n : Nat) :
    a.Agrees (.allocateGrowable kind n) := by
  refine agrees_of_allocate rfl rfl rfl
    (plain_empty kind (.growable (min n maxInitialReserve))) ?_
  exact h.of_push rfl rfl (sound_empty kind (Nat.zero_le _))

/-- Reading is reading the plain region. -/
theorem agrees_of_read {q : Request} {f : Region → Reply} {g : PlainRegion → Reply} (h : a.Sound)
    (hanswer : a.answer q = (a, (a.region id).map f)) (hplain : a.plain.answer q = a.plain.read id g)
    (hfg : ∀ r, f r = g r.plain) : a.Agrees q := by
  rw [Agrees, hanswer, hplain, PlainArena.read, getElem?_plain, region]
  cases a.regions[id.index]? with
  | none => exact ⟨h, rfl, rfl⟩
  | some r => exact ⟨h, rfl, congrArg Except.ok (hfg r)⟩

theorem map_column {α : Type} (a : Arena) (id : RegionId) (f : Column → α) :
    (a.column id).map f = (a.region id).map fun r => f r.column := by
  unfold column
  cases a.region id <;> rfl

/-- A region refuses a scalar, or has room for one more and refuses only other kinds. -/
theorem stateToAppend_cases (hr : r.Sound) (policy : GrowthPolicy) (id : RegionId) (s : Scalar) :
    (∃ e, stateToAppend policy id r = .error e ∧ r.plain.refusesAppend id s = some e) ∨
      ∃ state, stateToAppend policy id r = .ok state ∧ state.plain = r.state.plain ∧
        state.Fits (r.column.size + 1) ∧ r.plain.refusesAppend id s =
          if s.kind ≠ r.column.kind then some (.kindMismatch r.column.kind s.kind) else none := by
  have hlength : r.plain.items.length = r.column.size := r.column.length_toList
  have hfits := hr.fits
  unfold stateToAppend PlainRegion.refusesAppend
  rw [hlength]
  cases hstate : r.state with
  | frozen =>
    have hstatus : r.plain.status = .frozen := by rw [Region.plain, hstate]; rfl
    exact .inl ⟨_, rfl, if_pos hstatus⟩
  | fixed n =>
    have hstatus : r.plain.status = .fixed n := by rw [Region.plain, hstate]; rfl
    rw [hstate] at hfits
    have hle : r.column.size ≤ n := hfits
    rw [hstatus, if_neg (by simp)]
    dsimp only
    by_cases hfull : n = r.column.size
    · left
      rw [if_pos (Nat.le_of_eq hfull), if_pos (congrArg _ hfull), ← hfull]
      exact ⟨_, rfl, rfl⟩
    · right
      have hlt : r.column.size < n := Nat.lt_of_le_of_ne hle (Ne.symm hfull)
      rw [if_neg (Nat.not_le.mpr hlt), if_neg (fun h => hfull (PlainStatus.fixed.inj h))]
      exact ⟨_, rfl, rfl, hlt, rfl⟩
  | growable capacity =>
    have hstatus : r.plain.status = .growable := by rw [Region.plain, hstate]; rfl
    rw [hstate] at hfits
    have hle : r.column.size ≤ capacity := hfits
    right
    rw [hstatus, if_neg (by simp), if_neg (by simp)]
    dsimp only
    by_cases hfull : capacity ≤ r.column.size
    · rw [if_pos hfull]
      refine ⟨_, rfl, rfl, ?_, rfl⟩
      exact Nat.lt_of_le_of_lt hle (policy.lt_next capacity)
    · rw [if_neg hfull]
      exact ⟨_, rfl, rfl, Nat.lt_of_not_le hfull, rfl⟩

/-- A region that was asked to take a scalar is still sound, and of its kind it has taken it. -/
theorem sound_push (hr : r.Sound) {state : RegionState} (hplain : state.plain = r.state.plain)
    (hfits : state.Fits (r.column.size + 1)) (s : Scalar) :
    Region.Sound ⟨r.column.push s, state⟩ ∧
      Region.plain ⟨r.column.push s, state⟩ =
        if s.kind = r.column.kind then r.plain.append s else r.plain := by
  by_cases hs : s.kind = r.column.kind
  · obtain ⟨hsound, hlist⟩ := Column.push_of_kind hr.column hs
    rw [if_pos hs]
    refine ⟨⟨hsound, ?_⟩, ?_⟩
    · rw [Column.size_push_of_kind hr.column hs]
      exact hfits
    · rw [Region.plain, Column.kind_push, hlist, hplain]
      rfl
  · rw [if_neg hs, Column.push_of_kind_ne hs]
    refine ⟨⟨hr.column, ?_⟩, ?_⟩
    · cases state with
      | frozen => trivial
      | fixed m | growable m => exact Nat.le_of_succ_le hfits
    · rw [Region.plain, hplain]
      rfl

theorem agrees_append (h : a.Sound) (id : RegionId) (s : Scalar) : a.Agrees (.append id s) := by
  show (a.append id s).1.Sound ∧ (a.append id s).1.plain = (a.plain.change id _ _).1 ∧
    (a.append id s).2.map (fun _ => Reply.done) = (a.plain.change id _ _).2
  unfold append PlainArena.change
  rw [getElem?_plain]
  cases hr : a.regions[id.index]? with
  | none => exact ⟨h, rfl, rfl⟩
  | some r =>
    have hplain : a.plain[id.index]? = some r.plain := by rw [getElem?_plain, hr, Option.map_some]
    rcases stateToAppend_cases (h.region hr) a.policy id s with
      ⟨e, hstate, hrefuses⟩ | ⟨state, hstate, hstatus, hfits, hrefuses⟩
    · simp only [Option.map_some, hstate, hrefuses]
      exact ⟨h, trivial, rfl⟩
    · obtain ⟨hsound, hregion⟩ := sound_push (h.region hr) hstatus hfits s
      simp only [Option.map_some, hstate, hrefuses]
      refine ⟨h.of_modify (f := fun r => ⟨r.column.push s, state⟩) rfl ⟨rfl, rfl⟩ hr hsound, ?_⟩
      rw [plain_of_modify (f := fun r => ⟨r.column.push s, state⟩) rfl hr, hregion]
      by_cases hs : s.kind = r.column.kind
      · have haccepts : r.column.accepts s = true := beq_iff_eq.mpr hs
        rw [if_pos hs, if_neg (not_not_intro hs), if_pos haccepts]
        exact ⟨rfl, rfl⟩
      · have hrefused : ¬r.column.accepts s = true := fun h => hs (beq_iff_eq.mp h)
        obtain ⟨hlt, heq⟩ := List.getElem?_eq_some_iff.mp hplain
        rw [if_neg hs, if_pos hs, if_neg hrefused, ← heq, List.set_getElem_self]
        exact ⟨rfl, rfl⟩

theorem agrees_freeze (h : a.Sound) (id : RegionId) : a.Agrees (.freeze id) := by
  rw [Agrees, answer, PlainArena.answer, PlainArena.change, freeze, getElem?_plain]
  cases hr : a.regions[id.index]? with
  | none => exact ⟨h, rfl, rfl⟩
  | some r =>
    have hfits := (h.region hr).fits
    have hlength : r.plain.items.length = r.column.size := r.column.length_toList
    -- a region that is frozen is as sound as it was
    have hfrozen : (a.modify id fun r => ⟨r.column, .frozen⟩).Sound ∧
        (a.modify id fun r => ⟨r.column, .frozen⟩).plain = a.plain.set id.index r.plain.freeze :=
      ⟨h.of_modify (f := fun r => ⟨r.column, .frozen⟩) rfl ⟨rfl, rfl⟩ hr
        ⟨(h.region hr).column, trivial⟩,
        plain_of_modify (f := fun r => ⟨r.column, .frozen⟩) rfl hr⟩
    simp only [Option.map_some, PlainRegion.refusesFreeze, hlength]
    cases hstate : r.state with
    | frozen =>
      have hstatus : r.plain.status = .frozen := by rw [Region.plain, hstate]; rfl
      simp only [hstatus]
      exact ⟨h, trivial, trivial⟩
    | growable capacity =>
      have hstatus : r.plain.status = .growable := by rw [Region.plain, hstate]; rfl
      simp only [hstatus]
      exact ⟨hfrozen.1, hfrozen.2, trivial⟩
    | fixed n =>
      have hstatus : r.plain.status = .fixed n := by rw [Region.plain, hstate]; rfl
      rw [hstate] at hfits
      have hle : r.column.size ≤ n := hfits
      simp only [hstatus]
      by_cases hfull : r.column.size = n
      · rw [if_pos hfull, if_neg (Nat.not_lt.mpr (Nat.le_of_eq hfull.symm))]
        exact ⟨hfrozen.1, hfrozen.2, rfl⟩
      · rw [if_neg hfull, if_pos (Nat.lt_of_le_of_ne hle hfull)]
        exact ⟨h, rfl, rfl⟩

/-- **One request is answered as by the plain arena.** -/
theorem agrees (h : a.Sound) (q : Request) : a.Agrees q := by
  cases q with
  | allocateFixed kind n => exact agrees_allocateFixed h kind n
  | allocateGrowable kind n => exact agrees_allocateGrowable h kind n
  | append id s => exact agrees_append h id s
  | freeze id => exact agrees_freeze h id
  | isFrozen id =>
    apply agrees_of_read (f := fun r => .isFrozen (r.state = .frozen)) h _ rfl
    · intro r
      rw [Region.plain]
      cases r.state <;> rfl
    · rw [answer, isFrozen]
      cases a.region id <;> rfl
  | length id =>
    apply agrees_of_read h (congrArg (Prod.mk a) (map_column a id _)) rfl
    intro r
    exact congrArg Reply.length r.column.length_toList.symm
  | element id index =>
    apply agrees_of_read h (congrArg (Prod.mk a) (map_column a id _)) rfl
    intro r
    exact congrArg Reply.element (r.column.get?_eq_getElem? index)
  | elements id =>
    apply agrees_of_read h (congrArg (Prod.mk a) (map_column a id _)) rfl
    intro r
    rfl

/-! ## All requests -/

theorem run_cons (a : Arena) (q : Request) (asked : List Request) :
    a.run (q :: asked) =
      (((a.answer q).1.run asked).1, (a.answer q).2 :: ((a.answer q).1.run asked).2) := rfl

/-- **All requests are answered as by the plain arena**, one after the other. -/
theorem run_agrees (asked : List Request) : ∀ {a : Arena}, a.Sound →
    (a.run asked).1.Sound ∧ (a.run asked).1.plain = (a.plain.run asked).1 ∧
      (a.run asked).2 = (a.plain.run asked).2 := by
  induction asked with
  | nil => exact fun h => ⟨h, rfl, rfl⟩
  | cons q asked ih =>
    intro a h
    obtain ⟨hsound, hplain, houtcome⟩ := agrees h q
    obtain ⟨hsound', hplain', houtcomes⟩ := ih hsound
    rw [hplain] at hplain' houtcomes
    rw [run_cons, PlainArena.run_cons]
    exact ⟨hsound', hplain', by rw [houtcome, houtcomes]⟩

/-- What an arena is after some requests, which at first had no regions. -/
def after (policy : GrowthPolicy) (asked : List Request) : Arena := (run { policy } asked).1

/-- What it has answered. -/
def outcomes (policy : GrowthPolicy) (asked : List Request) : List Outcome :=
  (run { policy } asked).2

theorem sound_new (policy : GrowthPolicy) : Sound { policy } :=
  ⟨fun r hr => absurd hr (Array.not_mem_empty r), rfl⟩

theorem sound_after (policy : GrowthPolicy) (asked : List Request) : (after policy asked).Sound :=
  (run_agrees asked (sound_new policy)).1

theorem plain_after (policy : GrowthPolicy) (asked : List Request) :
    (after policy asked).plain = (PlainArena.run [] asked).1 :=
  (run_agrees asked (sound_new policy)).2.1

theorem outcomes_eq (policy : GrowthPolicy) (asked : List Request) :
    outcomes policy asked = (PlainArena.run [] asked).2 :=
  (run_agrees asked (sound_new policy)).2.2

end Arena

end Ragged
