import Ragged.Proofs.Layout.Blocks

/-!
# A block's first and last step

A block is allocated before its first instance and frozen behind its last, and neither can go wrong:

> what `allocate` returns is ready for as many instances as it was asked for and holds none, and
> `freeze` succeeds on a block for which none is left.

That a region of declared length is right needs the number of its elements beforehand. It is the
product of the extents only if no strided dimension is among them that some instance may yet find
otherwise; so the first is proved for exact sizes where no extent is known, which is the array's root
(`Sizing.Fits`). Rows always grow.
-/

set_option autoImplicit false

namespace Ragged

/-- How many instances a block of that size is for, if this is settled. -/
def Sizing.left : Sizing → Option Nat
  | .exact n => some n
  | .growable _ => none

/-- Sizes are exact only while no extent is known. -/
def Sizing.Fits (sizing : Sizing) (s : Store) : Prop :=
  ∀ n, sizing = .exact n → ∀ slot, s.extents.getD slot none = none

/-- What allocation returns: a block of new regions, ready for some instances and holding none. -/
structure Layout.Fresh (l : Layout) (s : Store) (left : Option Nat) (s' : Store) (b : Block) :
    Prop where
  step : s.Step [] s'
  extents : s'.extents = s.extents
  ready : l.Ready s'.arena b left
  holds : l.Holds s' b []
  nodup : b.own.Nodup
  fresh : ∀ i ∈ b.own, s.arena.size ≤ i ∧ i < s'.arena.size

namespace Layout

/-! ## Dimensions over a fresh leaf -/

section Dims

variable {a : Arena} {leaf : LayoutLeaf} {b : Block}

/-- A leaf that takes any number of elements does so below any dimensions. -/
theorem ready_of_leaf {dims : List LayoutDim} (hdims : dims.any LayoutDim.isVar = false)
    (hleaf : Ready a ⟨[], leaf⟩ b none) : ∀ left, Ready a ⟨dims, leaf⟩ b left := by
  induction dims with
  | nil => exact fun left => hleaf.of_none left
  | cons d dims ih =>
    intro left
    rw [List.any_cons, Bool.or_eq_false_iff] at hdims
    cases d with
    | fixed n => exact ih hdims.2 (left.map (· * n))
    | strided slot => exact ih hdims.2 none
    | var => exact absurd hdims.1 (by simp [LayoutDim.isVar])

/-- A leaf that takes just so many elements as the extents amount to. The induction is on the
dimensions, with the extents before them multiplied up. -/
theorem ready_of_segment {s : Store} (hs : ∀ slot, s.extents.getD slot none = none) (n : Nat) :
    ∀ {dims : List LayoutDim} {outer per : Nat},
      dims.foldlM (fun n d => do
        let m := n * (← s.extent? d)
        if m < sizeLimit then some m else none) outer = some per →
      Ready a ⟨[], leaf⟩ b (some (n * per)) → Ready a ⟨dims, leaf⟩ b (some (n * outer)) := by
  intro dims
  induction dims with
  | nil =>
    intro outer per h hleaf
    obtain rfl : outer = per := Option.some.inj h
    exact hleaf
  | cons d dims ih =>
    intro outer per h hleaf
    rw [List.foldlM_cons] at h
    obtain ⟨m, hm, hrest⟩ := Option.bind_eq_some_iff.mp h
    obtain ⟨extent, hextent, hlim⟩ := Option.bind_eq_some_iff.mp hm
    cases d with
    | fixed k =>
      obtain rfl : k = extent := Option.some.inj hextent
      have hlim : (if outer * k < sizeLimit then some (outer * k) else none) = some m := hlim
      obtain ⟨-, hm⟩ := Option.ite_none_right_eq_some.mp hlim
      obtain rfl : outer * k = m := Option.some.inj hm
      have hready := ih hrest hleaf
      show Ready a ⟨dims, leaf⟩ b (some (n * outer * k))
      rw [Nat.mul_assoc]
      exact hready
    | strided slot => exact absurd (hextent.symm.trans (hs slot)) (by simp)
    | var => exact absurd hextent (by simp [Store.extent?])

theorem holds_nil_of_leaf {s : Store} {dims : List LayoutDim}
    (hdims : dims.any LayoutDim.isVar = false) (hleaf : Holds s ⟨[], leaf⟩ b []) :
    Holds s ⟨dims, leaf⟩ b [] := by
  induction dims with
  | nil => exact hleaf
  | cons d dims ih =>
    rw [List.any_cons, Bool.or_eq_false_iff] at hdims
    rw [holds_regular hdims.1]
    exact ⟨[], rfl, fun _ h => absurd h List.not_mem_nil, ih hdims.2⟩

/-- Above a var dimension there are no rows yet, however many instances are to come. -/
theorem ready_no_rows {dims : List LayoutDim} (hdims : dims.any LayoutDim.isVar = true) :
    ∀ left, Ready a ⟨dims, leaf⟩ (.var #[]) left := by
  induction dims with
  | nil => exact absurd hdims (by simp)
  | cons d dims ih =>
    intro left
    cases d with
    | fixed n => exact ih (by simpa [LayoutDim.isVar] using hdims) (left.map (· * n))
    | strided slot => exact ih (by simpa [LayoutDim.isVar] using hdims) none
    | var => exact ⟨#[], rfl⟩

theorem holds_no_rows {s : Store} {dims : List LayoutDim}
    (hdims : dims.any LayoutDim.isVar = true) : Holds s ⟨dims, leaf⟩ (.var #[]) [] := by
  induction dims with
  | nil => exact absurd hdims (by simp)
  | cons d dims ih =>
    by_cases hd : d.isVar = false
    · rw [holds_regular hd]
      rw [List.any_cons, hd, Bool.false_or] at hdims
      exact ⟨[], rfl, fun _ h => absurd h List.not_mem_nil, ih hdims⟩
    · cases d with
      | fixed n => exact absurd rfl hd
      | strided slot => exact absurd rfl hd
      | var => exact ⟨#[], [], rfl, rfl, .nil⟩

end Dims

/-! ## Allocation -/

theorem fresh_element {kind : ElementKind} {leaf : LeafType} {s s' : Store} {id : RegionId}
    {left : Option Nat} {state : RegionState} (hregions : s'.arena.regions =
      s.arena.regions.push ⟨.empty kind, state⟩) (hid : id = ⟨s.arena.regions.size⟩)
    (hextents : s'.extents = s.extents)
    (htakes : Region.Takes ⟨.empty kind, state⟩ kind left) :
    Fresh ⟨[], .element kind leaf⟩ s left s' (.leaf id) := by
  obtain ⟨hchanges, hsize, hr⟩ := Arena.changes_of_push hregions
  subst hid
  refine ⟨⟨hchanges, fun i r hr _ => hchanges.others hr List.not_mem_nil, fun d n hn => ?_, ?_⟩,
    hextents, ⟨_, _, rfl, hr, htakes⟩,
    ⟨_, _, [], rfl, hr, Column.kind_empty kind, Column.sound_empty kind, ?_, rfl⟩,
    List.pairwise_singleton _ _,
    fun i hi => ?_⟩
  · rw [← hn]
    cases d <;> simp only [Store.extent?, hextents]
  · rw [hextents]
  · rw [Column.toList_empty]
    rfl
  · rw [List.mem_singleton.mp hi]
    exact ⟨Nat.le_refl _, by rw [hsize]; exact Nat.lt_succ_self _⟩

/-- The block of one more field, allocated before those of the others. -/
theorem Fresh.cons {type : List Field} {l : Layout} {ls : List Layout} {s s' s'' : Store}
    {left : Option Nat} {b : Block} {bs : List Block} (h : l.Fresh s left s' b)
    (h' : Fresh ⟨[], .struct type ls⟩ s' left s'' (.struct bs)) :
    Fresh ⟨[], .struct type (l :: ls)⟩ s left s'' (.struct (b :: bs)) := by
  have hsize := h.step.changes.size_le
  obtain ⟨blocks, records, hblocks, hrecords, -, hholds⟩ := h'.holds
  obtain rfl := Block.struct.inj hblocks
  obtain rfl := List.map_eq_nil_iff.mp hrecords.symm
  have hdisj : ∀ i ∈ b.own, i ∉ ([] : List Nat) := fun _ _ => List.not_mem_nil
  refine ⟨h.step.trans h'.step, h'.extents.trans h.extents,
    ready_struct.mpr ⟨h'.step.ready hdisj h.ready, ready_struct.mp h'.ready⟩,
    ⟨b :: bs, [], rfl, rfl, fun _ hw => absurd hw List.not_mem_nil,
      h.holds.of_keeps (h'.step.keeps hdisj), hholds⟩,
    List.nodup_append.mpr ⟨h.nodup, h'.nodup, fun i hi j hj => ?_⟩, fun i hi => ?_⟩
  · have hlt := (h.fresh i hi).2
    have hge := (h'.fresh j hj).1
    omega
  · rcases List.mem_append.mp hi with hi | hi
    · exact ⟨(h.fresh i hi).1, Nat.lt_of_lt_of_le (h.fresh i hi).2 h'.step.changes.size_le⟩
    · exact ⟨Nat.le_trans hsize (h'.fresh i hi).1, (h'.fresh i hi).2⟩

/-- The block of an array's dimensions is that of its leaf, or has no rows yet. -/
theorem fresh_allocate_of_leaf {l : Layout}
    (hleaf : ∀ (s : Store) (sizing : Sizing), sizing.Fits s →
      Fresh ⟨[], l.leaf⟩ s sizing.left (l.leaf.allocate s sizing).1 (l.leaf.allocate s sizing).2)
    (s : Store) (sizing : Sizing) (hfits : sizing.Fits s) :
    l.Fresh s sizing.left (l.allocate s sizing).1 (l.allocate s sizing).2 := by
  obtain ⟨dims, leaf⟩ := l
  unfold allocate
  cases hdims : dims.any LayoutDim.isVar with
  | true =>
    exact ⟨.refl _ s, rfl, ready_no_rows hdims _, holds_no_rows hdims, List.nodup_nil,
      fun i hi => absurd hi List.not_mem_nil⟩
  | false =>
    -- whatever size the leaf is asked for, the regions are new and the rest is as for the leaf
    have hwith : ∀ size : Sizing, size.Fits s →
        (∀ a b, Ready a ⟨[], leaf⟩ b size.left → Ready a ⟨dims, leaf⟩ b sizing.left) →
        Fresh ⟨dims, leaf⟩ s sizing.left (leaf.allocate s size).1 (leaf.allocate s size).2 := by
      intro size hsize hready
      have h := hleaf s size hsize
      exact ⟨h.step, h.extents, hready _ _ h.ready, holds_nil_of_leaf hdims h.holds, h.nodup,
        h.fresh⟩
    have hgrow : ∀ m, Fresh ⟨dims, leaf⟩ s sizing.left (leaf.allocate s (.growable m)).1
        (leaf.allocate s (.growable m)).2 := fun m =>
      hwith (.growable m) (fun n hn => absurd hn (by simp))
        fun a b h => ready_of_leaf hdims h sizing.left
    show Fresh ⟨dims, leaf⟩ s sizing.left (leaf.allocate s (sizing.times (s.segment? dims))).1
      (leaf.allocate s (sizing.times (s.segment? dims))).2
    cases sizing with
    | growable n => cases s.segment? dims <;> exact hgrow _
    | exact n =>
      cases hseg : s.segment? dims with
      | none => exact hgrow n
      | some per =>
        by_cases hlim : n * per < sizeLimit
        · simp only [Sizing.times, if_pos hlim]
          refine hwith (.exact (n * per)) (fun _ _ => hfits n rfl) fun a b h => ?_
          have hready := ready_of_segment (hfits n rfl) n hseg h
          rw [Nat.mul_one] at hready
          exact hready
        · simp only [Sizing.times, if_neg hlim]
          exact hgrow n

theorem fresh_allocateLeaf (l : Layout) :
    ∀ (s : Store) (sizing : Sizing), sizing.Fits s →
      Fresh ⟨[], l.leaf⟩ s sizing.left (l.leaf.allocate s sizing).1
        (l.leaf.allocate s sizing).2 := by
  induction l using Layout.induction with
  | element kind leaf =>
    intro s sizing _
    obtain ⟨arena, extents⟩ := s
    cases sizing with
    | exact n =>
      refine fresh_element rfl rfl rfl ⟨Column.kind_empty kind, Column.sound_empty kind, n, rfl, ?_⟩
      rw [Column.size_empty, Nat.zero_add]
    | growable n =>
      exact fresh_element rfl rfl rfl ⟨Column.kind_empty kind, Column.sound_empty kind, trivial⟩
  | struct type layouts ih =>
    -- one field after the other; what comes later is new to those before
    have hall : ∀ (s : Store) (sizing : Sizing), sizing.Fits s →
        Fresh ⟨[], .struct type layouts⟩ s sizing.left (allocateAll layouts s sizing).1
          (.struct (allocateAll layouts s sizing).2) := by
      induction layouts with
      | nil =>
        intro s sizing _
        exact ⟨.refl _ s, rfl, ⟨[], rfl, trivial⟩,
          ⟨[], [], rfl, rfl, fun _ h => absurd h List.not_mem_nil, trivial⟩, List.nodup_nil,
          fun i hi => absurd hi List.not_mem_nil⟩
      | cons l ls ihls =>
        intro s sizing hfits
        obtain ⟨hl, hls⟩ := List.forall_mem_cons.mp ih
        have hfirst := fresh_allocate_of_leaf hl s sizing hfits
        have hfits' : sizing.Fits (l.allocate s sizing).1 := by
          intro n hn slot
          rw [hfirst.extents]
          exact hfits n hn slot
        exact hfirst.cons (ihls hls _ sizing hfits')
    exact hall
  | dim d dims leaf ih => exact ih

/-- **An allocated block is ready and empty.** -/
theorem fresh_allocate (l : Layout) (s : Store) (sizing : Sizing) (hfits : sizing.Fits s) :
    l.Fresh s sizing.left (l.allocate s sizing).1 (l.allocate s sizing).2 :=
  fresh_allocate_of_leaf (fresh_allocateLeaf l) s sizing hfits

end Layout

/-! ## Freezing -/

/-- What freezing does: of the regions given nothing but the state changes. -/
structure Store.Freezes (own : List Nat) (s s' : Store) : Prop where
  step : s.Step own s'
  extents : s'.extents = s.extents
  columns : ∀ (i : Nat) (r : Region), s.arena.regions[i]? = some r →
    ∃ r', s'.arena.regions[i]? = some r' ∧ r'.column = r.column
  done : Layout.Frozen s'.arena own

namespace Store.Freezes

variable {own own' : List Nat} {s s' s'' : Store}

/-- So every block goes on holding what it holds. -/
theorem keeps (h : Freezes own s s') (own' : List Nat) : s.Keeps own' s' :=
  ⟨fun i _ => h.columns i, h.step.frozen, h.step.extents⟩

theorem nil (s : Store) : Freezes [] s s :=
  ⟨.refl [] s, rfl, fun _ r hr => ⟨r, hr, rfl⟩, fun _ hi => absurd hi List.not_mem_nil⟩

theorem append (h : Freezes own s s') (h' : Freezes own' s' s'') :
    Freezes (own ++ own') s s'' := by
  refine ⟨(h.step.mono fun i hi => List.mem_append_left _ hi).trans
      (h'.step.mono fun i hi => List.mem_append_right _ hi), h'.extents.trans h.extents,
    fun i r hr => ?_, fun i hi => ?_⟩
  · obtain ⟨r', hr', hcol⟩ := h.columns i r hr
    obtain ⟨r'', hr'', hcol'⟩ := h'.columns i r' hr'
    exact ⟨r'', hr'', hcol'.trans hcol⟩
  · rcases List.mem_append.mp hi with hi | hi
    · exact h.done.of_keeps (h'.keeps []) i hi
    · exact h'.done i hi

end Store.Freezes

namespace Layout

theorem freezes_element {a : Arena} {extents : Array (Option Nat)} {id : RegionId} {r : Region}
    {kind : ElementKind} {left : Option Nat} (hr : a.regions[id.index]? = some r)
    (ht : r.Takes kind left) (hleft : ∀ n, left = some n → n = 0) :
    ∃ s', Store.freeze ⟨a, extents⟩ (.leaf id) = .ok s' ∧
      Store.Freezes [id.index] ⟨a, extents⟩ s' := by
  obtain ⟨a', hfreeze, hchanges, hr'⟩ := Arena.freeze_of_takes hr ht hleft
  have hother : ∀ {i : Nat} {r₀ : Region}, a.regions[i]? = some r₀ → i ≠ id.index →
      a'.regions[i]? = some r₀ := fun h hi => hchanges.others h fun hmem =>
    hi (List.mem_singleton.mp hmem)
  refine ⟨⟨a', extents⟩, by rw [Store.freeze, hfreeze], ⟨hchanges, fun i r₀ hr₀ hf => ?_,
    fun d n hn => ?_, rfl⟩, rfl, fun i r₀ hr₀ => ?_, fun i hi => ?_⟩
  · refine hother hr₀ fun hi => ?_
    subst hi
    obtain rfl : r = r₀ := Option.some.inj (hr.symm.trans hr₀)
    exact ht.not_frozen hf
  · rw [← hn]
    cases d <;> rfl
  · by_cases hi : i = id.index
    · subst hi
      obtain rfl : r = r₀ := Option.some.inj (hr.symm.trans hr₀)
      exact ⟨_, hr', rfl⟩
    · exact ⟨r₀, hother hr₀ hi, rfl⟩
  · rw [List.mem_singleton.mp hi]
    exact ⟨_, hr', rfl⟩

/-- **A block for which nothing is left can be frozen.** -/
theorem freezes_of_ready (l : Layout) :
    ∀ {s : Store} {b : Block} {left : Option Nat}, l.Ready s.arena b left →
      (∀ n, left = some n → n = 0) → b.own.Nodup →
      ∃ s', s.freeze b = .ok s' ∧ s.Freezes b.own s' := by
  induction l using Layout.induction with
  | element kind leaf =>
    rintro ⟨a, extents⟩ b left ⟨id, r, rfl, hr, ht⟩ hleft _
    exact freezes_element hr ht hleft
  | struct type layouts ih =>
    have hall : ∀ {s : Store} {blocks : List Block} {left : Option Nat},
        ReadyAll s.arena layouts blocks left → (∀ n, left = some n → n = 0) →
        (Block.ownAll blocks).Nodup →
        ∃ s', Store.freeze.freezeAll s blocks = .ok s' ∧ s.Freezes (Block.ownAll blocks) s' := by
      induction layouts with
      | nil =>
        intro s blocks left h _ _
        cases blocks with
        | nil => exact ⟨s, rfl, .nil s⟩
        | cons b bs => exact h.elim
      | cons l ls ihls =>
        intro s blocks left h hleft hnodup
        obtain ⟨hl, hls⟩ := List.forall_mem_cons.mp ih
        cases blocks with
        | nil => exact h.elim
        | cons b bs =>
          obtain ⟨hb, hbs, hdisj⟩ := List.nodup_append.mp hnodup
          obtain ⟨s₁, hs₁, hfirst⟩ := hl h.1 hleft hb
          -- the other fields' regions are others
          have hrest := hfirst.step.readyAll (fun i hi hi' => hdisj i hi' i hi rfl) h.2
          obtain ⟨s₂, hs₂, hothers⟩ := ihls hls hrest hleft hbs
          exact ⟨s₂, by rw [Store.freeze.freezeAll, hs₁]; exact hs₂, hfirst.append hothers⟩
    rintro s b left ⟨blocks, rfl, h⟩ hleft hnodup
    exact hall h hleft hnodup
  | dim d dims leaf ih =>
    intro s b left h hleft hnodup
    cases d with
    | fixed n =>
      refine ih h (fun m hm => ?_) hnodup
      obtain ⟨k, hk, rfl⟩ := Option.map_eq_some_iff.mp hm
      rw [hleft k hk, Nat.zero_mul]
    | strided slot => exact ih h (fun m hm => absurd hm (by simp)) hnodup
    | var =>
      obtain ⟨rows, rfl⟩ := h
      exact ⟨s, by rw [Store.freeze], .nil s⟩

end Layout

end Ragged
