import Mathlib.Data.List.Forall2
import Ragged.Layout.Write
import Ragged.Proofs.Storage.Regions
import Ragged.Proofs.Type.Structure

/-!
# Blocks

A block is written to instance by instance, and two judgments say where it stands.

* `Layout.Ready`: its regions take the elements of some more instances, or of any number of them.
* `Layout.Holds`: it holds some instances, told as the values they read back as.

Both follow the dimensions of the layout. A regular dimension gathers: the block holds lists just if
what is below holds their elements, one list behind the other. A var dimension does not, since each
row has its own block. So `Holds` is where row-major order is said, once and without any index.

Both speak of regions by number, and what a step does elsewhere must not matter to them. The regions
that a block writes to itself are `Block.own`; those of its rows are frozen. A step that leaves the
former alone, and frozen regions and known extents as they are, leaves what the block holds
(`Holds.of_keeps`).
-/

set_option autoImplicit false

namespace Ragged

mutual

/-- The regions a block writes to. Complete rows have no more to write. -/
def Block.own : Block → List Nat
  | .leaf id => [id.index]
  | .struct fields => Block.ownAll fields
  | .var _ => []

def Block.ownAll : List Block → List Nat
  | [] => []
  | b :: bs => b.own ++ Block.ownAll bs

end

/-- Induction on a block goes into the blocks of fields, and not into rows. -/
@[elab_as_elim]
theorem Block.induction {motive : Block → Prop} (leaf : ∀ id, motive (.leaf id))
    (struct : ∀ fields, (∀ b ∈ fields, motive b) → motive (.struct fields))
    (var : ∀ rows, motive (.var rows)) (b : Block) : motive b := by
  refine @Block.rec motive (fun _ => True) (fun fields => ∀ b ∈ fields, motive b) (fun _ => True)
    (fun _ => True) leaf struct (fun rows _ => var rows) ?_ ?_ ?_ ?_ ?_ ?_ b
  · exact fun _ _ _ => trivial
  · exact fun _ h => absurd h List.not_mem_nil
  · exact fun _ _ hb hbs => List.forall_mem_cons.mpr ⟨hb, hbs⟩
  · exact fun _ _ => trivial
  · trivial
  · exact fun _ _ _ _ => trivial

theorem LayoutDim.eq_var_of_isVar {d : LayoutDim} (h : d.isVar = true) : d = .var := by
  cases d with
  | var => rfl
  | _ => exact absurd h (by simp [isVar])

namespace Layout

/-! ## What is still to be written -/

def ReadyDims (ready : Block → Option Nat → Prop) : List LayoutDim → Block → Option Nat → Prop
  | [], b, left => ready b left
  | .fixed n :: dims, b, left => ReadyDims ready dims b (left.map (· * n))
  | .strided _ :: dims, b, _ => ReadyDims ready dims b none
  | .var :: _, b, _ => ∃ rows, b = .var rows

mutual

/-- The block takes as many more instances of the layout as are said to be left, or any number of
them if nothing is said. -/
def Ready (a : Arena) : Layout → Block → Option Nat → Prop
  | ⟨dims, leaf⟩ => ReadyDims (ReadyLeaf a leaf) dims

def ReadyLeaf (a : Arena) : LayoutLeaf → Block → Option Nat → Prop
  | .element kind _, b, left =>
    ∃ id r, b = .leaf id ∧ a.regions[id.index]? = some r ∧ r.Takes kind left
  | .struct _ layouts, b, left => ∃ blocks, b = .struct blocks ∧ ReadyAll a layouts blocks left

def ReadyAll (a : Arena) : List Layout → List Block → Option Nat → Prop
  | [], [], _ => True
  | l :: ls, b :: bs, left => l.Ready a b left ∧ ReadyAll a ls bs left
  | _, _, _ => False

end

section Ready

variable {a a' : Arena}

theorem ready_struct {type : List Field} {layouts : List Layout} {blocks : List Block}
    {left : Option Nat} :
    Ready a ⟨[], .struct type layouts⟩ (.struct blocks) left ↔ ReadyAll a layouts blocks left := by
  constructor
  · rintro ⟨blocks, hblocks, h⟩
    obtain rfl := Block.struct.inj hblocks
    exact h
  · exact fun h => ⟨blocks, rfl, h⟩

/-- What does not depend on a number takes any. -/
theorem Ready.of_none {l : Layout} :
    ∀ {b : Block} (left : Option Nat), l.Ready a b none → l.Ready a b left := by
  induction l using Layout.induction with
  | element kind leaf =>
    rintro b left ⟨id, r, hb, hr, ht⟩
    exact ⟨id, r, hb, hr, ht.of_none left⟩
  | struct type layouts ih =>
    have hall : ∀ {blocks : List Block} (left : Option Nat), ReadyAll a layouts blocks none →
        ReadyAll a layouts blocks left := by
      induction layouts with
      | nil => intro blocks left h; cases blocks <;> exact h
      | cons l ls ihls =>
        intro blocks left h
        obtain ⟨hl, hls⟩ := List.forall_mem_cons.mp ih
        cases blocks with
        | nil => exact h
        | cons b bs => exact ⟨hl left h.1, ihls hls left h.2⟩
    rintro b left ⟨blocks, hb, h⟩
    exact ⟨blocks, hb, hall left h⟩
  | dim d dims leaf ih =>
    intro b left h
    cases d with
    | fixed n => exact ih (left.map (· * n)) h
    | strided slot => exact h
    | var => exact h

/-- Only the block's own regions matter to what it takes. -/
theorem Ready.of_own {l : Layout} :
    ∀ {b : Block} {left : Option Nat},
      (∀ i ∈ b.own, ∀ r, a.regions[i]? = some r → a'.regions[i]? = some r) →
      l.Ready a b left → l.Ready a' b left := by
  induction l using Layout.induction with
  | element kind leaf =>
    rintro b left hown ⟨id, r, rfl, hr, ht⟩
    exact ⟨id, r, rfl, hown _ (List.mem_singleton_self _) r hr, ht⟩
  | struct type layouts ih =>
    have hall : ∀ {blocks : List Block} {left : Option Nat},
        (∀ i ∈ Block.ownAll blocks, ∀ r, a.regions[i]? = some r → a'.regions[i]? = some r) →
        ReadyAll a layouts blocks left → ReadyAll a' layouts blocks left := by
      induction layouts with
      | nil => intro blocks left _ h; cases blocks <;> exact h
      | cons l ls ihls =>
        intro blocks left hown h
        obtain ⟨hl, hls⟩ := List.forall_mem_cons.mp ih
        cases blocks with
        | nil => exact h
        | cons b bs =>
          exact ⟨hl (fun i hi => hown i (List.mem_append_left _ hi)) h.1,
            ihls hls (fun i hi => hown i (List.mem_append_right _ hi)) h.2⟩
    rintro b left hown ⟨blocks, rfl, h⟩
    exact ⟨blocks, rfl, hall hown h⟩
  | dim d dims leaf ih =>
    intro b left hown h
    cases d with
    | fixed n => exact ih hown h
    | strided slot => exact ih hown h
    | var => exact h

end Ready

/-! ## What is already there -/

/-- The regions are there, and finished. -/
def Frozen (a : Arena) (ids : List Nat) : Prop :=
  ∀ i ∈ ids, ∃ r, a.regions[i]? = some r ∧ r.state = .frozen

def HoldsDims (s : Store) (holds : Block → List Value → Prop) :
    List LayoutDim → Block → List Value → Prop
  | [], b, vs => holds b vs
  | .var :: dims, b, vs =>
    ∃ (rows : Array Row) (kids : List (List Value)), b = .var rows ∧ vs = kids.map .list ∧
      List.Forall₂ (fun (row : Row) kid => row.length = kid.length ∧
        Frozen s.arena row.block.own ∧ HoldsDims s holds dims row.block kid) rows.toList kids
  | d :: dims, b, vs =>
    ∃ kids : List (List Value), vs = kids.map .list ∧
      (∀ kid ∈ kids, s.extent? d = some kid.length) ∧ HoldsDims s holds dims b kids.flatten

mutual

/-- The block holds instances of the layout which read back as the given values. -/
def Holds (s : Store) : Layout → Block → List Value → Prop
  | ⟨dims, leaf⟩ => HoldsDims s (HoldsLeaf s leaf) dims

def HoldsLeaf (s : Store) : LayoutLeaf → Block → List Value → Prop
  | .element kind leaf, b, vs =>
    ∃ (id : RegionId) (r : Region) (atoms : List Atom), b = .leaf id ∧
      s.arena.regions[id.index]? = some r ∧ r.column.kind = kind ∧ r.column.Sound ∧
      r.column.toList.map leaf.load = atoms.map .ok ∧ vs = atoms.map .atom
  | .struct type layouts, b, vs =>
    ∃ (blocks : List Block) (records : List (List Value)), b = .struct blocks ∧
      vs = records.map (fun ws => .dict ((Struct.names type).zip ws)) ∧
      (∀ ws ∈ records, ws.length = layouts.length) ∧ HoldAll s layouts blocks records

/-- Each block holds one field of all records, the first of them those that come first. -/
def HoldAll (s : Store) : List Layout → List Block → List (List Value) → Prop
  | [], [], _ => True
  | l :: ls, b :: bs, records =>
    l.Holds s b (records.map (·.headD default)) ∧ HoldAll s ls bs (records.map List.tail)
  | _, _, _ => False

end

/-- At a dimension that is not var, the block holds the elements of all lists. -/
theorem holds_regular {s : Store} {d : LayoutDim} {dims : List LayoutDim} {leaf : LayoutLeaf}
    {b : Block} {vs : List Value} (hd : d.isVar = false) :
    Holds s ⟨d :: dims, leaf⟩ b vs ↔
      ∃ kids : List (List Value), vs = kids.map .list ∧
        (∀ kid ∈ kids, s.extent? d = some kid.length) ∧ Holds s ⟨dims, leaf⟩ b kids.flatten := by
  cases d with
  | fixed n => exact Iff.rfl
  | strided slot => exact Iff.rfl
  | var => exact absurd hd (by simp [LayoutDim.isVar])

end Layout

/-! ## What others may do meanwhile -/

/-- What a block whose own regions are given needs in order to hold what it does: the columns of
these regions, all frozen regions, and the extents known. -/
structure Store.Keeps (own : List Nat) (s s' : Store) : Prop where
  columns : ∀ i ∈ own, ∀ r : Region, s.arena.regions[i]? = some r →
    ∃ r', s'.arena.regions[i]? = some r' ∧ r'.column = r.column
  frozen : ∀ (i : Nat) (r : Region), s.arena.regions[i]? = some r → r.state = .frozen →
    s'.arena.regions[i]? = some r
  extents : ∀ d n, s.extent? d = some n → s'.extent? d = some n

namespace Store.Keeps

variable {own own' : List Nat} {s s' : Store}

theorem mono (h : Keeps own s s') (hsub : ∀ i ∈ own', i ∈ own) : Keeps own' s s' :=
  ⟨fun i hi => h.columns i (hsub i hi), h.frozen, h.extents⟩

/-- What is frozen needs nothing else. -/
theorem of_frozen (h : Keeps own s s') (hf : Layout.Frozen s.arena own') : Keeps own' s s' := by
  refine ⟨fun i hi r hr => ?_, h.frozen, h.extents⟩
  obtain ⟨r', hr', hstate⟩ := hf i hi
  obtain rfl : r' = r := Option.some.inj (hr'.symm.trans hr)
  exact ⟨r', h.frozen i r' hr' hstate, rfl⟩

end Store.Keeps

theorem Layout.Frozen.of_keeps {own ids : List Nat} {s s' : Store} (hf : Frozen s.arena ids)
    (h : s.Keeps own s') : Frozen s'.arena ids := by
  intro i hi
  obtain ⟨r, hr, hstate⟩ := hf i hi
  exact ⟨r, h.frozen i r hr hstate, hstate⟩

theorem Layout.HoldAll.of_keeps_of {s s' : Store} {layouts : List Layout}
    (h : ∀ l ∈ layouts, ∀ {b : Block} {vs : List Value}, s.Keeps b.own s' → l.Holds s b vs →
      l.Holds s' b vs) :
    ∀ {blocks : List Block} {records : List (List Value)}, s.Keeps (Block.ownAll blocks) s' →
      HoldAll s layouts blocks records → HoldAll s' layouts blocks records := by
  induction layouts with
  | nil => intro blocks records _ hold; cases blocks <;> exact hold
  | cons l ls ih =>
    intro blocks records hkeeps hold
    obtain ⟨hl, hls⟩ := List.forall_mem_cons.mp h
    cases blocks with
    | nil => exact hold
    | cons b bs =>
      exact ⟨hl (hkeeps.mono fun i hi => List.mem_append_left _ hi) hold.1,
        ih hls (hkeeps.mono fun i hi => List.mem_append_right _ hi) hold.2⟩

/-- **A block holds what it does as long as that is kept.** Its rows are frozen, so they are. -/
theorem Layout.Holds.of_keeps {s s' : Store} {l : Layout} :
    ∀ {b : Block} {vs : List Value}, s.Keeps b.own s' → l.Holds s b vs → l.Holds s' b vs := by
  induction l using Layout.induction with
  | element kind leaf =>
    rintro b vs hkeeps ⟨id, r, atoms, rfl, hr, hkind, hsound, hload, hvs⟩
    obtain ⟨r', hr', hcol⟩ := hkeeps.columns id.index (List.mem_singleton_self _) r hr
    rw [← hcol] at hkind hsound hload
    exact ⟨id, r', atoms, rfl, hr', hkind, hsound, hload, hvs⟩
  | struct type layouts ih =>
    rintro b vs hkeeps ⟨blocks, records, rfl, hvs, hlen, h⟩
    exact ⟨blocks, records, rfl, hvs, hlen, HoldAll.of_keeps_of ih hkeeps h⟩
  | dim d dims leaf ih =>
    intro b vs hkeeps h
    by_cases hd : d.isVar = false
    · rw [holds_regular hd] at h ⊢
      obtain ⟨kids, hvs, hextent, h⟩ := h
      exact ⟨kids, hvs, fun kid hkid => hkeeps.extents d _ (hextent kid hkid), ih hkeeps h⟩
    · cases d with
      | fixed n => exact absurd rfl hd
      | strided slot => exact absurd rfl hd
      | var =>
        obtain ⟨rows, kids, rfl, hvs, h⟩ := h
        refine ⟨rows, kids, rfl, hvs, h.imp ?_⟩
        rintro row kid ⟨hlen, hfrozen, hrow⟩
        exact ⟨hlen, hfrozen.of_keeps hkeeps, ih (hkeeps.of_frozen hfrozen) hrow⟩

theorem Layout.HoldAll.of_keeps {s s' : Store} {layouts : List Layout} {blocks : List Block}
    {records : List (List Value)} (hkeeps : s.Keeps (Block.ownAll blocks) s')
    (h : HoldAll s layouts blocks records) : HoldAll s' layouts blocks records :=
  of_keeps_of (fun _ _ _ _ hk hold => hold.of_keeps hk) hkeeps h

/-! ## Steps -/

/-- What one step may do that writes to blocks with the given regions: change or freeze these, add
others, and find extents. -/
structure Store.Step (own : List Nat) (s s' : Store) : Prop where
  changes : Arena.Changes own s.arena s'.arena
  frozen : ∀ (i : Nat) (r : Region), s.arena.regions[i]? = some r → r.state = .frozen →
    s'.arena.regions[i]? = some r
  extents : ∀ d n, s.extent? d = some n → s'.extent? d = some n
  slots : s'.extents.size = s.extents.size

namespace Store.Step

variable {own own' : List Nat} {s s' s'' : Store}

theorem refl (own : List Nat) (s : Store) : Step own s s :=
  ⟨.refl own s.arena, fun _ _ hr _ => hr, fun _ _ hn => hn, rfl⟩

theorem trans (h : Step own s s') (h' : Step own s' s'') : Step own s s'' :=
  ⟨h.changes.trans h'.changes, fun i r hr hf => h'.frozen i r (h.frozen i r hr hf) hf,
    fun d n hn => h'.extents d n (h.extents d n hn), h'.slots.trans h.slots⟩

theorem mono (h : Step own s s') (hsub : ∀ i ∈ own, i ∈ own') : Step own' s s' :=
  ⟨h.changes.mono hsub, h.frozen, h.extents, h.slots⟩

/-- Regions that came later do not count as changed. -/
theorem of_fresh {fresh : List Nat} (h : Step own s s') (h' : Step fresh s' s'')
    (hfresh : ∀ i ∈ fresh, s.arena.size ≤ i) : Step own s s'' :=
  ⟨h.changes.of_fresh h'.changes hfresh, fun i r hr hf => h'.frozen i r (h.frozen i r hr hf) hf,
    fun d n hn => h'.extents d n (h.extents d n hn), h'.slots.trans h.slots⟩

/-- A step elsewhere keeps what a block needs. -/
theorem keeps (h : Step own s s') (hdisj : ∀ i ∈ own', i ∉ own) : Keeps own' s s' :=
  ⟨fun i hi r hr => ⟨r, h.changes.others hr (hdisj i hi), rfl⟩, h.frozen, h.extents⟩

theorem ready {l : Layout} {b : Block} {left : Option Nat} (h : Step own s s')
    (hdisj : ∀ i ∈ b.own, i ∉ own) (hready : l.Ready s.arena b left) : l.Ready s'.arena b left :=
  hready.of_own fun i hi _ hr => h.changes.others hr (hdisj i hi)

theorem readyAll {layouts : List Layout} {blocks : List Block} {left : Option Nat}
    (h : Step own s s') (hdisj : ∀ i ∈ Block.ownAll blocks, i ∉ own)
    (hready : Layout.ReadyAll s.arena layouts blocks left) :
    Layout.ReadyAll s'.arena layouts blocks left :=
  have hready : Layout.Ready s.arena ⟨[], .struct [] layouts⟩ (.struct blocks) left :=
    Layout.ready_struct.mpr hready
  Layout.ready_struct.mp (h.ready hdisj hready)

end Store.Step

end Ragged
