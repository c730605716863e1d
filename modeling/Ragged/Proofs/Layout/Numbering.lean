import Mathlib.Data.List.Range
import Ragged.Proofs.Layout.Arrays

/-!
# Each region belongs to one block

A region is allocated for a block and stays with it, in the rows as well as in the block itself
(`Block.regions`). So the arena is partitioned among the blocks at any time, and

> the regions of the root block are all that there are, each of them once.

The proof needs nothing of what is written, only that every step adds to a block just the regions by
which the arena grows (`Store.Adds`), wherever it ends well. The extent table is carried along: its
length is that of the start.
-/

set_option autoImplicit false

namespace Ragged

mutual

/-- The regions of a block, with those of its rows. -/
def Block.regions : Block → List Nat
  | .leaf id => [id.index]
  | .struct fields => Block.regionsAll fields
  | .var ⟨rows⟩ => Row.regionsAll rows

def Block.regionsAll : List Block → List Nat
  | [] => []
  | b :: bs => b.regions ++ Block.regionsAll bs

def Row.regionsAll : List Row → List Nat
  | [] => []
  | ⟨_, b⟩ :: rows => b.regions ++ Row.regionsAll rows

end

theorem Row.regionsAll_append (rows more : List Row) :
    regionsAll (rows ++ more) = regionsAll rows ++ regionsAll more := by
  induction rows with
  | nil => rfl
  | cons r rows ih =>
    obtain ⟨length, b⟩ := r
    rw [List.cons_append, regionsAll, regionsAll, ih, List.append_assoc]

theorem Block.regions_push (rows : Array Row) (r : Row) :
    (Block.var (rows.push r)).regions = (Block.var rows).regions ++ r.block.regions := by
  obtain ⟨rows⟩ := rows
  obtain ⟨length, b⟩ := r
  show Row.regionsAll (Array.push ⟨rows⟩ ⟨length, b⟩).toList = Row.regionsAll rows ++ _
  rw [Array.toList_push, Row.regionsAll_append, Row.regionsAll, Row.regionsAll, List.append_nil]

/-- A step from one store to another, after which some regions are those of before and the new ones.
-/
structure Store.Adds (s : Store) (ids : List Nat) (s' : Store) (ids' : List Nat) : Prop where
  slots : s'.extents.size = s.extents.size
  regions : ∃ n, s'.arena.size = s.arena.size + n ∧
    ids'.Perm (ids ++ List.range' s.arena.size n)

namespace Store.Adds

variable {s s' s'' : Store} {ids ids' ids'' : List Nat}

theorem of_size (hslots : s'.extents.size = s.extents.size) (hsize : s'.arena.size = s.arena.size) :
    s.Adds ids s' ids := by
  refine ⟨hslots, 0, hsize, ?_⟩
  rw [List.range'_zero, List.append_nil]

theorem refl (s : Store) (ids : List Nat) : s.Adds ids s ids := of_size rfl rfl

theorem trans (h : s.Adds ids s' ids') (h' : s'.Adds ids' s'' ids'') : s.Adds ids s'' ids'' := by
  obtain ⟨n, hn, hids⟩ := h.regions
  obtain ⟨m, hm, hids'⟩ := h'.regions
  refine ⟨h'.slots.trans h.slots, n + m, by omega, ?_⟩
  apply hids'.trans
  apply (hids.append_right _).trans
  rw [List.append_assoc, hn, List.range'_append_1]

/-- Other regions stay as they are. -/
theorem before (h : s.Adds ids s' ids') (others : List Nat) :
    s.Adds (others ++ ids) s' (others ++ ids') := by
  obtain ⟨n, hn, hids⟩ := h.regions
  refine ⟨h.slots, n, hn, ?_⟩
  rw [List.append_assoc]
  exact hids.append_left others

theorem behind (h : s.Adds ids s' ids') (others : List Nat) :
    s.Adds (ids ++ others) s' (ids' ++ others) := by
  obtain ⟨n, hn, hids⟩ := h.regions
  refine ⟨h.slots, n, hn, ?_⟩
  apply (hids.append_right others).trans
  rw [List.append_assoc, List.append_assoc]
  exact List.Perm.append_left ids List.perm_append_comm

end Store.Adds

/-! ## The operations of the arena -/

namespace Arena

theorem size_modify (a : Arena) (id : RegionId) (f : Region → Region) :
    (a.modify id f).size = a.size := by
  simp [modify, size]

theorem size_append (a : Arena) (id : RegionId) (s : Scalar) : (a.append id s).1.size = a.size := by
  unfold append
  split
  · rfl
  · split
    · rfl
    · exact size_modify _ _ _

theorem size_freeze {a a' : Arena} {id : RegionId} (h : a.freeze id = .ok a') :
    a'.size = a.size := by
  unfold freeze at h
  split at h
  · exact absurd h (by simp)
  · split at h
    · exact absurd h (by simp)
    · split at h
      · exact absurd h (by simp)
      · rw [← Except.ok.inj h]
        exact size_modify _ _ _
    · rw [← Except.ok.inj h]
      exact size_modify _ _ _

end Arena

/-! ## Allocation and freezing -/

namespace Layout

theorem adds_allocate_of_leaf {l : Layout} (hleaf : ∀ (s : Store) (sizing : Sizing),
      s.Adds [] (l.leaf.allocate s sizing).1 (l.leaf.allocate s sizing).2.regions)
    (s : Store) (sizing : Sizing) :
    s.Adds [] (l.allocate s sizing).1 (l.allocate s sizing).2.regions := by
  obtain ⟨dims, leaf⟩ := l
  unfold allocate
  split
  · exact .refl s []
  · exact hleaf s _

theorem adds_allocateAll {layouts : List Layout} (h : ∀ l ∈ layouts, ∀ (s : Store) (sizing : Sizing),
      s.Adds [] (l.leaf.allocate s sizing).1 (l.leaf.allocate s sizing).2.regions) :
    ∀ (s : Store) (sizing : Sizing), s.Adds [] (allocateAll layouts s sizing).1
      (Block.regionsAll (allocateAll layouts s sizing).2) := by
  induction layouts with
  | nil => exact fun s _ => .refl s []
  | cons l ls ih =>
    intro s sizing
    obtain ⟨hl, hls⟩ := List.forall_mem_cons.mp h
    have hfirst := adds_allocate_of_leaf hl s sizing
    have hrest := (ih hls (l.allocate s sizing).1 sizing).before (l.allocate s sizing).2.regions
    rw [List.append_nil] at hrest
    exact hfirst.trans hrest

theorem adds_allocateLeaf (l : Layout) : ∀ (s : Store) (sizing : Sizing),
    s.Adds [] (l.leaf.allocate s sizing).1 (l.leaf.allocate s sizing).2.regions := by
  induction l using Layout.induction with
  | element kind leaf =>
    intro s sizing
    obtain ⟨arena, extents⟩ := s
    cases sizing with
    | exact n =>
      exact ⟨rfl, 1, by simp [LayoutLeaf.allocate, Arena.allocateFixed, Arena.size], .refl _⟩
    | growable n =>
      exact ⟨rfl, 1, by simp [LayoutLeaf.allocate, Arena.allocateGrowable, Arena.size], .refl _⟩
  | struct type layouts ih => exact adds_allocateAll ih
  | dim d dims leaf ih => exact ih

/-- The regions of a new block are the new ones. -/
theorem adds_allocate (l : Layout) (s : Store) (sizing : Sizing) :
    s.Adds [] (l.allocate s sizing).1 (l.allocate s sizing).2.regions :=
  adds_allocate_of_leaf (adds_allocateLeaf l) s sizing

end Layout

theorem Store.size_freezeAll {blocks : List Block} (h : ∀ b ∈ blocks, ∀ {s s' : Store},
      s.freeze b = .ok s' → s'.extents.size = s.extents.size ∧ s'.arena.size = s.arena.size) :
    ∀ {s s' : Store}, Store.freeze.freezeAll s blocks = .ok s' →
      s'.extents.size = s.extents.size ∧ s'.arena.size = s.arena.size := by
  induction blocks with
  | nil =>
    intro s s' hok
    obtain rfl := Except.ok.inj hok
    exact ⟨rfl, rfl⟩
  | cons b bs ih =>
    intro s s' hok
    obtain ⟨hb, hbs⟩ := List.forall_mem_cons.mp h
    rw [freeze.freezeAll] at hok
    obtain ⟨s₁, hfirst, hok⟩ := bind_eq_ok.mp hok
    obtain ⟨hslots, hsize⟩ := hb hfirst
    obtain ⟨hslots', hsize'⟩ := ih hbs hok
    exact ⟨hslots'.trans hslots, hsize'.trans hsize⟩

/-- Freezing adds no region. -/
theorem Store.size_freeze (b : Block) : ∀ {s s' : Store}, s.freeze b = .ok s' →
    s'.extents.size = s.extents.size ∧ s'.arena.size = s.arena.size := by
  induction b using Block.induction with
  | leaf id =>
    intro s s' h
    obtain ⟨arena, extents⟩ := s
    cases hfreeze : arena.freeze id with
    | error e => simp only [freeze, hfreeze] at h; exact absurd h (by simp)
    | ok arena' =>
      simp only [freeze, hfreeze] at h
      obtain rfl := Except.ok.inj h
      exact ⟨rfl, Arena.size_freeze hfreeze⟩
  | struct fields ih => exact Store.size_freezeAll ih
  | var rows =>
    intro s s' h
    rw [freeze] at h
    obtain rfl := Except.ok.inj h
    exact ⟨rfl, rfl⟩

/-- Settling an extent changes nothing else. -/
theorem Store.size_settle (s : Store) (slot length : Nat) :
    (s.settle slot length).1.extents.size = s.extents.size ∧
      (s.settle slot length).1.arena.size = s.arena.size := by
  unfold settle
  split
  · exact ⟨rfl, rfl⟩
  · exact ⟨Array.size_setIfInBounds, rfl⟩

/-! ## Writing -/

namespace Layout

/-- Only a block with rows is written to at a var dimension. -/
theorem block_of_writeFrom_var {dims : List LayoutDim} {leaf : LayoutLeaf} {depth : Nat} {v : Value}
    {s : Store} {b : Block} {r : Store × Block}
    (h : (writeFrom ⟨.var :: dims, leaf⟩ depth v s b).2 = .ok r) : ∃ rows, b = .var rows := by
  cases b with
  | var rows => exact ⟨rows, rfl⟩
  | _ => exact absurd h (by simp [writeFrom, writeDims])

/-- Only a block with fields takes a record. -/
theorem block_of_writeLeaf_struct {type : List Field} {layouts : List Layout} {v : Value}
    {s : Store} {b : Block} {r : Store × Block}
    (h : (writeLeaf (.struct type layouts) v s b).2 = .ok r) : ∃ blocks, b = .struct blocks := by
  cases b with
  | struct blocks => exact ⟨blocks, rfl⟩
  | _ => exact absurd h (by simp [writeLeaf])

theorem adds_writeElement {leaf : LeafType} {v : Value} {s s' : Store} {b b' : Block}
    (h : (writeElement leaf v s b).2 = .ok (s', b')) : s.Adds b.regions s' b'.regions := by
  obtain ⟨arena, extents⟩ := s
  unfold writeElement at h
  cases b with
  | leaf id =>
    cases v with
    | atom a =>
      cases hstore : leaf.store a with
      | error e => simp only [hstore] at h; exact absurd h (by simp)
      | ok stored =>
        have hsize := arena.size_append id stored
        cases happend : arena.append id stored with
        | mk arena' outcome =>
          cases outcome with
          | error e => simp only [hstore, happend] at h; exact absurd h (by simp)
          | ok u =>
            simp only [hstore, happend] at h
            rw [happend] at hsize
            obtain ⟨rfl, rfl⟩ := Prod.mk.inj (Except.ok.inj h)
            exact .of_size rfl hsize
    | _ => exact absurd h (by simp)
  | _ => exact absurd h (by simp)

/-- Writing with this adds to a block what it allocates. -/
def WritesAdding (writeOne : WriteOne) : Prop :=
  ∀ (v : Value) (s s' : Store) (b b' : Block), (writeOne v s b).2 = .ok (s', b') →
    s.Adds b.regions s' b'.regions

theorem WritesAdding.writeAll {writeOne : WriteOne} (hone : WritesAdding writeOne)
    {xs : List Value} : ∀ {s s' : Store} {b b' : Block},
      Layout.writeAll writeOne xs s b = .ok (s', b') → s.Adds b.regions s' b'.regions := by
  induction xs with
  | nil =>
    intro s s' b b' h
    obtain ⟨rfl, rfl⟩ := Prod.mk.inj (Except.ok.inj h)
    exact .refl s _
  | cons x xs ih =>
    intro s s' b b' h
    unfold Layout.writeAll at h
    cases hx : (writeOne x s b).2 with
    | error e => rw [hx] at h; exact absurd h (by simp)
    | ok r =>
      rw [hx] at h
      exact (hone x s _ b _ hx).trans (ih h)

/-- The regions of a row come in with it. -/
theorem WritesAdding.row {writeOne : WriteOne} (hone : WritesAdding writeOne) {inner : Layout}
    {capacity : Nat} {xs : List Value} {s s' : Store} {rows : Array Row} {b' : Block}
    (h : writeAllAsRow writeOne inner capacity xs s rows = .ok (s', b')) :
    s.Adds (Block.var rows).regions s' b'.regions := by
  have halloc := inner.adds_allocate s (.growable capacity)
  simp only [writeAllAsRow] at h
  cases hw : Layout.writeAll writeOne xs (inner.allocate s (.growable capacity)).1
      (inner.allocate s (.growable capacity)).2 with
  | error e => simp only [hw] at h; exact absurd h (by simp)
  | ok r =>
    obtain ⟨s₁, row⟩ := r
    simp only [hw] at h
    cases hfreeze : s₁.freeze row with
    | error e => simp only [hfreeze] at h; exact absurd h (by simp)
    | ok s₂ =>
      simp only [hfreeze] at h
      obtain ⟨rfl, rfl⟩ := Prod.mk.inj (Except.ok.inj h)
      obtain ⟨hslots, hsize⟩ := Store.size_freeze row hfreeze
      -- the regions of the new row stand behind those of the rows before it
      have hadds := ((halloc.trans (hone.writeAll hw)).trans (.of_size hslots hsize)).before
        (Block.var rows).regions
      rw [List.append_nil] at hadds
      rw [Block.regions_push]
      exact hadds

/-- Each field's block gets its own regions. -/
theorem adds_writeFields {layouts : List Layout}
    (h : ∀ l ∈ layouts, ∀ depth, WritesAdding (l.writeFrom depth)) :
    ∀ {values : List Value} {blocks blocks' : List Block} {s s' : Store},
      (writeFields layouts values blocks s).2 = .ok (s', blocks') →
      s.Adds (Block.regionsAll blocks) s' (Block.regionsAll blocks') := by
  induction layouts with
  | nil =>
    intro values blocks blocks' s s' hok
    rw [writeFields.eq_def] at hok
    obtain ⟨rfl, rfl⟩ := Prod.mk.inj (Except.ok.inj hok)
    exact .refl s _
  | cons l ls ih =>
    intro values blocks blocks' s s' hok
    obtain ⟨hl, hls⟩ := List.forall_mem_cons.mp h
    cases values with
    | nil =>
      obtain ⟨rfl, rfl⟩ := Prod.mk.inj (Except.ok.inj hok)
      exact .refl s _
    | cons v vs =>
      cases blocks with
      | nil =>
        obtain ⟨rfl, rfl⟩ := Prod.mk.inj (Except.ok.inj hok)
        exact .refl s _
      | cons b bs =>
        rw [writeFields_cons] at hok
        obtain ⟨⟨s₁, b₁⟩, hv, hok⟩ := bind_eq_ok.mp hok
        obtain ⟨⟨s₂, bs₂⟩, hvs, hok⟩ := map_eq_ok.mp hok
        obtain ⟨rfl, rfl⟩ := Prod.mk.inj hok
        -- each block in turn gets what is new, among those of the others
        exact ((hl 0 v s s₁ b b₁ hv).behind _).trans ((ih hls hvs).before _)

/-- **Where writing ends well, the block has got the new regions.** -/
theorem adds_writeFrom (l : Layout) : ∀ depth, WritesAdding (l.writeFrom depth) := by
  induction l using Layout.induction with
  | element kind leaf => exact fun _ _ _ _ _ _ h => adds_writeElement h
  | struct type layouts ih =>
    intro depth v s s' b b' h
    obtain ⟨blocks, rfl⟩ := block_of_writeLeaf_struct h
    obtain ⟨values, blocks', -, hw, rfl⟩ := writeLeaf_struct_eq_ok h
    exact adds_writeFields ih hw
  | dim d dims leaf ih =>
    intro depth v s s' b b' h
    cases d with
    | fixed n =>
      obtain ⟨xs, hxs, hlen⟩ := items_of_writeFrom_fixed h
      rw [writeFrom_fixed hxs hlen] at h
      exact (ih (depth + 1)).writeAll h
    | strided slot =>
      obtain ⟨hv, xs, hxs, hsettled⟩ := items_of_writeFrom_strided h
      rw [writeFrom_strided hv hxs hsettled] at h
      obtain ⟨hslots, hsize⟩ := s.size_settle slot xs.length
      exact (Store.Adds.of_size hslots hsize).trans ((ih (depth + 1)).writeAll h)
    | var =>
      obtain ⟨rows, rfl⟩ := block_of_writeFrom_var h
      obtain ⟨xs, hxs⟩ := items_of_writeFrom_var h
      rw [writeFrom_var hxs] at h
      exact (ih (depth + 1)).row h

end Layout

/-- **The regions of a finished array are those of its root block**, each of them once, and the table
of extents is as long as at the start. -/
theorem ArrayType.regions_of_write {t : ArrayType} {growth : GrowthPolicy} {v : Value}
    {c : Contents} (h : (t.write growth v).2 = .ok c) :
    c.extents.size = t.slots ∧ c.root.regions.Perm (List.range c.arena.size) := by
  have halloc := t.layout.adds_allocate ⟨{ policy := growth }, Array.replicate t.slots none⟩
    (.exact 1)
  rw [t.write_eq_start growth v] at h
  cases hw : (t.layout.writeFrom 0 v (t.start growth).1 (t.start growth).2).2 with
  | error e => simp only [hw] at h; exact absurd h (by simp)
  | ok r =>
    obtain ⟨s₁, root⟩ := r
    simp only [hw] at h
    cases hfreeze : s₁.freeze root with
    | error e => simp only [hfreeze] at h; exact absurd h (by simp)
    | ok s₂ =>
      simp only [hfreeze] at h
      obtain rfl := Except.ok.inj h
      obtain ⟨hslots, hsize⟩ := Store.size_freeze root hfreeze
      have hwritten := halloc.trans (t.layout.adds_writeFrom 0 v _ _ _ _ hw)
      have hadds := hwritten.trans (.of_size hslots hsize)
      obtain ⟨n, hn, hregions⟩ := hadds.regions
      refine ⟨hadds.slots.trans Array.size_replicate, ?_⟩
      have hn : s₂.arena.size = n := hn.trans (Nat.zero_add n)
      show root.regions.Perm (List.range s₂.arena.size)
      rw [hn, List.range_eq_range']
      exact hregions

end Ragged
