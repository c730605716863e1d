import Ragged.Proofs.Layout.Numbering
import Ragged.Proofs.Layout.Reading

/-!
# What a finished array is made of

A finished array has no loose ends. Its regions are all in use, each in one place, and none can be
written to any more. And the sizes of its blocks are exact: where the regular dimensions before a var
dimension or a leaf have extents that multiply to `n`, a block for `m` instances has

> just `m * n` rows, or a column of just `m * n` elements, or for each field a block for `m * n`
> instances.

That is `Layout.Filled`, and it follows from what the block holds, since the values it holds are that
many. A strided dimension that no instance reached counts as empty, and so nothing lies below it.
-/

set_option autoImplicit false

namespace Ragged

/-- The product of the extents of some dimensions. -/
def Contents.cells (c : Contents) : List LayoutDim → Nat
  | [] => 1
  | d :: dims => c.extent d * c.cells dims

/-- The block is for just so many instances of the layout: what comes below the regular dimensions is
there once for each of their elements. -/
inductive Layout.Filled (c : Contents) : Layout → Block → Nat → Prop where
  | var {regular dims : List LayoutDim} {leaf : LayoutLeaf} {rows : Array Row} {m : Nat}
      (hregular : ∀ d ∈ regular, d.isVar = false) (hsize : rows.size = m * c.cells regular)
      (hrows : ∀ row ∈ rows, Filled c ⟨dims, leaf⟩ row.block row.length) :
      Filled c ⟨regular ++ .var :: dims, leaf⟩ (.var rows) m
  | element {regular : List LayoutDim} {kind : ElementKind} {leaf : LeafType} {id : RegionId}
      {r : Region} {m : Nat} (hregular : ∀ d ∈ regular, d.isVar = false)
      (hregion : c.arena.regions[id.index]? = some r) (hkind : r.column.kind = kind)
      (hsize : r.column.size = m * c.cells regular) (hall : ∀ s ∈ r.column.toList, s.kind = kind) :
      Filled c ⟨regular, .element kind leaf⟩ (.leaf id) m
  | struct {regular : List LayoutDim} {type : List Field} {layouts : List Layout}
      {blocks : List Block} {m : Nat} (hregular : ∀ d ∈ regular, d.isVar = false)
      (hsize : blocks.length = layouts.length)
      (hall : ∀ (i : Nat) (l : Layout) (b : Block), layouts[i]? = some l → blocks[i]? = some b →
        Filled c l b (m * c.cells regular)) :
      Filled c ⟨regular, .struct type layouts⟩ (.struct blocks) m

/-- Everything in its place. -/
structure Layout.Finished (l : Layout) (c : Contents) : Prop where
  /-- The regions of the root block are all regions, each of them once. -/
  regions : c.root.regions.Perm (List.range c.arena.size)
  /-- No region can be written to any more. -/
  frozen : ∀ i < c.arena.size, ∃ r, c.arena.regions[i]? = some r ∧ r.state = .frozen
  /-- The root block is for the one instance. -/
  filled : l.Filled c c.root 1

namespace Layout

variable {c : Contents}

theorem cells_nil : c.cells [] = 1 := rfl

theorem cells_cons (d : LayoutDim) (dims : List LayoutDim) :
    c.cells (d :: dims) = c.extent d * c.cells dims := rfl

/-- A regular dimension has that many instances below it as its extent says. -/
theorem Filled.cons {d : LayoutDim} {dims : List LayoutDim} {leaf : LayoutLeaf} {b : Block}
    {m : Nat} (hd : d.isVar = false) (h : Filled c ⟨dims, leaf⟩ b (m * c.extent d)) :
    Filled c ⟨d :: dims, leaf⟩ b m := by
  have hcells : ∀ regular, m * c.extent d * c.cells regular = m * c.cells (d :: regular) := by
    intro regular
    rw [cells_cons, Nat.mul_assoc]
  cases h with
  | var hregular hsize hrows =>
    rw [hcells] at hsize
    rw [← List.cons_append]
    exact .var (List.forall_mem_cons.mpr ⟨hd, hregular⟩) hsize hrows
  | element hregular hregion hkind hsize hall =>
    rw [hcells] at hsize
    exact .element (List.forall_mem_cons.mpr ⟨hd, hregular⟩) hregion hkind hsize hall
  | struct hregular hsize hall =>
    rw [hcells] at hall
    exact .struct (List.forall_mem_cons.mpr ⟨hd, hregular⟩) hsize hall

/-- Lists of one length have that many elements together. -/
theorem length_flatten_of_forall {kids : List (List Value)} {n : Nat}
    (h : ∀ kid ∈ kids, kid.length = n) : kids.flatten.length = kids.length * n := by
  induction kids with
  | nil => rw [List.flatten_nil, List.length_nil, List.length_nil, Nat.zero_mul]
  | cons kid kids ih =>
    obtain ⟨hkid, hkids⟩ := List.forall_mem_cons.mp h
    rw [List.flatten_cons, List.length_append, hkid, ih hkids, List.length_cons, Nat.succ_mul,
      Nat.add_comm]

/-- The blocks of fields, each of which holds as many values as there are records. -/
theorem filled_of_holdAll {layouts : List Layout} (h : ∀ l ∈ layouts, ∀ {b : Block}
      {vs : List Value}, l.Holds c.store b vs → l.Filled c b vs.length) :
    ∀ {blocks : List Block} {records : List (List Value)},
      HoldAll c.store layouts blocks records → blocks.length = layouts.length ∧
        ∀ (i : Nat) (l : Layout) (b : Block), layouts[i]? = some l → blocks[i]? = some b →
          l.Filled c b records.length := by
  induction layouts with
  | nil =>
    intro blocks records hold
    cases blocks with
    | nil => exact ⟨rfl, fun i l b hl => absurd hl (by simp)⟩
    | cons b bs => exact hold.elim
  | cons l ls ih =>
    intro blocks records hold
    obtain ⟨hl, hls⟩ := List.forall_mem_cons.mp h
    cases blocks with
    | nil => exact hold.elim
    | cons b bs =>
      obtain ⟨hsize, hall⟩ := ih hls hold.2
      have hfirst := hl hold.1
      rw [List.length_map] at hfirst hall
      refine ⟨congrArg Nat.succ hsize, fun i l' b' hl' hb' => ?_⟩
      cases i with
      | zero =>
        obtain rfl := Option.some.inj hl'
        obtain rfl := Option.some.inj hb'
        exact hfirst
      | succ i => exact hall i l' b' hl' hb'

/-- **A block that holds some values is for just so many instances.** -/
theorem filled_of_holds (l : Layout) : ∀ {b : Block} {vs : List Value},
    l.Holds c.store b vs → l.Filled c b vs.length := by
  induction l using Layout.induction with
  | element kind leaf =>
    rintro b vs ⟨id, r, atoms, rfl, hr, hkind, hsound, hload, rfl⟩
    have hsize : r.column.size = atoms.length := by
      have hlen := congrArg List.length hload
      rw [List.length_map, List.length_map, Column.length_toList] at hlen
      exact hlen
    apply Filled.element (fun d hd => absurd hd List.not_mem_nil) hr hkind
    · rw [hsize, List.length_map, cells_nil, Nat.mul_one]
    · intro s hs
      rw [← hkind]
      exact Column.kind_of_mem hsound hs
  | struct type layouts ih =>
    rintro b vs ⟨blocks, records, rfl, rfl, -, hholds⟩
    obtain ⟨hsize, hall⟩ := filled_of_holdAll ih hholds
    apply Filled.struct (fun d hd => absurd hd List.not_mem_nil) hsize
    rw [List.length_map, cells_nil, Nat.mul_one]
    exact hall
  | dim d dims leaf ih =>
    intro b vs hholds
    cases hd : d.isVar with
    | false =>
      obtain ⟨kids, rfl, hextent, hholds⟩ := (holds_regular hd).mp hholds
      -- below, there is one instance for each element of each list
      have hfilled := ih hholds
      rw [length_flatten_of_forall fun kid hkid => (extent_of_known (hextent kid hkid)).symm]
        at hfilled
      rw [List.length_map]
      exact hfilled.cons hd
    | true =>
      obtain rfl := LayoutDim.eq_var_of_isVar hd
      obtain ⟨rows, kids, rfl, rfl, hrows⟩ := hholds
      have hsize : rows.size = (kids.map Value.list).length * c.cells [] := by
        rw [cells_nil, Nat.mul_one, List.length_map, ← hrows.length_eq, Array.length_toList]
      -- a row holds just the elements that its length counts
      have hfilled : List.Forall₂ (fun (row : Row) (_ : List Value) =>
          Filled c ⟨dims, leaf⟩ row.block row.length ∧ True) rows.toList kids := by
        apply hrows.imp
        rintro row kid ⟨hlen, -, hholds⟩
        rw [hlen]
        exact ⟨ih hholds, trivial⟩
      obtain ⟨hall, -⟩ := (List.forall₂_and_left _ _).mp hfilled
      exact @Filled.var c [] dims leaf rows _ (fun d hd => absurd hd List.not_mem_nil) hsize
        fun row hrow => hall row (Array.mem_toList_iff.mpr hrow)

theorem Frozen.append {a : Arena} {ids ids' : List Nat} (h : Frozen a ids) (h' : Frozen a ids') :
    Frozen a (ids ++ ids') := by
  intro i hi
  rcases List.mem_append.mp hi with hi | hi
  · exact h i hi
  · exact h' i hi

theorem frozen_regions_of_holdAll {layouts : List Layout} {s : Store}
    (h : ∀ l ∈ layouts, ∀ {b : Block} {vs : List Value}, l.Holds s b vs → Frozen s.arena b.own →
      Frozen s.arena b.regions) :
    ∀ {blocks : List Block} {records : List (List Value)}, HoldAll s layouts blocks records →
      Frozen s.arena (Block.ownAll blocks) → Frozen s.arena (Block.regionsAll blocks) := by
  induction layouts with
  | nil =>
    intro blocks records hold hown
    cases blocks with
    | nil => exact hown
    | cons b bs => exact hold.elim
  | cons l ls ih =>
    intro blocks records hold hown
    obtain ⟨hl, hls⟩ := List.forall_mem_cons.mp h
    cases blocks with
    | nil => exact hold.elim
    | cons b bs =>
      have hfirst := hl hold.1 fun i hi => hown i (List.mem_append_left _ hi)
      have hrest := ih hls hold.2 fun i hi => hown i (List.mem_append_right _ hi)
      exact hfirst.append hrest

/-- The regions of rows are those of their blocks. -/
theorem frozen_regions_of_rows {a : Arena} {rows : List Row}
    (h : ∀ row ∈ rows, Frozen a row.block.regions) : Frozen a (Row.regionsAll rows) := by
  induction rows with
  | nil => exact fun i hi => absurd hi List.not_mem_nil
  | cons row rows ih =>
    obtain ⟨length, block⟩ := row
    obtain ⟨hrow, hrows⟩ := List.forall_mem_cons.mp h
    exact hrow.append (ih hrows)

/-- If a block has finished its own regions, all its regions are finished, since rows have finished
theirs. -/
theorem frozen_regions_of_holds (l : Layout) {s : Store} : ∀ {b : Block} {vs : List Value},
    l.Holds s b vs → Frozen s.arena b.own → Frozen s.arena b.regions := by
  induction l using Layout.induction with
  | element kind leaf =>
    rintro b vs ⟨id, r, atoms, rfl, -⟩ hown
    exact hown
  | struct type layouts ih =>
    rintro b vs ⟨blocks, records, rfl, -, -, hholds⟩ hown
    exact frozen_regions_of_holdAll ih hholds hown
  | dim d dims leaf ih =>
    intro b vs hholds hown
    cases hd : d.isVar with
    | false =>
      obtain ⟨kids, -, -, hholds⟩ := (holds_regular hd).mp hholds
      exact ih hholds hown
    | true =>
      obtain rfl := LayoutDim.eq_var_of_isVar hd
      obtain ⟨⟨rows⟩, kids, rfl, -, hrows⟩ := hholds
      have hfrozen : List.Forall₂ (fun (row : Row) (_ : List Value) =>
          Frozen s.arena row.block.regions ∧ True) rows kids := by
        apply hrows.imp
        rintro row kid ⟨-, hown, hholds⟩
        exact ⟨ih hholds hown, trivial⟩
      exact frozen_regions_of_rows ((List.forall₂_and_left _ _).mp hfrozen).1

end Layout

/-- **A successful write leaves a finished array.** -/
theorem ArrayType.finished_of_write {t : ArrayType} {growth : GrowthPolicy} {v : Value}
    {c : Contents} (h : (t.write growth v).2 = .ok c) : t.layout.Finished c := by
  have hwritten := written_of_write h
  obtain ⟨w, -, hholds⟩ := hwritten.coerced
  have hregions := (regions_of_write h).2
  refine ⟨hregions, fun i hi => ?_, t.layout.filled_of_holds hholds⟩
  have hfrozen : Layout.Frozen c.arena c.root.regions :=
    t.layout.frozen_regions_of_holds hholds hwritten.frozen
  exact hfrozen i (hregions.mem_iff.mpr (List.mem_range.mpr hi))

/-- A strided dimension over records with a field of rows, and over it one that is empty here. -/
theorem ArrayType.finished_of_write_records :
    ∃ c : Contents,
      (write ⟨[.fixed 2, .strided], .struct [⟨"id", ⟨[], .scalar .int32⟩⟩,
          ⟨"rows", ⟨[.var, .strided], .string ⟨.ascii, some 2⟩⟩⟩]⟩ {}
        (.list [.list [.dict [("rows", .list [.list [], .list []]), ("id", .ofInt 1)]],
          .list [.tuple [.ofInt 2, .iter (.ofSupply 0 .nil)]]])).2 = .ok c ∧
      (layout ⟨[.fixed 2, .strided], .struct [⟨"id", ⟨[], .scalar .int32⟩⟩,
          ⟨"rows", ⟨[.var, .strided], .string ⟨.ascii, some 2⟩⟩⟩]⟩).Finished c := by
  have hsize : (write ⟨[.fixed 2, .strided], .struct [⟨"id", ⟨[], .scalar .int32⟩⟩,
        ⟨"rows", ⟨[.var, .strided], .string ⟨.ascii, some 2⟩⟩⟩]⟩ {}
      (.list [.list [.dict [("rows", .list [.list [], .list []]), ("id", .ofInt 1)]],
        .list [.tuple [.ofInt 2, .iter (.ofSupply 0 .nil)]]])).2.map (fun c => c.arena.size) =
      .ok 3 := by
    decide +kernel
  cases hwrite : (write ⟨[.fixed 2, .strided], .struct [⟨"id", ⟨[], .scalar .int32⟩⟩,
        ⟨"rows", ⟨[.var, .strided], .string ⟨.ascii, some 2⟩⟩⟩]⟩ {}
      (.list [.list [.dict [("rows", .list [.list [], .list []]), ("id", .ofInt 1)]],
        .list [.tuple [.ofInt 2, .iter (.ofSupply 0 .nil)]]])).2 with
  | error e => rw [hwrite] at hsize; exact absurd hsize (by simp [Except.map])
  | ok c => exact ⟨c, rfl, finished_of_write hwrite⟩

end Ragged
