import Ragged.Proofs.Layout.Numbering

/-!
# The extent table is used within its bounds

A layout names slots, and writing looks them up in a table that may be of any length; what the table
does not have counts as unknown and is not set. That never comes into play. To say so, let more
entries stand behind those of the table, with whatever in them (`Store.extend`):

> if the table has the slots of the layout, what stands behind it is neither looked at nor changed.

The lemmas go through the write pass function by function, since the whole result has to be the same,
with the value that is handed back and with errors. An entry behind the table would change it if it
were used.
-/

set_option autoImplicit false

namespace Ragged

namespace Store

/-- The store with more entries behind those of the extent table. -/
def extend (more : Array (Option Nat)) (s : Store) : Store := ⟨s.arena, s.extents ++ more⟩

/-- An outcome with more entries behind the table of its store. -/
def extendIn {β : Type} (more : Array (Option Nat)) (out : Except BuildError (Store × β)) :
    Except BuildError (Store × β) :=
  out.map fun r => (r.1.extend more, r.2)

variable {more : Array (Option Nat)}

theorem getD_append {extents : Array (Option Nat)} {slot : Nat} (h : slot < extents.size) :
    (extents ++ more).getD slot none = extents.getD slot none := by
  rw [Array.getD_eq_getD_getElem?, Array.getD_eq_getD_getElem?, Array.getElem?_append_left h]

theorem extent?_extend {s : Store} {d : LayoutDim}
    (h : ∀ slot, d.slot? = some slot → slot < s.extents.size) :
    (s.extend more).extent? d = s.extent? d := by
  cases d with
  | fixed n => rfl
  | var => rfl
  | strided slot => exact getD_append (h slot rfl)

theorem segment?_extend {s : Store} {dims : List LayoutDim}
    (h : ∀ slot ∈ dims.filterMap LayoutDim.slot?, slot < s.extents.size) :
    (s.extend more).segment? dims = s.segment? dims := by
  have hfold : ∀ n, dims.foldlM (fun n d => do
        let m := n * (← (s.extend more).extent? d)
        if m < sizeLimit then some m else none) n =
      dims.foldlM (fun n d => do
        let m := n * (← s.extent? d)
        if m < sizeLimit then some m else none) n := by
    induction dims with
    | nil => exact fun _ => rfl
    | cons d dims ih =>
      intro n
      have hd : (s.extend more).extent? d = s.extent? d :=
        extent?_extend fun slot hslot => h slot (by simp [hslot])
      have hrest : ∀ slot ∈ dims.filterMap LayoutDim.slot?, slot < s.extents.size := by
        intro slot hslot
        apply h slot
        rw [List.filterMap_cons]
        cases d.slot? with
        | none => exact hslot
        | some other => exact List.mem_cons_of_mem other hslot
      rw [List.foldlM_cons, List.foldlM_cons, hd]
      exact congrArg _ (funext (ih hrest))
  exact hfold 1

theorem settle_extend {s : Store} {slot : Nat} (n : Nat) (h : slot < s.extents.size) :
    (s.extend more).settle slot n = ((s.settle slot n).1.extend more, (s.settle slot n).2) := by
  have hget : (s.extend more).extents.getD slot none = s.extents.getD slot none := getD_append h
  unfold settle
  rw [hget]
  cases s.extents.getD slot none with
  | some m => rfl
  | none =>
    show (Store.mk s.arena ((s.extents ++ more).setIfInBounds slot (some n)), n) = _
    rw [Array.setIfInBounds_append_left h]
    rfl

theorem freezeAll_extend {blocks : List Block}
    (h : ∀ b ∈ blocks, ∀ s : Store, (s.extend more).freeze b = (s.freeze b).map (extend more)) :
    ∀ s : Store, freeze.freezeAll (s.extend more) blocks =
      (freeze.freezeAll s blocks).map (extend more) := by
  induction blocks with
  | nil => exact fun s => rfl
  | cons b bs ih =>
    intro s
    obtain ⟨hb, hbs⟩ := List.forall_mem_cons.mp h
    rw [freeze.freezeAll, freeze.freezeAll, hb]
    cases s.freeze b with
    | error e => rfl
    | ok s₁ => exact ih hbs s₁

theorem freeze_extend (b : Block) : ∀ s : Store,
    (s.extend more).freeze b = (s.freeze b).map (extend more) := by
  induction b using Block.induction with
  | leaf id =>
    intro s
    obtain ⟨arena, extents⟩ := s
    simp only [extend, freeze]
    cases arena.freeze id <;> rfl
  | struct fields ih => exact freezeAll_extend ih
  | var rows =>
    intro s
    rw [freeze, freeze]
    rfl

end Store

namespace Layout

variable {more : Array (Option Nat)}

/-- The table of the store has the slots of the layout. -/
def InTable (l : Layout) (s : Store) : Prop := ∀ slot ∈ l.slotNumbers, slot < s.extents.size

theorem InTable.of_size {l : Layout} {s s' : Store} (h : l.InTable s)
    (hsize : s'.extents.size = s.extents.size) : l.InTable s' := by
  intro slot hslot
  rw [hsize]
  exact h slot hslot

theorem InTable.leaf {l : Layout} {s : Store} (h : l.InTable s) : InTable ⟨[], l.leaf⟩ s := by
  obtain ⟨dims, leaf⟩ := l
  exact fun slot hslot => h slot (List.mem_append_right _ hslot)

theorem InTable.inner {d : LayoutDim} {dims : List LayoutDim} {leaf : LayoutLeaf} {s : Store}
    (h : InTable ⟨d :: dims, leaf⟩ s) : InTable ⟨dims, leaf⟩ s := by
  intro slot hslot
  apply h slot
  rw [slotNumbers_cons]
  exact List.mem_append_right _ hslot

theorem InTable.head {type : List Field} {l : Layout} {ls : List Layout} {s : Store}
    (h : InTable ⟨[], .struct type (l :: ls)⟩ s) : l.InTable s := by
  intro slot hslot
  apply h slot
  show slot ∈ l.slotNumbers ++ slotNumbersAll ls
  exact List.mem_append_left _ hslot

theorem InTable.tail {type : List Field} {l : Layout} {ls : List Layout} {s : Store}
    (h : InTable ⟨[], .struct type (l :: ls)⟩ s) : InTable ⟨[], .struct type ls⟩ s := by
  intro slot hslot
  apply h slot
  show slot ∈ l.slotNumbers ++ slotNumbersAll ls
  exact List.mem_append_right _ hslot

/-! ## Allocation -/

theorem allocate_extend_of_leaf {l : Layout} {s : Store} (hs : l.InTable s)
    (hleaf : ∀ sizing : Sizing, l.leaf.allocate (s.extend more) sizing =
      ((l.leaf.allocate s sizing).1.extend more, (l.leaf.allocate s sizing).2)) (sizing : Sizing) :
    l.allocate (s.extend more) sizing =
      ((l.allocate s sizing).1.extend more, (l.allocate s sizing).2) := by
  obtain ⟨dims, leaf⟩ := l
  have hsegment : (s.extend more).segment? dims = s.segment? dims :=
    Store.segment?_extend fun slot hslot => hs slot (List.mem_append_left _ hslot)
  simp only [allocate, hsegment]
  split
  · rfl
  · exact hleaf _

theorem allocateAll_extend {type : List Field} {layouts : List Layout}
    (h : ∀ l ∈ layouts, ∀ {s : Store}, InTable ⟨[], l.leaf⟩ s → ∀ sizing : Sizing,
      l.leaf.allocate (s.extend more) sizing =
        ((l.leaf.allocate s sizing).1.extend more, (l.leaf.allocate s sizing).2)) :
    ∀ {s : Store}, InTable ⟨[], .struct type layouts⟩ s → ∀ sizing : Sizing,
      allocateAll layouts (s.extend more) sizing =
        ((allocateAll layouts s sizing).1.extend more, (allocateAll layouts s sizing).2) := by
  induction layouts with
  | nil => exact fun _ _ => rfl
  | cons l ls ih =>
    intro s hs sizing
    obtain ⟨hl, hls⟩ := List.forall_mem_cons.mp h
    have hfirst := allocate_extend_of_leaf hs.head (hl hs.head.leaf) sizing
    have hslots := (l.adds_allocate s sizing).slots
    have hrest := ih hls (hs.tail.of_size hslots) sizing
    simp only [allocateAll, hfirst, hrest]

theorem allocateLeaf_extend (l : Layout) : ∀ {s : Store}, InTable ⟨[], l.leaf⟩ s →
    ∀ sizing : Sizing, l.leaf.allocate (s.extend more) sizing =
      ((l.leaf.allocate s sizing).1.extend more, (l.leaf.allocate s sizing).2) := by
  induction l using Layout.induction with
  | element kind leaf =>
    intro s _ sizing
    obtain ⟨arena, extents⟩ := s
    cases sizing <;> rfl
  | struct type layouts ih =>
    intro s hs sizing
    show ((allocateAll layouts (s.extend more) sizing).1,
      Block.struct (allocateAll layouts (s.extend more) sizing).2) = _
    rw [allocateAll_extend ih hs]
    rfl
  | dim d dims leaf ih => exact ih

theorem allocate_extend {l : Layout} {s : Store} (hs : l.InTable s) (sizing : Sizing) :
    l.allocate (s.extend more) sizing =
      ((l.allocate s sizing).1.extend more, (l.allocate s sizing).2) :=
  allocate_extend_of_leaf hs (allocateLeaf_extend l hs.leaf) sizing

/-! ## Passes over elements -/

/-- With this, writing into a store in which the layout's slots are in the table does not depend on
what stands behind the table. -/
def Within (more : Array (Option Nat)) (l : Layout) (writeOne : WriteOne) : Prop :=
  ∀ (v : Value) (s : Store) (b : Block), l.InTable s →
    writeOne v (s.extend more) b = ((writeOne v s b).1, Store.extendIn more (writeOne v s b).2)

section Passes

variable {l : Layout} {writeOne : WriteOne}

theorem Within.writeItems (hone : Within more l writeOne) (hadds : WritesAdding writeOne)
    (depth : Nat) (limit : Option Nat) (xs : Supply Value) :
    ∀ (count : Nat) (done : List Value) (s : Store) (b : Block), l.InTable s →
      Layout.writeItems writeOne depth limit count done xs (s.extend more) b =
        { Layout.writeItems writeOne depth limit count done xs s b with
          outcome := Store.extendIn more
            (Layout.writeItems writeOne depth limit count done xs s b).outcome } := by
  induction xs with
  | nil =>
    intro count done s b _
    cases limit with
    | none => rfl
    | some n =>
      by_cases hlt : count < n
      · simp only [Layout.writeItems, if_pos hlt]
        rfl
      · simp only [Layout.writeItems, if_neg hlt]
        rfl
  | cons x rest ih =>
    intro count done s b hs
    by_cases hlast : limit = some count
    · simp only [Layout.writeItems, if_pos hlast]
      rfl
    · have hx := hone x s b hs
      simp only [Layout.writeItems, if_neg hlast, hx]
      cases hw : writeOne x s b with
      | mk w outcome =>
        cases outcome with
        | error e => rfl
        | ok r =>
          obtain ⟨s₁, b₁⟩ := r
          -- the table is as long for the next element
          have hslots := (hadds x s s₁ b b₁ (by rw [hw])).slots
          exact ih ⟨⟩ (count + 1) (w :: done) s₁ b₁ (hs.of_size hslots)

theorem Within.writeRegular (hone : Within more l writeOne) (hadds : WritesAdding writeOne)
    (depth n : Nat) (children : Children) (v : Value) {s : Store} (b : Block) (hs : l.InTable s) :
    Layout.writeRegular writeOne depth n children v (s.extend more) b =
      ((Layout.writeRegular writeOne depth n children v s b).1,
        Store.extendIn more (Layout.writeRegular writeOne depth n children v s b).2) := by
  have hitems := hone.writeItems hadds depth (some n) children.elements 0 [] s b hs
  simp only [Layout.writeRegular]
  split
  · rfl
  · split
    · rfl
    · rw [hitems]

theorem Within.writeRow (hone : Within more l writeOne) (hadds : WritesAdding writeOne)
    (depth : Nat) (children : Children) (v : Value) {s : Store} (rows : Array Row)
    (hs : l.InTable s) :
    Layout.writeRow writeOne l depth children v (s.extend more) rows =
      ((Layout.writeRow writeOne l depth children v s rows).1,
        Store.extendIn more (Layout.writeRow writeOne l depth children v s rows).2) := by
  let sizing : Sizing := .growable (children.lengthHint?.getD 0)
  have halloc : l.allocate (s.extend more) sizing =
      ((l.allocate s sizing).1.extend more, (l.allocate s sizing).2) := allocate_extend hs sizing
  have hslots := (l.adds_allocate s sizing).slots
  have hitems := hone.writeItems hadds depth none children.elements 0 []
    (l.allocate s sizing).1 (l.allocate s sizing).2 (hs.of_size hslots)
  simp only [Layout.writeRow]
  rw [halloc]
  simp only
  rw [hitems]
  generalize Layout.writeItems writeOne depth none 0 [] children.elements
    (l.allocate s sizing).1 (l.allocate s sizing).2 = pass
  obtain ⟨done, rest, atEnd, outcome⟩ := pass
  cases outcome with
  | error e => rfl
  | ok r =>
    obtain ⟨s₁, row⟩ := r
    simp only [Store.extendIn, Except.map, Store.freeze_extend]
    cases s₁.freeze row <;> rfl

end Passes

/-! ## Writing -/

theorem within_writeElement (leaf : LeafType) (l : Layout) :
    Within more l (writeElement leaf) := by
  intro v s b _
  obtain ⟨arena, extents⟩ := s
  unfold writeElement
  cases b with
  | leaf id =>
    cases v with
    | atom a =>
      cases hstore : leaf.store a with
      | error e => simp only [hstore]; rfl
      | ok stored =>
        simp only [hstore, Store.extend]
        cases happend : arena.append id stored with
        | mk arena' outcome => cases outcome <;> rfl
    | _ => rfl
  | _ => rfl

/-- The slots of a field are among those of the record. -/
theorem within_writeFields {type : List Field} {layouts : List Layout}
    (h : ∀ l ∈ layouts, ∀ depth, Within more l (l.writeFrom depth)) :
    ∀ (values : List Value) (blocks : List Block) {s : Store},
      InTable ⟨[], .struct type layouts⟩ s →
      writeFields layouts values blocks (s.extend more) =
        ((writeFields layouts values blocks s).1,
          Store.extendIn more (writeFields layouts values blocks s).2) := by
  induction layouts with
  | nil => intro values blocks s _; rw [writeFields.eq_def, writeFields.eq_def]; rfl
  | cons l ls ih =>
    intro values blocks s hs
    obtain ⟨hl, hls⟩ := List.forall_mem_cons.mp h
    cases values with
    | nil => rfl
    | cons v vs =>
      cases blocks with
      | nil => rfl
      | cons b bs =>
        have hv := hl 0 v s b hs.head
        rw [← write_eq_writeFrom] at hv
        rw [writeFields, writeFields, hv]
        cases hw : l.write v s b with
        | mk w outcome =>
          cases outcome with
          | error e => rfl
          | ok r =>
            obtain ⟨s₁, b₁⟩ := r
            have hslots := (l.adds_writeFrom 0 v s s₁ b b₁
              (by rw [← write_eq_writeFrom, hw])).slots
            have hrest := ih hls vs bs (hs.tail.of_size hslots)
            simp only [Store.extendIn, Except.map, hrest]
            cases (writeFields ls vs bs s₁).2 <;> rfl

/-- **Writing stays within the table.** The induction is on the layout; at each dimension and field
the slots in question are among those of the whole. -/
theorem within_writeFrom (l : Layout) : ∀ depth, Within more l (l.writeFrom depth) := by
  induction l using Layout.induction with
  | element kind leaf => exact fun _ => within_writeElement leaf _
  | struct type layouts ih =>
    intro depth v s b hs
    show writeLeaf (.struct type layouts) v (s.extend more) b = _
    cases b with
    | struct blocks =>
      simp only [writeFrom, writeDims, writeLeaf]
      cases v.recordFields type with
      | mk w outcome =>
        cases outcome with
        | error e => rfl
        | ok values =>
          simp only [within_writeFields ih values blocks hs]
          cases (writeFields layouts values blocks s).2 <;> rfl
    | _ => rfl
  | dim d dims leaf ih =>
    intro depth v s b hs
    have hadds := adds_writeFrom ⟨dims, leaf⟩ (depth + 1)
    cases d with
    | fixed n =>
      simp only [writeFrom, writeDims]
      cases v.childrenAt depth with
      | error e => rfl
      | ok children => exact (ih (depth + 1)).writeRegular hadds depth n children v b hs.inner
    | strided slot =>
      have hslot : slot < s.extents.size :=
        hs slot (by rw [slotNumbers_cons]; simp [LayoutDim.slot?])
      simp only [writeFrom, writeDims]
      cases v.childrenAt depth with
      | error e => rfl
      | ok children =>
        simp only
        split
        · rfl
        · -- the extent that counts from here on is in the table too
          rw [Store.settle_extend _ hslot]
          have hsize := (s.size_settle slot (children.lengthHint?.getD 0)).1
          exact (ih (depth + 1)).writeRegular hadds depth _ children v b (hs.inner.of_size hsize)
    | var =>
      cases b with
      | var rows =>
        simp only [writeFrom, writeDims]
        cases v.childrenAt depth with
        | error e => rfl
        | ok children => exact (ih (depth + 1)).writeRow hadds depth children v rows hs.inner
      | _ => rfl

end Layout

end Ragged
