import Ragged.Proofs.Layout.Blocks
import Ragged.Proofs.Layout.Passes
import Ragged.Proofs.Storage.Growth

/-!
# Growth does not show in what is written

The write pass asks the policy once, for the capacity that a growable region starts with; what the
arena does with capacities it never gets to know. So two passes over the same value, into stores that
differ in growth alone, stay side by side from the first element to the last:

> they hand back the same value, and they end with the same error or with the same block and stores
> that again differ in growth alone.

That is `Layout.Blind`. It is shown function by function, as for the table of extents, but of two
runs, since neither is a picture of the other.
-/

set_option autoImplicit false

namespace Ragged

/-- The stores differ at most in how their regions grow. -/
structure Store.Resembles (s s' : Store) : Prop where
  arena : s.arena.Resembles s'.arena
  extents : s.extents = s'.extents

/-- Stores that resemble each other, and with both the same. -/
def Store.ResembleWith {β : Type} (r r' : Store × β) : Prop := r.1.Resembles r'.1 ∧ r.2 = r'.2

/-- The passes asked for the same elements and end in the same way. -/
structure Pass.Resembles (p p' : Pass) : Prop where
  done : p.done = p'.done
  rest : p.rest = p'.rest
  atEnd : p.atEnd = p'.atEnd
  outcome : Alike Store.ResembleWith p.outcome p'.outcome

namespace Store

variable {s s' : Store}

theorem Resembles.segment? (h : s.Resembles s') (dims : List LayoutDim) :
    s.segment? dims = s'.segment? dims := by
  have hextent : s.extent? = s'.extent? := by
    funext d
    cases d with
    | fixed n => rfl
    | var => rfl
    | strided slot => exact congrArg (·.getD slot none) h.extents
  unfold Store.segment?
  rw [hextent]

theorem Resembles.settle (h : s.Resembles s') (slot n : Nat) :
    ResembleWith (s.settle slot n) (s'.settle slot n) := by
  unfold Store.settle
  rw [← h.extents]
  cases s.extents.getD slot none with
  | some m => exact ⟨h, rfl⟩
  | none => exact ⟨⟨h.arena, rfl⟩, rfl⟩

theorem freezeAll_resembles {blocks : List Block}
    (h : ∀ b ∈ blocks, ∀ {s s' : Store}, s.Resembles s' →
      Alike Resembles (s.freeze b) (s'.freeze b)) :
    ∀ {s s' : Store}, s.Resembles s' →
      Alike Resembles (freeze.freezeAll s blocks) (freeze.freezeAll s' blocks) := by
  induction blocks with
  | nil => exact fun hs => hs
  | cons b bs ih =>
    intro s s' hs
    obtain ⟨hb, hbs⟩ := List.forall_mem_cons.mp h
    exact (hb hs).bind fun _ _ hs => ih hbs hs

theorem Resembles.freeze (b : Block) : ∀ {s s' : Store}, s.Resembles s' →
    Alike Resembles (s.freeze b) (s'.freeze b) := by
  induction b using Block.induction with
  | leaf id =>
    intro s s' h
    obtain ⟨arena, extents⟩ := s
    obtain ⟨arena', extents'⟩ := s'
    have hfreeze := h.arena.freeze id
    simp only [Store.freeze]
    rcases hfreeze.cases with ⟨e, he, he'⟩ | ⟨a, a', ha, ha', hresembles⟩
    · rw [he, he']
      exact rfl
    · rw [ha, ha']
      exact ⟨hresembles, h.extents⟩
  | struct fields ih => exact freezeAll_resembles ih
  | var rows =>
    intro s s' h
    rw [Store.freeze, Store.freeze]
    exact h

end Store

namespace Layout

/-! ## Allocation -/

theorem resemble_allocate_of_leaf {l : Layout} {s s' : Store} (h : s.Resembles s')
    (hleaf : ∀ sizing : Sizing,
      Store.ResembleWith (l.leaf.allocate s sizing) (l.leaf.allocate s' sizing)) (sizing : Sizing) :
    Store.ResembleWith (l.allocate s sizing) (l.allocate s' sizing) := by
  obtain ⟨dims, leaf⟩ := l
  simp only [allocate, h.segment? dims]
  split
  · exact ⟨h, rfl⟩
  · exact hleaf _

theorem resemble_allocateAll {layouts : List Layout}
    (h : ∀ l ∈ layouts, ∀ {s s' : Store}, s.Resembles s' → ∀ sizing : Sizing,
      Store.ResembleWith (l.leaf.allocate s sizing) (l.leaf.allocate s' sizing)) :
    ∀ {s s' : Store}, s.Resembles s' → ∀ sizing : Sizing,
      Store.ResembleWith (allocateAll layouts s sizing) (allocateAll layouts s' sizing) := by
  induction layouts with
  | nil => exact fun hs _ => ⟨hs, rfl⟩
  | cons l ls ih =>
    intro s s' hs sizing
    obtain ⟨hl, hls⟩ := List.forall_mem_cons.mp h
    obtain ⟨hs₁, hb⟩ := resemble_allocate_of_leaf hs (hl hs) sizing
    obtain ⟨hs₂, hbs⟩ := ih hls hs₁ sizing
    exact ⟨hs₂, by simp only [allocateAll, hb, hbs]⟩

theorem resemble_allocateLeaf (l : Layout) : ∀ {s s' : Store}, s.Resembles s' →
    ∀ sizing : Sizing,
      Store.ResembleWith (l.leaf.allocate s sizing) (l.leaf.allocate s' sizing) := by
  induction l using Layout.induction with
  | element kind leaf =>
    intro s s' h sizing
    cases sizing with
    | exact n =>
      obtain ⟨harena, hid⟩ := h.arena.allocateFixed kind n
      exact ⟨⟨harena, h.extents⟩, congrArg Block.leaf hid⟩
    | growable n =>
      -- here the policy is asked
      obtain ⟨harena, hid⟩ := h.arena.allocateGrowable kind
        (max n s.arena.policy.initialCapacity) (max n s'.arena.policy.initialCapacity)
      exact ⟨⟨harena, h.extents⟩, congrArg Block.leaf hid⟩
  | struct type layouts ih =>
    intro s s' h sizing
    obtain ⟨hs, hblocks⟩ := resemble_allocateAll ih h sizing
    exact ⟨hs, congrArg Block.struct hblocks⟩
  | dim d dims leaf ih => exact ih

theorem resemble_allocate (l : Layout) {s s' : Store} (h : s.Resembles s') (sizing : Sizing) :
    Store.ResembleWith (l.allocate s sizing) (l.allocate s' sizing) :=
  resemble_allocate_of_leaf h (l.resemble_allocateLeaf h) sizing

/-! ## Passes over elements -/

/-- Writing into stores that differ in growth alone is the same, and leaves them so. -/
def Blind (writeOne : WriteOne) : Prop :=
  ∀ (v : Value) {s s' : Store} (b : Block), s.Resembles s' →
    (writeOne v s b).1 = (writeOne v s' b).1 ∧
      Alike Store.ResembleWith (writeOne v s b).2 (writeOne v s' b).2

section Passes

variable {writeOne : WriteOne}

theorem Blind.writeItems (hone : Blind writeOne) (depth : Nat) (limit : Option Nat)
    (xs : Supply Value) : ∀ (count : Nat) (done : List Value) {s s' : Store} (b : Block),
      s.Resembles s' →
      Pass.Resembles (Layout.writeItems writeOne depth limit count done xs s b)
        (Layout.writeItems writeOne depth limit count done xs s' b) := by
  induction xs with
  | nil =>
    intro count done s s' b h
    refine ⟨rfl, rfl, rfl, ?_⟩
    cases limit with
    | none => exact ⟨h, rfl⟩
    | some n =>
      simp only [Layout.writeItems]
      by_cases hlt : count < n
      · simp only [if_pos hlt]; rfl
      · simp only [if_neg hlt]; exact ⟨h, rfl⟩
  | cons x rest ih =>
    intro count done s s' b h
    by_cases hlast : limit = some count
    · simp only [Layout.writeItems, if_pos hlast]
      exact ⟨rfl, rfl, rfl, rfl⟩
    · obtain ⟨hvalue, houtcome⟩ := hone x b h
      simp only [Layout.writeItems, if_neg hlast]
      cases hw : writeOne x s b with
      | mk w outcome =>
        cases hw' : writeOne x s' b with
        | mk w' outcome' =>
          rw [hw, hw'] at hvalue houtcome
          obtain rfl : w = w' := hvalue
          rcases houtcome.cases with ⟨e, rfl, rfl⟩ | ⟨⟨s₁, b₁⟩, ⟨s₁', b₁'⟩, rfl, rfl, hs, hb⟩
          · exact ⟨rfl, rfl, rfl, rfl⟩
          · obtain rfl : b₁ = b₁' := hb
            exact ih ⟨⟩ (count + 1) (w :: done) b₁ hs

theorem Blind.writeRegular (hone : Blind writeOne) (depth n : Nat) (children : Children)
    (v : Value) {s s' : Store} (b : Block) (h : s.Resembles s') :
    (Layout.writeRegular writeOne depth n children v s b).1 =
        (Layout.writeRegular writeOne depth n children v s' b).1 ∧
      Alike Store.ResembleWith (Layout.writeRegular writeOne depth n children v s b).2
        (Layout.writeRegular writeOne depth n children v s' b).2 := by
  have hpass := hone.writeItems depth (some n) children.elements 0 [] b h
  simp only [Layout.writeRegular]
  split
  · exact ⟨rfl, rfl⟩
  · split
    · exact ⟨rfl, rfl⟩
    · simp only [hpass.done, hpass.rest, hpass.atEnd]
      exact ⟨trivial, hpass.outcome⟩

theorem Blind.writeRow (hone : Blind writeOne) (inner : Layout) (depth : Nat)
    (children : Children) (v : Value) {s s' : Store} (rows : Array Row) (h : s.Resembles s') :
    (Layout.writeRow writeOne inner depth children v s rows).1 =
        (Layout.writeRow writeOne inner depth children v s' rows).1 ∧
      Alike Store.ResembleWith (Layout.writeRow writeOne inner depth children v s rows).2
        (Layout.writeRow writeOne inner depth children v s' rows).2 := by
  let sizing : Sizing := .growable (children.lengthHint?.getD 0)
  obtain ⟨hs, hrow⟩ := inner.resemble_allocate h sizing
  have hpass := hone.writeItems depth none children.elements 0 [] (inner.allocate s sizing).2 hs
  rw [hrow] at hpass
  simp only [Layout.writeRow]
  rw [hrow]
  revert hpass
  generalize Layout.writeItems writeOne depth none 0 [] children.elements
    (inner.allocate s sizing).1 (inner.allocate s' sizing).2 = pass
  generalize Layout.writeItems writeOne depth none 0 [] children.elements
    (inner.allocate s' sizing).1 (inner.allocate s' sizing).2 = pass'
  rintro ⟨hdone, hrest, hend, houtcome⟩
  obtain ⟨done, rest, atEnd, outcome⟩ := pass
  obtain ⟨done', rest', atEnd', outcome'⟩ := pass'
  obtain rfl : done = done' := hdone
  obtain rfl : rest = rest' := hrest
  obtain rfl : atEnd = atEnd' := hend
  rcases Alike.cases houtcome with ⟨e, rfl, rfl⟩ | ⟨⟨s₁, row⟩, ⟨s₁', row'⟩, rfl, rfl, hs₁, hrow⟩
  · exact ⟨rfl, rfl⟩
  · obtain rfl : row = row' := hrow
    refine ⟨rfl, ?_⟩
    simp only
    rcases (Store.Resembles.freeze row hs₁).cases with ⟨e, hf, hf'⟩ | ⟨s₂, s₂', hf, hf', hs₂⟩
    · rw [hf, hf']
      exact rfl
    · rw [hf, hf']
      exact ⟨hs₂, rfl⟩

end Passes

/-! ## Writing -/

theorem blind_writeElement (leaf : LeafType) : Blind (writeElement leaf) := by
  intro v s s' b h
  obtain ⟨arena, extents⟩ := s
  obtain ⟨arena', extents'⟩ := s'
  unfold writeElement
  cases b with
  | leaf id =>
    cases v with
    | atom a =>
      cases hstore : leaf.store a with
      | error e => simp only [hstore]; exact ⟨trivial, rfl⟩
      | ok stored =>
        obtain ⟨harena, houtcome⟩ := h.arena.append id stored
        simp only [hstore]
        cases hw : arena.append id stored with
        | mk a₁ outcome =>
          cases hw' : arena'.append id stored with
          | mk a₁' outcome' =>
            rw [hw, hw'] at harena houtcome
            obtain rfl : outcome = outcome' := houtcome
            cases outcome with
            | error e => exact ⟨rfl, rfl⟩
            | ok u => exact ⟨rfl, ⟨harena, h.extents⟩, rfl⟩
    | _ => exact ⟨rfl, rfl⟩
  | _ => exact ⟨rfl, rfl⟩

theorem blind_writeFields {layouts : List Layout}
    (h : ∀ l ∈ layouts, ∀ depth, Blind (l.writeFrom depth)) :
    ∀ (values : List Value) (blocks : List Block) {s s' : Store}, s.Resembles s' →
      (writeFields layouts values blocks s).1 = (writeFields layouts values blocks s').1 ∧
        Alike Store.ResembleWith (writeFields layouts values blocks s).2
          (writeFields layouts values blocks s').2 := by
  induction layouts with
  | nil =>
    intro values blocks s s' hs
    rw [writeFields.eq_def, writeFields.eq_def]
    exact ⟨rfl, hs, rfl⟩
  | cons l ls ih =>
    intro values blocks s s' hs
    obtain ⟨hl, hls⟩ := List.forall_mem_cons.mp h
    cases values with
    | nil => exact ⟨rfl, hs, rfl⟩
    | cons v vs =>
      cases blocks with
      | nil => exact ⟨rfl, hs, rfl⟩
      | cons b bs =>
        obtain ⟨hvalue, houtcome⟩ := hl 0 v b hs
        rw [← write_eq_writeFrom] at hvalue houtcome
        rw [writeFields, writeFields]
        cases hw : l.write v s b with
        | mk w outcome =>
          cases hw' : l.write v s' b with
          | mk w' outcome' =>
            rw [hw, hw'] at hvalue houtcome
            obtain rfl : w = w' := hvalue
            rcases houtcome.cases with ⟨e, rfl, rfl⟩ | ⟨⟨s₁, b₁⟩, ⟨s₁', b₁'⟩, rfl, rfl, hs₁, hb⟩
            · exact ⟨rfl, rfl⟩
            · obtain rfl : b₁ = b₁' := hb
              obtain ⟨hvalues, hrest⟩ := ih hls vs bs hs₁
              refine ⟨congrArg (w :: ·) hvalues, hrest.map fun r r' hr => ⟨hr.1, ?_⟩⟩
              exact congrArg (b₁ :: ·) hr.2

/-- **Writing is blind to growth.** The induction is on the layout; what is particular to a dimension
happens before and after a pass over elements. -/
theorem blind_writeFrom (l : Layout) : ∀ depth, Blind (l.writeFrom depth) := by
  induction l using Layout.induction with
  | element kind leaf => exact fun _ => blind_writeElement leaf
  | struct type layouts ih =>
    intro depth v s s' b h
    simp only [writeFrom, writeDims, writeLeaf]
    cases b with
    | struct blocks =>
      cases v.recordFields type with
      | mk w outcome =>
        cases outcome with
        | error e => exact ⟨rfl, rfl⟩
        | ok values =>
          obtain ⟨hvalues, houtcome⟩ := blind_writeFields ih values blocks h
          refine ⟨congrArg (w.withRecordFields type) hvalues, houtcome.map fun r r' hr => ?_⟩
          exact ⟨hr.1, congrArg Block.struct hr.2⟩
    | _ => exact ⟨rfl, rfl⟩
  | dim d dims leaf ih =>
    intro depth v s s' b h
    cases d with
    | fixed n =>
      simp only [writeFrom, writeDims]
      cases v.childrenAt depth with
      | error e => exact ⟨rfl, rfl⟩
      | ok children => exact (ih (depth + 1)).writeRegular depth n children v b h
    | strided slot =>
      simp only [writeFrom, writeDims]
      cases v.childrenAt depth with
      | error e => exact ⟨rfl, rfl⟩
      | ok children =>
        simp only
        split
        · exact ⟨rfl, rfl⟩
        · -- both stores know the extent, or neither does
          obtain ⟨hs, hextent⟩ := h.settle slot (children.lengthHint?.getD 0)
          rw [hextent]
          exact (ih (depth + 1)).writeRegular depth _ children v b hs
    | var =>
      simp only [writeFrom, writeDims]
      cases b with
      | var rows =>
        cases v.childrenAt depth with
        | error e => exact ⟨rfl, rfl⟩
        | ok children => exact (ih (depth + 1)).writeRow ⟨dims, leaf⟩ depth children v rows h
      | _ => exact ⟨rfl, rfl⟩

end Layout

end Ragged
