import Ragged.Proofs.Layout.Writing

/-!
# Nothing else goes wrong

The converse of the write pass: an instance that conforms to its type, with extents that do not
contradict those found so far, is written.

> Into an open block, writing a conforming value ends well, and the extents found are still as
> assigned, or it ends at a scalar that its leaf does not store.

So no write ends because of a length, a record, a region or a block. The scalars stay open here,
since the leaves' part of conformance is a parameter: with what leaves store the second case is void
and with less it says which scalar it was.
-/

set_option autoImplicit false

namespace Ragged

/-- How a write of conforming values may end. -/
def Store.Ends {β : Type} (accepts : LeafType → Atom → Prop) (σ : Nat → Nat) :
    Except BuildError (Store × β) → Prop
  | .ok (s, _) => s.Agrees σ
  | .error e => ∃ leaf a, accepts leaf a ∧ leaf.store a = .error e

section Ends

variable {accepts : LeafType → Atom → Prop} {σ : Nat → Nat}

theorem Store.Ends.map {β γ : Type} {out : Except BuildError (Store × β)} (f : β → γ)
    (h : Ends accepts σ out) : Ends accepts σ (out.map fun r => (r.1, f r.2)) := by
  cases out with
  | error e => exact h
  | ok r => exact h

/-- An extent as assigned is settled, if it is not already. -/
theorem Store.Agrees.settle {s : Store} {slot n : Nat} (h : s.Agrees σ) (hn : n = σ slot)
    (hslot : slot < s.extents.size) :
    (s.settle slot n).2 = n ∧ (s.settle slot n).1.Agrees σ := by
  have hsettled : (s.settle slot n).2 = n := by
    cases hknown : s.extents.getD slot none with
    | some m =>
      have hm := h slot m hknown
      simp only [Store.settle, hknown]
      omega
    | none => simp only [Store.settle, hknown]
  obtain ⟨-, -, hextent, hothers⟩ := Store.settle_spec hslot hsettled
  refine ⟨hsettled, fun other m hm => ?_⟩
  by_cases hother : other = slot
  · rw [hother, hextent] at hm
    rw [hother, ← hn]
    exact Option.some.inj hm
  · rw [hothers other hother] at hm
    exact h other m hm

/-- Writing a conforming instance of the type into an open block ends as it may. -/
def ArrayType.Accepted (accepts : LeafType → Atom → Prop) (σ : Nat → Nat) (t : ArrayType) : Prop :=
  ∀ {free depth : Nat} {s : Store} {b : Block} {left : Option Nat} {vs : List Value} {v : Value},
    (t.layoutFrom free).Open s b (left.map (· + 1)) vs → free + t.strides ≤ s.extents.size →
    s.Agrees σ → t.Conforms accepts σ free v →
    Store.Ends accepts σ ((t.layoutFrom free).writeFrom depth v s b).2

/-- A pass over conforming values goes on as long as it goes well. -/
theorem ArrayType.Accepted.writeAll {t : ArrayType} (ht : t.Accepted accepts σ)
    {free depth : Nat} {left : Option Nat} {xs : List Value} :
    ∀ {s : Store} {b : Block} {vs : List Value},
      (t.layoutFrom free).Open s b (left.map (· + xs.length)) vs →
      free + t.strides ≤ s.extents.size → s.Agrees σ →
      (∀ x ∈ xs, t.Conforms accepts σ free x) →
      Store.Ends accepts σ (Layout.writeAll ((t.layoutFrom free).writeFrom depth) xs s b) := by
  induction xs with
  | nil => exact fun _ _ hagrees _ => hagrees
  | cons x xs ih =>
    intro s b vs hopen hslots hagrees hall
    obtain ⟨hx, hxs⟩ := List.forall_mem_cons.mp hall
    have hleft : left.map (· + (x :: xs).length) = (left.map (· + xs.length)).map (· + 1) := by
      cases left <;> rfl
    rw [hleft] at hopen
    have hends : Store.Ends accepts σ ((t.layoutFrom free).writeFrom depth x s b).2 :=
      ht hopen hslots hagrees hx
    unfold Layout.writeAll
    cases hw : ((t.layoutFrom free).writeFrom depth x s b).2 with
    | error e => rw [hw] at hends; exact hends
    | ok r =>
      rw [hw] at hends
      have hwrote := t.advances hopen hslots hw
      obtain ⟨ws, -, hopen'⟩ := hwrote.coerced
      exact ih hopen' (by rw [hwrote.step.slots]; exact hslots) hends hxs

/-- A row is allocated and frozen without fail, whatever comes between. -/
theorem ArrayType.Accepted.row {t : ArrayType} (ht : t.Accepted accepts σ) {free depth : Nat}
    {xs : List Value} {capacity : Nat} {s : Store} {rows : Array Row}
    (hslots : free + t.strides ≤ s.extents.size) (hagrees : s.Agrees σ)
    (hall : ∀ x ∈ xs, t.Conforms accepts σ free x) :
    Store.Ends accepts σ (Layout.writeAllAsRow ((t.layoutFrom free).writeFrom depth)
      (t.layoutFrom free) capacity xs s rows) := by
  have hfresh := (t.layoutFrom free).fresh_allocate s (.growable capacity)
    fun n hn => absurd hn (by simp)
  simp only [Layout.writeAllAsRow]
  cases halloc : (t.layoutFrom free).allocate s (.growable capacity) with
  | mk s₁ row =>
    rw [halloc] at hfresh
    have hslots₁ : free + t.strides ≤ s₁.extents.size := by rw [hfresh.extents]; exact hslots
    have hagrees₁ : s₁.Agrees σ := by
      intro slot n hn
      rw [show s₁.extents = s.extents from hfresh.extents] at hn
      exact hagrees slot n hn
    have hrow : (t.layoutFrom free).Open s₁ row ((none : Option Nat).map (· + xs.length)) [] :=
      hfresh.isOpen
    have hends : Store.Ends accepts σ
        (Layout.writeAll ((t.layoutFrom free).writeFrom depth) xs s₁ row) :=
      ht.writeAll hrow hslots₁ hagrees₁ hall
    cases hw : Layout.writeAll ((t.layoutFrom free).writeFrom depth) xs s₁ row with
    | error e => rw [hw] at hends; exact hends
    | ok r =>
      obtain ⟨s₂, row₂⟩ := r
      rw [hw] at hends
      obtain ⟨ws, -, hopen⟩ := (ArrayType.Advances.wrote t.advances hrow hslots₁ hw).coerced
      obtain ⟨s₃, hfreeze, hfrozen⟩ :=
        Layout.freezes_of_ready _ hopen.ready (fun n hn => absurd hn (by simp)) hopen.nodup
      simp only [hfreeze]
      intro slot n hn
      rw [hfrozen.extents] at hn
      exact hends slot n hn

theorem ArrayType.accepted_element {leaf : LeafType} {kind : ElementKind} {free depth : Nat}
    {v : Value} {s : Store} {b : Block} {left : Option Nat} {vs : List Value}
    (hlayout : layoutFrom free ⟨[], leaf⟩ = ⟨[], .element kind leaf⟩)
    (hkind : ∀ a stored, leaf.store a = .ok stored → stored.kind = kind)
    (hopen : (layoutFrom free ⟨[], leaf⟩).Open s b (left.map (· + 1)) vs) (hagrees : s.Agrees σ)
    (hv : ∃ a, v = .atom a ∧ accepts leaf a) :
    Store.Ends accepts σ ((layoutFrom free ⟨[], leaf⟩).writeFrom depth v s b).2 := by
  obtain ⟨a, rfl, ha⟩ := hv
  rw [hlayout] at hopen ⊢
  obtain ⟨id, r, rfl, hr, htakes⟩ := hopen.ready
  show Store.Ends accepts σ (Layout.writeElement leaf (.atom a) s (.leaf id)).2
  simp only [Layout.writeElement]
  cases hstore : leaf.store a with
  | error e => exact ⟨leaf, a, ha, hstore⟩
  | ok stored =>
    have hstored := hkind a stored hstore
    subst hstored
    obtain ⟨arena, r', happend, -⟩ := Arena.append_of_takes hr htakes
    simp only [happend]
    exact hagrees

/-- The fields of a record, one after the other. -/
theorem Struct.accepted_fields {fields : List Field}
    (hf : ∀ f ∈ fields, f.type.Accepted accepts σ) :
    ∀ {free : Nat} {left : Option Nat} {records : List (List Value)} {values : List Value}
      {s : Store} {blocks : List Block},
      Open fields free s blocks (left.map (· + 1)) records →
      free + strides fields ≤ s.extents.size → s.Agrees σ →
      Struct.Conform accepts σ fields free values →
      Store.Ends accepts σ (Layout.writeFields (layoutsFrom free fields) values blocks s).2 := by
  induction fields with
  | nil =>
    intro free left records values s blocks _ _ hagrees _
    cases values <;> cases blocks <;> exact hagrees
  | cons f fields ih =>
    intro free left records values s blocks hopen hslots hagrees hconf
    obtain ⟨hfirst, hothers⟩ := List.forall_mem_cons.mp hf
    obtain ⟨b, bs, rfl, hfield, hbehind⟩ := hopen.cons
    rw [strides_cons] at hslots
    cases values with
    | nil => exact absurd hconf (by simp [Struct.Conform])
    | cons v vs =>
      rw [conform_cons] at hconf
      have hends : Store.Ends accepts σ ((f.type.layoutFrom free).writeFrom 0 v s b).2 :=
        hfirst hfield (by omega) hagrees hconf.1
      rw [layoutsFrom_cons, Layout.writeFields_cons]
      cases hw : ((f.type.layoutFrom free).writeFrom 0 v s b).2 with
      | error e => rw [hw] at hends; exact hends
      | ok r =>
        obtain ⟨s₁, b₁⟩ := r
        rw [hw] at hends
        have hwrote := f.type.advances hfield (by omega) hw
        exact (ih hothers (hbehind hwrote.step) (by rw [hwrote.step.slots]; omega) hends
          hconf.2).map (b₁ :: ·)

/-- **A conforming value is written, unless a leaf refuses a scalar.** The induction is on the type,
as in the write pass itself. -/
theorem ArrayType.accepted (t : ArrayType) : t.Accepted accepts σ := by
  induction t using ArrayType.induction with
  | scalar k =>
    intro free depth s b left vs v hopen _ hagrees hconf
    exact accepted_element rfl (fun _ _ => ScalarKind.kind_of_store) hopen hagrees hconf
  | string t =>
    intro free depth s b left vs v hopen _ hagrees hconf
    exact accepted_element rfl (fun _ _ => StringType.kind_of_store) hopen hagrees hconf
  | struct fields ih =>
    intro free depth s b left vs v hopen hslots hagrees hconf
    obtain ⟨values, hvalues, hconf⟩ := hconf
    rw [strides_struct] at hslots
    obtain ⟨blocks, records, rfl, -, -, hfields⟩ := open_struct hopen
    show Store.Ends accepts σ (Layout.writeLeaf (.struct fields _) v s (.struct blocks)).2
    rw [Layout.writeLeaf_struct hvalues]
    exact (Struct.accepted_fields ih hfields hslots hagrees hconf).map Block.struct
  | dim d dims leaf ih =>
    intro free depth s b left vs v hopen hslots hagrees hconf
    obtain ⟨xs, hxs, hadmits, hall⟩ := hconf
    rw [strides_cons] at hslots
    rw [layoutFrom_cons]
    cases d with
    | fixed n =>
      obtain ⟨kids, -, -, hinner⟩ := open_fixed hadmits hopen
      rw [Dimension.place, Layout.writeFrom_fixed hxs hadmits]
      exact ih.writeAll hinner (by simp only [Dimension.slots] at hslots ⊢; omega) hagrees hall
    | strided =>
      obtain ⟨hv, hlen⟩ := hadmits
      simp only [Dimension.slots] at hslots
      have hslot : free < s.extents.size := by omega
      obtain ⟨hsettled, hagrees'⟩ := hagrees.settle hlen hslot
      obtain ⟨-, hstep, -⟩ := Store.settle_spec hslot hsettled
      obtain ⟨kids, -, -, hinner⟩ := open_strided hslot hsettled hopen
      rw [Dimension.place, Layout.writeFrom_strided hv hxs hsettled]
      exact ih.writeAll hinner (by simp only [Dimension.slots, hstep.slots]; omega) hagrees' hall
    | var =>
      obtain ⟨rows, rfl⟩ := hopen.ready
      rw [Dimension.place, Layout.writeFrom_var hxs]
      simp only [Dimension.slots, Nat.add_zero] at hall hslots ⊢
      exact ih.row (by omega) hagrees hall

end Ends

end Ragged
