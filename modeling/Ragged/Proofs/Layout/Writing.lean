import Ragged.Proofs.Layout.Allocation
import Ragged.Proofs.Layout.Passes
import Ragged.Proofs.Type.Coercion
import Ragged.Proofs.Type.Conformance

/-!
# What is written

The invariant of the write pass is `Layout.Open`: a block is ready for some more instances, holds
those that were written, and has its regions to itself. Every instance that is written moves it on:

> if writing a value into an open block succeeds, the value can be coerced, and the block is then open
> for one instance less and holds the coerced value behind the others.

The same induction gives what the pass finds out about extents. The value conforms to its type
whatever extents one has in mind, as long as they are those found; and the slots with an extent are
those that had one before and those that the value reaches.
-/

set_option autoImplicit false

namespace Ragged

namespace Store

/-- The extents found so far are as assigned. -/
def Agrees (s : Store) (σ : Nat → Nat) : Prop :=
  ∀ slot n, s.extents.getD slot none = some n → σ slot = n

/-- An extent was found for the slot. -/
def Known (s : Store) (slot : Nat) : Prop := (s.extents.getD slot none).isSome

theorem Agrees.of_step {own : List Nat} {s s' : Store} {σ : Nat → Nat} (h : s'.Agrees σ)
    (hstep : s.Step own s') : s.Agrees σ :=
  fun slot n hn => h slot n (hstep.extents (.strided slot) n hn)

/-- The first instance settles an extent, and others have it then. -/
theorem settle_spec {s : Store} {slot n : Nat} (hslot : slot < s.extents.size)
    (h : (s.settle slot n).2 = n) :
    (s.settle slot n).1.arena = s.arena ∧ s.Step [] (s.settle slot n).1 ∧
      (s.settle slot n).1.extents.getD slot none = some n ∧
      ∀ other, other ≠ slot →
        (s.settle slot n).1.extents.getD other none = s.extents.getD other none := by
  cases hknown : s.extents.getD slot none with
  | some m =>
    have hsettle : s.settle slot n = (s, m) := by simp only [settle, hknown]
    rw [hsettle] at h ⊢
    exact ⟨rfl, .refl [] s, hknown.trans (congrArg some h), fun _ _ => rfl⟩
  | none =>
    have hget : ∀ other, (s.extents.setIfInBounds slot (some n)).getD other none =
        if other = slot then some n else s.extents.getD other none := by
      intro other
      rw [Array.getD_eq_getD_getElem?, Array.getElem?_setIfInBounds, Array.getD_eq_getD_getElem?]
      by_cases hother : other = slot
      · rw [if_pos hother, if_pos hother.symm, if_pos hslot]
        rfl
      · rw [if_neg hother, if_neg (Ne.symm hother)]
    have hsettle : s.settle slot n =
        ({ s with extents := s.extents.setIfInBounds slot (some n) }, n) := by
      simp only [settle, hknown]
    rw [hsettle]
    refine ⟨rfl, ⟨.refl [] s.arena, fun _ _ hr _ => hr, fun d m hm => ?_, by simp⟩,
      by rw [hget, if_pos rfl], fun other hother => by rw [hget, if_neg hother]⟩
    cases d with
    | fixed k => exact hm
    | strided other =>
      have hne : other ≠ slot := by
        intro heq
        rw [heq] at hm
        exact absurd (hknown.symm.trans hm) (by simp)
      exact (hget other).trans (by rw [if_neg hne]; exact hm)
    | var => exact hm

end Store

/-- What a leaf stores. -/
def LeafType.Accepts (leaf : LeafType) (a : Atom) : Prop := ∃ s, leaf.store a = .ok s

/-- The block of a layout while instances are written to it: those that are left, and those that it
holds. -/
structure Layout.Open (l : Layout) (s : Store) (b : Block) (left : Option Nat) (vs : List Value) :
    Prop where
  ready : l.Ready s.arena b left
  holds : l.Holds s b vs
  nodup : b.own.Nodup

/-- A new block is open, with nothing in it. -/
theorem Layout.Fresh.isOpen {l : Layout} {s s' : Store} {left : Option Nat} {b : Block}
    (h : l.Fresh s left s' b) : l.Open s' b left [] := ⟨h.ready, h.holds, h.nodup⟩

namespace ArrayType

variable {dims : List Dimension} {leaf : LeafType} {free : Nat} {s : Store} {b : Block}
  {left : Option Nat} {vs xs : List Value}

/-- What is open for one instance more of a fixed dimension is open for its elements. -/
theorem open_fixed {n : Nat} (hlen : xs.length = n)
    (h : (layoutFrom free ⟨.fixed n :: dims, leaf⟩).Open s b (left.map (· + 1)) vs) :
    ∃ kids : List (List Value), vs = kids.map .list ∧
      (∀ kid ∈ kids, s.extent? (.fixed n) = some kid.length) ∧
      (layoutFrom free ⟨dims, leaf⟩).Open s b ((left.map (· * n)).map (· + xs.length))
        kids.flatten := by
  rw [layoutFrom_cons] at h
  obtain ⟨kids, hvs, hkids, hholds⟩ := h.holds
  -- one instance more is as many elements more as the extent says
  have hleft : (left.map (· + 1)).map (· * n) = (left.map (· * n)).map (· + xs.length) := by
    cases left with
    | none => rfl
    | some k => simp [hlen, Nat.succ_mul]
  refine ⟨kids, hvs, hkids, ?_, hholds, h.nodup⟩
  rw [← hleft]
  exact h.ready

/-- At a strided dimension too, and no number is given there. -/
theorem open_strided {n : Nat} (hslot : free < s.extents.size) (hn : (s.settle free n).2 = n)
    (h : (layoutFrom free ⟨.strided :: dims, leaf⟩).Open s b left vs) :
    ∃ kids : List (List Value), vs = kids.map .list ∧
      (∀ kid ∈ kids, s.extent? (.strided free) = some kid.length) ∧
      (layoutFrom (free + 1) ⟨dims, leaf⟩).Open (s.settle free n).1 b
        ((none : Option Nat).map (· + xs.length)) kids.flatten := by
  rw [layoutFrom_cons] at h
  obtain ⟨kids, hvs, hkids, hholds⟩ := h.holds
  obtain ⟨harena, hstep, -⟩ := Store.settle_spec hslot hn
  have hholds : (layoutFrom (free + 1) ⟨dims, leaf⟩).Holds s b kids.flatten := hholds
  refine ⟨kids, hvs, hkids, ?_, hholds.of_keeps (hstep.keeps fun _ _ => List.not_mem_nil), h.nodup⟩
  rw [harena]
  exact h.ready

end ArrayType

/-- The values were written as instances of the type, one after the other: what is true then of the
store and of the block, which held others before. -/
structure ArrayType.Wrote (t : ArrayType) (free : Nat) (left : Option Nat) (vs xs : List Value)
    (s : Store) (b : Block) (s' : Store) (b' : Block) : Prop where
  coerced : ∃ ws, xs.mapM t.coerce = some ws ∧ (t.layoutFrom free).Open s' b' left (vs ++ ws)
  own : b'.own = b.own
  step : s.Step b.own s'
  conforms : ∀ σ, s'.Agrees σ → ∀ x ∈ xs, t.Conforms LeafType.Accepts σ free x
  known : ∀ slot, s'.Known slot ↔ s.Known slot ∨ ∃ x ∈ xs, t.Reaches free slot x

namespace ArrayType.Wrote

variable {t : ArrayType} {free : Nat} {left left' : Option Nat} {vs : List Value} {s s' s'' : Store}
  {b b' b'' : Block}

theorem nil (h : (t.layoutFrom free).Open s b left vs) : t.Wrote free left vs [] s b s b := by
  refine ⟨⟨[], rfl, by rw [List.append_nil]; exact h⟩, rfl, .refl _ s,
    fun _ _ x hx => absurd hx List.not_mem_nil, fun slot => ?_⟩
  simp

/-- One value, and others behind it. -/
theorem cons {x w : Value} {xs : List Value} (h : t.Wrote free left vs [x] s b s' b')
    (hw : t.coerce x = some w) (h' : t.Wrote free left' (vs ++ [w]) xs s' b' s'' b'') :
    t.Wrote free left' vs (x :: xs) s b s'' b'' := by
  obtain ⟨ws, hws, hopen⟩ := h'.coerced
  have hstep' : s'.Step b.own s'' := by rw [← h.own]; exact h'.step
  refine ⟨⟨w :: ws, mapM_cons_eq_some.mpr ⟨w, ws, hw, hws, rfl⟩, ?_⟩, h'.own.trans h.own,
    h.step.trans hstep', fun σ hσ y hy => ?_, fun slot => ?_⟩
  · rw [List.append_assoc] at hopen
    exact hopen
  · rcases List.mem_cons.mp hy with rfl | hy
    · exact h.conforms σ (hσ.of_step hstep') y (List.mem_singleton_self y)
    · exact h'.conforms σ hσ y hy
  · rw [h'.known, h.known]
    simp [or_assoc]

end ArrayType.Wrote

/-- Writing one instance of the type moves an open block on. -/
def ArrayType.Advances (t : ArrayType) : Prop :=
  ∀ {free depth : Nat} {s : Store} {b : Block} {left : Option Nat} {vs : List Value} {v : Value}
    {s' : Store} {b' : Block}, (t.layoutFrom free).Open s b (left.map (· + 1)) vs →
    free + t.strides ≤ s.extents.size →
    ((t.layoutFrom free).writeFrom depth v s b).2 = .ok (s', b') →
    t.Wrote free left vs [v] s b s' b'

/-- A pass over values is as many steps as there are values. Induction on the values; after each the
block is open for those that follow. -/
theorem ArrayType.Advances.wrote {t : ArrayType} (ht : t.Advances) {free depth : Nat}
    {left : Option Nat} {xs : List Value} :
    ∀ {s : Store} {b : Block} {vs : List Value} {s' : Store} {b' : Block},
      (t.layoutFrom free).Open s b (left.map (· + xs.length)) vs →
      free + t.strides ≤ s.extents.size →
      Layout.writeAll ((t.layoutFrom free).writeFrom depth) xs s b = .ok (s', b') →
      t.Wrote free left vs xs s b s' b' := by
  induction xs with
  | nil =>
    intro s b vs s' b' hopen _ h
    obtain ⟨rfl, rfl⟩ := Prod.mk.inj (Except.ok.inj h)
    have hleft : left.map (· + ([] : List Value).length) = left := by cases left <;> rfl
    rw [hleft] at hopen
    exact .nil hopen
  | cons x xs ih =>
    intro s b vs s' b' hopen hslots h
    have hleft : left.map (· + (x :: xs).length) = (left.map (· + xs.length)).map (· + 1) := by
      cases left <;> rfl
    rw [hleft] at hopen
    unfold Layout.writeAll at h
    cases hx : ((t.layoutFrom free).writeFrom depth x s b).2 with
    | error e => rw [hx] at h; exact absurd h (by simp)
    | ok r =>
      rw [hx] at h
      have hfirst := ht hopen hslots hx
      obtain ⟨ws, hws, hopen'⟩ := hfirst.coerced
      obtain ⟨w, hw, rfl⟩ := mapM_singleton_eq_some.mp hws
      exact hfirst.cons hw (ih hopen' (by rw [hfirst.step.slots]; exact hslots) h)

/-! ## A scalar -/

namespace Layout

/-- A scalar goes to the end of its column, and is read back from there. -/
theorem writeElement_ok {kind : ElementKind} {leaf : LeafType} {v : Value} {s s' : Store}
    {b b' : Block} {left : Option Nat} {vs : List Value}
    (hkind : ∀ a stored, leaf.store a = .ok stored → stored.kind = kind)
    (hopen : Open ⟨[], .element kind leaf⟩ s b (left.map (· + 1)) vs)
    (h : (writeElement leaf v s b).2 = .ok (s', b')) :
    ∃ a w, v = .atom a ∧ leaf.Accepts a ∧ leaf.readBack? a = some w ∧
      Open ⟨[], .element kind leaf⟩ s' b' left (vs ++ [.atom w]) ∧ b' = b ∧ s.Step b.own s' ∧
      s'.extents = s.extents := by
  obtain ⟨id, r, rfl, hr, htakes⟩ := hopen.ready
  obtain ⟨id', r', atoms, hid, hr', -, -, hload, rfl⟩ := hopen.holds
  obtain rfl := Block.leaf.inj hid
  obtain rfl := Option.some.inj (hr.symm.trans hr')
  simp only [writeElement] at h
  cases v with
  | atom a =>
    cases hstore : leaf.store a with
    | error e => simp only [hstore] at h; exact absurd h (by simp)
    | ok stored =>
      have hstored := hkind a stored hstore
      subst hstored
      obtain ⟨arena, r', happend, hchanges, hr', hcol, htakes'⟩ :=
        Arena.append_of_takes hr htakes
      simp only [hstore, happend] at h
      obtain ⟨rfl, rfl⟩ := Prod.mk.inj (Except.ok.inj h)
      obtain ⟨w, hw, hread⟩ := LeafType.load_of_store hstore
      have hpush := (Column.push_of_kind htakes.sound htakes.kind_eq.symm).2
      refine ⟨a, w, rfl, ⟨stored, hstore⟩, hread,
        ⟨⟨id, r', rfl, hr', htakes'⟩,
          ⟨id, r', atoms ++ [w], rfl, hr', htakes'.kind_eq, htakes'.sound, ?_, ?_⟩, hopen.nodup⟩, rfl,
        ⟨hchanges, fun i r₀ hr₀ hf => hchanges.others hr₀ fun hi => ?_, fun d n hn => ?_, rfl⟩, rfl⟩
      · rw [hcol, hpush, List.map_append, hload, List.map_append, List.map_singleton, hw]
        rfl
      · rw [List.map_append]
        rfl
      · rw [List.mem_singleton.mp hi] at hr₀
        obtain rfl := Option.some.inj (hr.symm.trans hr₀)
        exact htakes.not_frozen hf
      · rw [← hn]
        cases d <;> rfl
  | _ => exact absurd h (by simp)

end Layout

theorem ArrayType.wrote_element {leaf : LeafType} {kind : ElementKind} {free depth : Nat}
    {v : Value} {s s' : Store} {b b' : Block} {left : Option Nat} {vs : List Value}
    (hlayout : layoutFrom free ⟨[], leaf⟩ = ⟨[], .element kind leaf⟩)
    (hcoerce : ∀ v, leaf.coerce v = v.atom?.bind fun a => (leaf.readBack? a).map .atom)
    (hconforms : ∀ σ a, leaf.Accepts a → Conforms LeafType.Accepts σ ⟨[], leaf⟩ free (.atom a))
    (hreaches : ∀ slot v, ¬Reaches ⟨[], leaf⟩ free slot v)
    (hkind : ∀ a stored, leaf.store a = .ok stored → stored.kind = kind)
    (hopen : (layoutFrom free ⟨[], leaf⟩).Open s b (left.map (· + 1)) vs)
    (h : ((layoutFrom free ⟨[], leaf⟩).writeFrom depth v s b).2 = .ok (s', b')) :
    Wrote ⟨[], leaf⟩ free left vs [v] s b s' b' := by
  rw [hlayout] at hopen h
  obtain ⟨a, w, rfl, haccepts, hread, hopen', rfl, hstep, hextents⟩ :=
    Layout.writeElement_ok hkind hopen h
  refine ⟨⟨[.atom w], ?_, by rw [hlayout]; exact hopen'⟩, rfl, hstep, fun σ _ x hx => ?_,
    fun slot => ?_⟩
  · have hw : coerce ⟨[], leaf⟩ (.atom a) = some (.atom w) := by
      show leaf.coerce (.atom a) = _
      rw [hcoerce, Value.atom?, Option.bind_some, hread]
      rfl
    exact mapM_singleton_eq_some.mpr ⟨_, hw, rfl⟩
  · rw [List.mem_singleton.mp hx]
    exact hconforms σ a haccepts
  · rw [Store.Known, Store.Known, hextents]
    refine ⟨.inl, ?_⟩
    rintro (hk | ⟨x, -, hx⟩)
    · exact hk
    · exact absurd hx (hreaches slot x)

/-! ## A dimension -/

namespace ArrayType

section Dims

variable {d : Dimension} {dims : List Dimension} {leaf : LeafType} {free depth : Nat} {v : Value}
  {xs : List Value} {s s₁ s' : Store} {b b' : Block} {left left' : Option Nat}

/-- At a regular dimension the elements go behind those of the lists before. The store may have got
an extent before the first of them. -/
theorem Wrote.regular {kids : List (List Value)} (hd : (d.place free).isVar = false)
    (hxs : v.items? = some xs)
    (hadmits : ∀ σ, s'.Agrees σ → d.Admits σ free v.isIterator xs.length)
    (hextent : s'.extent? (d.place free) = some xs.length) (hstep : s.Step [] s₁)
    (hknown : ∀ slot, s₁.Known slot ↔ s.Known slot ∨ (d = .strided ∧ free = slot))
    (hkids : ∀ kid ∈ kids, s.extent? (d.place free) = some kid.length)
    (hready : ((layoutFrom (free + d.slots) ⟨dims, leaf⟩).Ready s'.arena b' left' →
      (layoutFrom free ⟨d :: dims, leaf⟩).Ready s'.arena b' left))
    (h : Wrote ⟨dims, leaf⟩ (free + d.slots) left' kids.flatten xs s₁ b s' b') :
    Wrote ⟨d :: dims, leaf⟩ free left (kids.map .list) [v] s b s' b' := by
  obtain ⟨ws, hws, hopen⟩ := h.coerced
  have hfull : s.Step b.own s' := (hstep.mono fun i hi => absurd hi List.not_mem_nil).trans h.step
  refine ⟨⟨[.list ws], ?_, hready hopen.ready, ?_, hopen.nodup⟩, h.own, hfull,
    fun σ hσ x hx => ?_, fun slot => ?_⟩
  · have hw : coerce ⟨d :: dims, leaf⟩ v = some (.list ws) := by
      rw [coerce_cons, hxs, Option.bind_some, hws]
      rfl
    exact mapM_singleton_eq_some.mpr ⟨_, hw, rfl⟩
  · rw [layoutFrom_cons, Layout.holds_regular hd]
    refine ⟨kids ++ [ws], by rw [List.map_append]; rfl, fun kid hkid => ?_, ?_⟩
    · rcases List.mem_append.mp hkid with hkid | hkid
      · exact hfull.extents _ _ (hkids kid hkid)
      · rw [List.mem_singleton.mp hkid, length_of_mapM hws]
        exact hextent
    · rw [List.flatten_append, List.flatten_singleton]
      exact hopen.holds
  · rw [List.mem_singleton.mp hx]
    exact ⟨xs, hxs, hadmits σ hσ, fun x hx => h.conforms σ hσ x hx⟩
  · rw [h.known, hknown]
    simp only [List.mem_singleton, exists_eq_left, reaches_cons, hxs, Option.some.injEq,
      exists_eq_left', or_assoc]

/-- At a var dimension the elements go into a row of their own, which is finished with the last of
them. -/
theorem Wrote.row {rows : Array Row} {kids : List (List Value)} {capacity : Nat}
    (hleaf : Advances ⟨dims, leaf⟩) (hxs : v.items? = some xs)
    (hholds : (layoutFrom free ⟨.var :: dims, leaf⟩).Holds s (.var rows) (kids.map .list))
    (hslots : free + ArrayType.strides ⟨dims, leaf⟩ ≤ s.extents.size)
    (h : Layout.writeAllAsRow ((layoutFrom free ⟨dims, leaf⟩).writeFrom depth)
      (layoutFrom free ⟨dims, leaf⟩) capacity xs s rows = .ok (s', b')) :
    Wrote ⟨.var :: dims, leaf⟩ free left (kids.map .list) [v] s (.var rows) s' b' := by
  have hfresh := (layoutFrom free ⟨dims, leaf⟩).fresh_allocate s (.growable capacity)
    fun n hn => absurd hn (by simp)
  simp only [Layout.writeAllAsRow] at h
  cases halloc : (layoutFrom free ⟨dims, leaf⟩).allocate s (.growable capacity) with
  | mk s₁ row =>
    rw [halloc] at hfresh h
    cases hall : Layout.writeAll ((layoutFrom free ⟨dims, leaf⟩).writeFrom depth) xs s₁ row with
    | error e => simp only [hall] at h; exact absurd h (by simp)
    | ok r =>
      obtain ⟨s₂, row₂⟩ := r
      simp only [hall] at h
      have hwrote : Wrote ⟨dims, leaf⟩ free none [] xs s₁ row s₂ row₂ :=
        hleaf.wrote hfresh.isOpen (by rw [hfresh.extents]; exact hslots) hall
      obtain ⟨ws, hws, hopen⟩ := hwrote.coerced
      obtain ⟨s₃, hfreeze, hfrozen⟩ :=
        Layout.freezes_of_ready _ hopen.ready (fun n hn => absurd hn (by simp)) hopen.nodup
      rw [hfreeze] at h
      obtain ⟨rfl, rfl⟩ := Prod.mk.inj (Except.ok.inj h)
      -- the row's regions are new, so nothing that was there has changed
      have hnew : ∀ i ∈ row.own, s.arena.size ≤ i := fun i hi => (hfresh.fresh i hi).1
      have hstep₂ : s.Step [] s₂ := hfresh.step.of_fresh hwrote.step hnew
      have hstep : s.Step [] s₃ := hstep₂.of_fresh hfrozen.step (by rw [hwrote.own]; exact hnew)
      have hagrees : ∀ σ, s₃.Agrees σ → s₂.Agrees σ := fun σ hσ => hσ.of_step hfrozen.step
      refine ⟨⟨[.list ws], ?_, ⟨_, rfl⟩, ?_, List.nodup_nil⟩, rfl, hstep, fun σ hσ x hx => ?_,
        fun slot => ?_⟩
      · have hw : coerce ⟨.var :: dims, leaf⟩ v = some (.list ws) := by
          rw [coerce_cons, hxs, Option.bind_some, hws]
          rfl
        exact mapM_singleton_eq_some.mpr ⟨_, hw, rfl⟩
      · have hold := hholds.of_keeps (hstep.keeps fun i hi => absurd hi List.not_mem_nil)
        obtain ⟨rows', kids', hrows, hkids, hall⟩ := hold
        obtain rfl := Block.var.inj hrows
        have hkids : kids = kids' := List.map_injective_iff.mpr (fun _ _ => Value.list.inj) hkids
        subst hkids
        refine ⟨_, kids ++ [ws], rfl, by rw [List.map_append]; rfl, ?_⟩
        rw [Array.toList_push]
        refine List.rel_append hall (.cons ⟨?_, hfrozen.done, ?_⟩ .nil)
        · exact (length_of_mapM hws).symm
        · exact hopen.holds.of_keeps (hfrozen.keeps _)
      · rw [List.mem_singleton.mp hx]
        exact ⟨xs, hxs, trivial, fun x hx => hwrote.conforms σ (hagrees σ hσ) x hx⟩
      · have hbefore : s₃.Known slot ↔ s₂.Known slot := by
          rw [Store.Known, Store.Known, hfrozen.extents]
        have hafter : s₁.Known slot ↔ s.Known slot := by
          rw [Store.Known, Store.Known, hfresh.extents]
        rw [hbefore, hwrote.known, hafter]
        simp only [List.mem_singleton, exists_eq_left, reaches_cons, hxs, Option.some.injEq,
          exists_eq_left', reduceCtorEq, false_and, false_or]
        exact Iff.rfl

end Dims

end ArrayType

/-! ## A record -/

/-- The blocks of a record's fields while records are written to them. -/
structure Struct.Open (fields : List Field) (free : Nat) (s : Store) (blocks : List Block)
    (left : Option Nat) (records : List (List Value)) : Prop where
  ready : Layout.ReadyAll s.arena (layoutsFrom free fields) blocks left
  holds : Layout.HoldAll s (layoutsFrom free fields) blocks records
  nodup : (Block.ownAll blocks).Nodup

/-- What is open for a record is open for its fields. -/
theorem ArrayType.open_struct {fields : List Field} {free : Nat} {s : Store} {b : Block}
    {left : Option Nat} {vs : List Value}
    (h : (layoutFrom free ⟨[], .struct fields⟩).Open s b left vs) :
    ∃ blocks records, b = .struct blocks ∧
      vs = records.map (fun ws => .dict ((Struct.names fields).zip ws)) ∧
      (∀ ws ∈ records, ws.length = (Struct.layoutsFrom free fields).length) ∧
      Struct.Open fields free s blocks left records := by
  rw [layoutFrom_struct] at h
  obtain ⟨blocks, rfl, hready⟩ := h.ready
  obtain ⟨blocks', records, hblocks, hvs, hlens, hholds⟩ := h.holds
  obtain rfl := Block.struct.inj hblocks
  exact ⟨blocks, records, rfl, hvs, hlens, hready, hholds, h.nodup⟩

/-- The block of the first field is open, and what is written there leaves the others open. -/
theorem Struct.Open.cons {f : Field} {fields : List Field} {free : Nat} {s : Store}
    {blocks : List Block} {left : Option Nat} {records : List (List Value)}
    (h : Open (f :: fields) free s blocks left records) :
    ∃ b bs, blocks = b :: bs ∧
      (f.type.layoutFrom free).Open s b left (records.map (·.headD default)) ∧
      ∀ {s'}, s.Step b.own s' →
        Open fields (free + f.type.strides) s' bs left (records.map List.tail) := by
  obtain ⟨hready, hholds, hnodup⟩ := h
  rw [layoutsFrom_cons] at hready hholds
  cases blocks with
  | nil => exact hready.elim
  | cons b bs =>
    obtain ⟨hb, hbs, hdisj⟩ := List.nodup_append.mp hnodup
    have hbehind : ∀ i ∈ Block.ownAll bs, i ∉ b.own := fun i hi hi' => hdisj i hi' i hi rfl
    refine ⟨b, bs, rfl, ⟨hready.1, hholds.1, hb⟩, fun hstep => ⟨?_, ?_, hbs⟩⟩
    · exact hstep.readyAll hbehind hready.2
    · exact hholds.2.of_keeps (hstep.keeps hbehind)

/-- The values of a record's fields were written, each to the block of its field. -/
structure Struct.Wrote (fields : List Field) (free : Nat) (left : Option Nat)
    (records : List (List Value)) (values : List Value) (s : Store) (blocks : List Block)
    (s' : Store) (blocks' : List Block) : Prop where
  coerced : ∃ ws, Struct.coerce fields values = some ws ∧
    Layout.ReadyAll s'.arena (layoutsFrom free fields) blocks' left ∧
    Layout.HoldAll s' (layoutsFrom free fields) blocks' (records ++ [ws])
  own : Block.ownAll blocks' = Block.ownAll blocks
  step : s.Step (Block.ownAll blocks) s'
  conform : ∀ σ, s'.Agrees σ → Struct.Conform LeafType.Accepts σ fields free values
  known : ∀ slot, s'.Known slot ↔ s.Known slot ∨
    Struct.Meet (fun t free _ => t.dims.head? = some .strided ∧ free = slot) fields free values

namespace Struct

/-- The first field and the others write to different regions, so neither undoes the other. -/
theorem Wrote.cons {f : Field} {fields : List Field} {free : Nat} {left : Option Nat}
    {records : List (List Value)} {v : Value} {vs : List Value} {s s₁ s' : Store}
    {b b' : Block} {bs bs' : List Block} (hnodup : (Block.ownAll (b :: bs)).Nodup)
    (h : f.type.Wrote free left (records.map (·.headD default)) [v] s b s₁ b')
    (hrest : Wrote fields (free + f.type.strides) left (records.map List.tail) vs s₁ bs s' bs') :
    Wrote (f :: fields) free left records (v :: vs) s (b :: bs) s' (b' :: bs') := by
  obtain ⟨-, -, hdisj⟩ := List.nodup_append.mp hnodup
  have hdisj : ∀ i ∈ b'.own, i ∉ Block.ownAll bs := by
    rw [h.own]
    exact fun i hi hi' => hdisj i hi i hi' rfl
  obtain ⟨ws, hws, hopen⟩ := h.coerced
  obtain ⟨w, hw, rfl⟩ := mapM_singleton_eq_some.mp hws
  obtain ⟨ws, hws, hready, hholds⟩ := hrest.coerced
  refine ⟨⟨w :: ws, ?_, ?_, ?_⟩, ?_, ?_, fun σ hσ => ?_, fun slot => ?_⟩
  · rw [coerce_cons, hw, Option.bind_some, hws]
    rfl
  · rw [layoutsFrom_cons]
    exact ⟨hrest.step.ready hdisj hopen.ready, hready⟩
  · rw [layoutsFrom_cons]
    refine ⟨?_, ?_⟩
    · rw [List.map_append]
      exact hopen.holds.of_keeps (hrest.step.keeps hdisj)
    · rw [List.map_append]
      exact hholds
  · rw [Block.ownAll, Block.ownAll, h.own, hrest.own]
  · exact (h.step.mono fun i hi => List.mem_append_left _ hi).trans
      (hrest.step.mono fun i hi => List.mem_append_right _ hi)
  · exact conform_cons.mpr
      ⟨h.conforms σ (hσ.of_step hrest.step) v (List.mem_singleton_self v), hrest.conform σ hσ⟩
  · rw [hrest.known, h.known, meet_cons, or_assoc]
    simp only [List.mem_singleton, exists_eq_left]
    exact Iff.rfl

/-- Induction on the fields, each written to the first of the blocks that are still open. -/
theorem wrote_of_writeFields {fields : List Field} (hf : ∀ f ∈ fields, f.type.Advances) :
    ∀ {free : Nat} {left : Option Nat} {records : List (List Value)} {values : List Value}
      {s s' : Store} {blocks blocks' : List Block},
      Open fields free s blocks (left.map (· + 1)) records →
      free + strides fields ≤ s.extents.size → values.length = fields.length →
      (Layout.writeFields (layoutsFrom free fields) values blocks s).2 = .ok (s', blocks') →
      Wrote fields free left records values s blocks s' blocks' := by
  induction fields with
  | nil =>
    intro free left records values s s' blocks blocks' hopen _ hlen h
    obtain rfl := List.eq_nil_of_length_eq_zero hlen
    cases blocks with
    | cons b bs => exact hopen.ready.elim
    | nil =>
      obtain ⟨rfl, rfl⟩ := Prod.mk.inj (Except.ok.inj h)
      refine ⟨⟨[], rfl, trivial, trivial⟩, rfl, .refl _ _, fun _ _ => trivial, fun slot => ?_⟩
      exact ⟨.inl, fun h => h.elim id fun h => h.elim⟩
  | cons f fields ih =>
    intro free left records values s s' blocks blocks' hopen hslots hlen h
    obtain ⟨hfirst, hothers⟩ := List.forall_mem_cons.mp hf
    obtain ⟨b, bs, rfl, hfield, hbehind⟩ := hopen.cons
    rw [strides_cons] at hslots
    cases values with
    | nil => exact absurd hlen (by simp)
    | cons v vs =>
      rw [layoutsFrom_cons, Layout.writeFields_cons] at h
      obtain ⟨⟨s₁, b₁⟩, hv, h⟩ := bind_eq_ok.mp h
      obtain ⟨⟨s₂, bs₂⟩, hvs, h⟩ := map_eq_ok.mp h
      obtain ⟨rfl, rfl⟩ := Prod.mk.inj h
      have hwrote := hfirst hfield (by omega) hv
      exact Struct.Wrote.cons hopen.nodup hwrote (ih hothers (hbehind hwrote.step)
        (by rw [hwrote.step.slots]; omega) (Nat.succ.inj hlen) hvs)

end Struct

/-! ## Any instance -/

namespace ArrayType

/-- A record is written when its fields are. -/
theorem wrote_record {fields : List Field} {free : Nat} {left : Option Nat}
    {records : List (List Value)} {v : Value} {values : List Value} {s s' : Store}
    {blocks blocks' : List Block} (hvalues : v.record? fields = some values)
    (hlens : ∀ ws ∈ records, ws.length = (Struct.layoutsFrom free fields).length)
    (hnodup : (Block.struct blocks).own.Nodup)
    (h : Struct.Wrote fields free left records values s blocks s' blocks') :
    Wrote ⟨[], .struct fields⟩ free left
      (records.map fun ws => .dict ((Struct.names fields).zip ws)) [v] s (.struct blocks) s'
      (.struct blocks') := by
  obtain ⟨ws, hws, hready, hholds⟩ := h.coerced
  refine ⟨⟨[.dict ((Struct.names fields).zip ws)], ?_, ⟨_, rfl, hready⟩, ?_, ?_⟩, h.own, h.step,
    fun σ hσ x hx => ?_, fun slot => ?_⟩
  · have hcoerce : coerce ⟨[], .struct fields⟩ v = some (.dict ((Struct.names fields).zip ws)) := by
      show (v.record? fields).bind _ = _
      rw [hvalues, Option.bind_some, hws]
      rfl
    exact mapM_singleton_eq_some.mpr ⟨_, hcoerce, rfl⟩
  · refine ⟨_, records ++ [ws], rfl, by rw [List.map_append]; rfl, fun r hr => ?_, hholds⟩
    rcases List.mem_append.mp hr with hr | hr
    · exact hlens r hr
    · rw [List.mem_singleton.mp hr, Struct.length_coerce hws]
      exact (Struct.length_layoutsFrom fields free).symm
  · rw [Block.own, h.own]
    exact hnodup
  · rw [List.mem_singleton.mp hx]
    exact ⟨values, hvalues, h.conform σ hσ⟩
  · rw [h.known]
    simp only [List.mem_singleton, exists_eq_left, reaches_struct, hvalues, Option.some.injEq,
      exists_eq_left']

/-- **What is written successfully was coerced**, extents are as its conformance wants them, and no
other block has changed. The induction is on the type: dimensions from the outermost in, and at a
struct the fields. -/
theorem advances (t : ArrayType) : t.Advances := by
  induction t using ArrayType.induction with
  | scalar k =>
    intro free depth s b left vs v s' b' hopen _ h
    exact wrote_element rfl (fun _ => rfl) (fun _ a ha => ⟨a, rfl, ha⟩) (fun _ _ hr => by
      exact absurd hr.1 (by simp)) (fun _ _ => ScalarKind.kind_of_store) hopen h
  | string t =>
    intro free depth s b left vs v s' b' hopen _ h
    exact wrote_element rfl (fun _ => rfl) (fun _ a ha => ⟨a, rfl, ha⟩) (fun _ _ hr => by
      exact absurd hr.1 (by simp)) (fun _ _ => StringType.kind_of_store) hopen h
  | struct fields ih =>
    intro free depth s b left vs v s' b' hopen hslots h
    rw [strides_struct] at hslots
    obtain ⟨blocks, records, rfl, rfl, hlens, hfields⟩ := open_struct hopen
    obtain ⟨values, blocks', hvalues, hw, rfl⟩ := Layout.writeLeaf_struct_eq_ok h
    have hwrote := Struct.wrote_of_writeFields ih hfields hslots
      (Value.length_of_record? hvalues) hw
    exact wrote_record hvalues hlens hopen.nodup hwrote
  | dim d dims leaf ih =>
    intro free depth s b left vs v s' b' hopen hslots h
    rw [strides_cons] at hslots
    rw [layoutFrom_cons] at h
    cases d with
    | fixed n =>
      obtain ⟨xs, hxs, hlen⟩ := Layout.items_of_writeFrom_fixed h
      rw [Dimension.place, Layout.writeFrom_fixed hxs hlen] at h
      obtain ⟨kids, rfl, hkids, hinner⟩ := open_fixed hlen hopen
      have hwrote := ih.wrote hinner (by simp only [Dimension.slots] at hslots; omega) h
      exact Wrote.regular rfl hxs (fun _ _ => hlen) (by rw [hlen]; rfl) (.refl [] s)
        (fun slot => by simp) hkids id hwrote
    | strided =>
      obtain ⟨hv, xs, hxs, hsettled⟩ := Layout.items_of_writeFrom_strided h
      rw [Dimension.place, Layout.writeFrom_strided hv hxs hsettled] at h
      simp only [Dimension.slots] at hslots
      have hslot : free < s.extents.size := by omega
      obtain ⟨-, hstep, hextent, hothers⟩ := Store.settle_spec hslot hsettled
      obtain ⟨kids, rfl, hkids, hinner⟩ := open_strided hslot hsettled hopen
      have hwrote := ih.wrote hinner (by rw [hstep.slots]; omega) h
      have hextent' := hwrote.step.extents (.strided free) _ hextent
      refine Wrote.regular rfl hxs (fun σ hσ => ⟨hv, (hσ free _ hextent').symm⟩) hextent' hstep
        (fun slot => ?_) hkids id hwrote
      by_cases hslot : slot = free
      · simp [Store.Known, hslot, hextent]
      · simp [Store.Known, hothers slot hslot, Ne.symm hslot]
    | var =>
      obtain ⟨rows, rfl⟩ := hopen.ready
      obtain ⟨xs, hxs⟩ := Layout.items_of_writeFrom_var h
      rw [Dimension.place, Layout.writeFrom_var hxs] at h
      obtain ⟨rows', kids, hrows, rfl, hkids⟩ := hopen.holds
      exact Wrote.row ih hxs hopen.holds (by simp only [Dimension.slots] at hslots; omega) h

end ArrayType

end Ragged
