import Ragged.Proofs.Layout.Acceptance

/-!
# Writing a whole array

An array is one instance of its type, written into a block for just one. The two halves of the write
pass say what comes of it (`written_of_write`, `write_of_conforms`), and together which values can be
written at a type:

> just those that conform to it with some assignment of extents, and the extents that are kept are
> these, for the dimensions that the value reaches, and none for the others.
-/

set_option autoImplicit false

namespace Ragged

/-- What is stored, with the extents found. -/
def Contents.store (c : Contents) : Store := ⟨c.arena, c.extents⟩

/-- The extents found as an assignment to all slots. -/
def Contents.assigned (c : Contents) (slot : Nat) : Nat := (c.extents.getD slot none).getD 0

theorem Contents.agrees_assigned (c : Contents) : c.store.Agrees c.assigned := by
  intro slot n hn
  have hn : c.extents.getD slot none = some n := hn
  rw [assigned, hn, Option.getD_some]

namespace ArrayType

/-- The contents are those of an array of the type that was written from the value. -/
structure Written (t : ArrayType) (v : Value) (c : Contents) : Prop where
  coerced : ∃ w, t.coerce v = some w ∧ t.layout.Holds c.store c.root [w]
  frozen : Layout.Frozen c.arena c.root.own
  slots : c.extents.size = t.strides
  conforms : ∀ σ, c.store.Agrees σ → t.Conforms LeafType.Accepts σ 0 v
  known : ∀ slot, c.store.Known slot ↔ t.Reaches 0 slot v

section Write

variable {t : ArrayType} {growth : GrowthPolicy} {v : Value}

/-- The slots before anything is written. -/
theorem getD_replicate_none (n slot : Nat) :
    (Array.replicate n (none : Option Nat)).getD slot none = none := by
  rw [Array.getD_eq_getD_getElem?, Array.getElem?_replicate]
  split <;> rfl

/-- The store and the block that an array is written into. -/
def start (t : ArrayType) (growth : GrowthPolicy) : Store × Block :=
  t.layout.allocate ⟨{ policy := growth }, Array.replicate t.slots none⟩ (.exact 1)

/-- An array is written into its block, and the block is frozen. -/
theorem write_eq_start (t : ArrayType) (growth : GrowthPolicy) (v : Value) :
    (t.write growth v).2 =
      match (t.layout.writeFrom 0 v (t.start growth).1 (t.start growth).2).2 with
      | .error e => .error e
      | .ok (s, block) =>
        match s.freeze block with
        | .error e => .error e
        | .ok s => .ok ⟨block, s.arena, s.extents⟩ := by
  rw [← Layout.write_eq_writeFrom]
  rfl

/-- An array is written into a block that is open for its one instance, and no extent is known
before. -/
theorem write_eq (t : ArrayType) (growth : GrowthPolicy) :
    ∃ (s : Store) (b : Block), (t.layoutFrom 0).Open s b ((some 0).map (· + 1)) [] ∧
      s.extents.size = t.strides ∧ (∀ slot, s.extents.getD slot none = none) ∧
      ∀ v, (t.write growth v).2 =
        match ((t.layoutFrom 0).writeFrom 0 v s b).2 with
        | .error e => .error e
        | .ok (s, block) =>
          match s.freeze block with
          | .error e => .error e
          | .ok s => .ok ⟨block, s.arena, s.extents⟩ := by
  have hfresh := t.layout.fresh_allocate ⟨{ policy := growth }, Array.replicate t.slots none⟩
    (.exact 1) fun _ _ slot => getD_replicate_none t.slots slot
  refine ⟨_, _, hfresh.isOpen, ?_, fun slot => ?_, fun v => ?_⟩
  · rw [hfresh.extents, Array.size_replicate, slots_eq]
  · rw [hfresh.extents, getD_replicate_none]
  · rw [← layout_eq]
    exact t.write_eq_start growth v

/-- **What a successful write leaves behind.** -/
theorem written_of_write {c : Contents} (h : (t.write growth v).2 = .ok c) : t.Written v c := by
  obtain ⟨s, b, hopen, hsize, hunknown, hwrite⟩ := t.write_eq growth
  rw [hwrite] at h
  have hslots : 0 + t.strides ≤ s.extents.size := by omega
  cases hw : ((t.layoutFrom 0).writeFrom 0 v s b).2 with
  | error e => simp only [hw] at h; exact absurd h (by simp)
  | ok r =>
    obtain ⟨s₁, b₁⟩ := r
    have hwrote := t.advances hopen hslots hw
    obtain ⟨ws, hws, hopen₁⟩ := hwrote.coerced
    obtain ⟨w, hcoerce, rfl⟩ := mapM_singleton_eq_some.mp hws
    -- nothing is left for the root, so it can be frozen
    obtain ⟨s₂, hfreeze, hfrozen⟩ := Layout.freezes_of_ready _ hopen₁.ready
      (fun n hn => (Option.some.inj hn).symm) hopen₁.nodup
    simp only [hw, hfreeze] at h
    obtain rfl := Except.ok.inj h
    refine ⟨⟨w, hcoerce, hopen₁.holds.of_keeps (hfrozen.keeps _)⟩, hfrozen.done, ?_,
      fun σ hσ => ?_, fun slot => ?_⟩
    · show s₂.extents.size = t.strides
      rw [hfrozen.extents, hwrote.step.slots, hsize]
    · exact hwrote.conforms σ (hσ.of_step hfrozen.step) v (List.mem_singleton_self v)
    · have hafter : (Contents.store ⟨b₁, s₂.arena, s₂.extents⟩).Known slot ↔ s₁.Known slot := by
        rw [Store.Known, Store.Known, ← hfrozen.extents]
        exact Iff.rfl
      have hbefore : ¬s.Known slot := by
        rw [Store.Known, hunknown]
        exact fun h => absurd h (by simp)
      rw [hafter, hwrote.known, or_iff_right hbefore]
      simp

/-- **A conforming value is written**, unless a leaf refuses one of its scalars. -/
theorem write_of_conforms {accepts : LeafType → Atom → Prop} {σ : Nat → Nat}
    (h : t.Conforms accepts σ 0 v) :
    (∃ c, (t.write growth v).2 = .ok c ∧ c.store.Agrees σ) ∨
      ∃ e leaf a, (t.write growth v).2 = .error e ∧ accepts leaf a ∧ leaf.store a = .error e := by
  obtain ⟨s, b, hopen, hsize, hunknown, hwrite⟩ := t.write_eq growth
  have hslots : 0 + t.strides ≤ s.extents.size := by omega
  have hagrees : s.Agrees σ := by
    intro slot n hn
    rw [hunknown] at hn
    exact absurd hn (by simp)
  have hends : Store.Ends accepts σ ((t.layoutFrom 0).writeFrom 0 v s b).2 :=
    t.accepted hopen hslots hagrees h
  rw [hwrite]
  cases hw : ((t.layoutFrom 0).writeFrom 0 v s b).2 with
  | error e =>
    rw [hw] at hends
    obtain ⟨leaf, a, ha, hstore⟩ := hends
    exact .inr ⟨e, leaf, a, rfl, ha, hstore⟩
  | ok r =>
    obtain ⟨s₁, b₁⟩ := r
    rw [hw] at hends
    obtain ⟨ws, -, hopen₁⟩ := (t.advances hopen hslots hw).coerced
    obtain ⟨s₂, hfreeze, hfrozen⟩ := Layout.freezes_of_ready _ hopen₁.ready
      (fun n hn => (Option.some.inj hn).symm) hopen₁.nodup
    simp only [hfreeze]
    refine .inl ⟨_, rfl, fun slot n hn => ?_⟩
    have hn : s₂.extents.getD slot none = some n := hn
    rw [hfrozen.extents] at hn
    exact hends slot n hn

/-- A value that conforms with what the leaves store is written. -/
theorem write_of_accepted {σ : Nat → Nat} (h : t.Conforms LeafType.Accepts σ 0 v) :
    ∃ c, (t.write growth v).2 = .ok c ∧ c.store.Agrees σ := by
  rcases write_of_conforms h with h | ⟨e, leaf, a, -, ⟨stored, hstored⟩, hrefused⟩
  · exact h
  · exact absurd (hstored.symm.trans hrefused) (by simp)

theorem exists_write_iff :
    (∃ c, (t.write growth v).2 = .ok c) ↔ ∃ σ, t.Conforms LeafType.Accepts σ 0 v := by
  constructor
  · rintro ⟨c, hc⟩
    exact ⟨c.assigned, (written_of_write hc).conforms _ c.agrees_assigned⟩
  · rintro ⟨σ, hσ⟩
    obtain ⟨c, hc, -⟩ := write_of_accepted hσ
    exact ⟨c, hc⟩

/-- The extents found are those of the dimensions reached, so two values leave the same ones if they
conform alike and reach alike, whatever the arenas grow by. -/
theorem extents_eq_of_write {growth' : GrowthPolicy} {v' : Value} {c c' : Contents}
    (h : (t.write growth v).2 = .ok c) (h' : (t.write growth' v').2 = .ok c')
    (hconforms : ∀ σ, t.Conforms LeafType.Accepts σ 0 v → t.Conforms LeafType.Accepts σ 0 v')
    (hreaches : ∀ slot, t.Reaches 0 slot v' ↔ t.Reaches 0 slot v) : c.extents = c'.extents := by
  have hwritten := written_of_write h
  have hwritten' := written_of_write h'
  -- the second value conforms with the extents found of the first, so these are found of it
  obtain ⟨c'', hc'', hagrees⟩ := @write_of_accepted t growth' v' _
    (hconforms _ (hwritten.conforms _ c.agrees_assigned))
  obtain rfl : c'' = c' := Except.ok.inj (hc''.symm.trans h')
  have hknown : ∀ slot, c.store.Known slot ↔ c''.store.Known slot := by
    intro slot
    rw [hwritten.known, hwritten'.known, hreaches]
  have hsame : ∀ slot, c.extents.getD slot none = c''.extents.getD slot none := by
    intro slot
    have hslot : (c.extents.getD slot none).isSome ↔ (c''.extents.getD slot none).isSome :=
      hknown slot
    cases hn : c.extents.getD slot none with
    | none =>
      rw [hn] at hslot
      cases hn' : c''.extents.getD slot none with
      | none => rfl
      | some n' => rw [hn'] at hslot; exact absurd (hslot.mpr rfl) (by simp)
    | some n =>
      rw [hn] at hslot
      obtain ⟨n', hn'⟩ := Option.isSome_iff_exists.mp (hslot.mp rfl)
      rw [hn', ← hagrees slot n' hn', c.agrees_assigned slot n hn]
  apply Array.ext
  · rw [hwritten.slots, hwritten'.slots]
  · intro slot hlt hlt'
    have h := hsame slot
    rw [Array.getD_eq_getD_getElem?, Array.getD_eq_getD_getElem?, Array.getElem?_eq_getElem hlt,
      Array.getElem?_eq_getElem hlt'] at h
    exact h

end Write

/-- **The values that can be written at a type are those that conform to it**, and the extents that
are kept are the assigned ones of the dimensions reached. -/
theorem write_ok_iff_conforms (t : ArrayType) (growth : GrowthPolicy) (v : Value) :
    ((∃ c, (t.write growth v).2 = .ok c) ↔ ∃ σ, t.Conforms LeafType.Accepts σ 0 v) ∧
      ∀ c, (t.write growth v).2 = .ok c → c.extents.size = t.strides ∧
        ∀ σ, t.Conforms LeafType.Accepts σ 0 v → ∀ slot, slot < t.strides →
          (t.Reaches 0 slot v → c.extents[slot]? = some (some (σ slot))) ∧
            (¬t.Reaches 0 slot v → c.extents[slot]? = some none) := by
  refine ⟨exists_write_iff, ?_⟩
  intro c hc
  have hwritten := written_of_write hc
  refine ⟨hwritten.slots, fun σ hσ slot hslot => ?_⟩
  obtain ⟨c', hc', hagrees⟩ := @write_of_accepted t growth v σ hσ
  obtain rfl : c' = c := Except.ok.inj (hc'.symm.trans hc)
  have hlt : slot < c'.extents.size := by rw [hwritten.slots]; exact hslot
  have hgetD : c'.extents.getD slot none = c'.extents[slot] := by
    rw [Array.getD_eq_getD_getElem?, Array.getElem?_eq_getElem hlt, Option.getD_some]
  have hknown : c'.extents[slot].isSome ↔ t.Reaches 0 slot v := by
    rw [← hwritten.known, Store.Known, ← hgetD]
    exact Iff.rfl
  rw [Array.getElem?_eq_getElem hlt]
  refine ⟨fun hreach => ?_, fun hreach => ?_⟩
  · obtain ⟨n, hn⟩ := Option.isSome_iff_exists.mp (hknown.mpr hreach)
    rw [hn, hagrees slot n (hgetD.trans hn)]
  · rw [Option.not_isSome_iff_eq_none.mp fun hsome => hreach (hknown.mp hsome)]

end ArrayType

end Ragged
