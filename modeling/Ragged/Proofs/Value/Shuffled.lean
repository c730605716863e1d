import Ragged.Proofs.Shape.Covering
import Ragged.Proofs.Value.Layers
import Mathlib.Data.List.Perm.Basic

/-!
# Siblings in another order

A value is shuffled by putting the elements of its containers into another order, and the entries of
its mappings, at any depth. Layers say nothing of who is whose sibling, so what a shuffle does to them
is that

> at each depth there are the same values as before, each shuffled for its part
> (`Value.Shuffled.within`), and columns of the same name are shuffled like that too
> (`Layers.within_column`).

What some layers have can also be part of what others have, and the same relation says so:
`Layers.Within` is shuffled or not, and has no regard for how often a value is there.
-/

set_option autoImplicit false

namespace Ragged

/-- The values are one but for the order of elements and of entries. -/
inductive Value.Shuffled : Value → Value → Prop where
  | atom (a : Atom) : Shuffled (.atom a) (.atom a)
  /-- The elements are shuffled each for its part, and then they change places. -/
  | elements {v w : Value} {xs changed ys : List Value} (hxs : v.items? = some xs)
      (hys : w.items? = some ys) (hkind : v.isIterator = w.isIterator)
      (hchanged : List.Forall₂ Shuffled xs changed) (hperm : changed.Perm ys) : Shuffled v w
  | dict {entries entries' : List (String × Value)}
      (hkeys : ∀ key, key ∈ Entries.keys entries ↔ key ∈ Entries.keys entries')
      (hvalues : ∀ key x y, Entries.get? entries key = some x → Entries.get? entries' key = some y →
        Shuffled x y) : Shuffled (.dict entries) (.dict entries')

namespace Value.Shuffled

variable {v w : Value}

/-! ## What a shuffle leaves -/

theorem of_atom {a : Atom} (h : (Value.atom a).Shuffled w) : w = .atom a := by
  cases h with
  | atom => rfl
  | elements hxs => exact absurd hxs (by simp [items?])

theorem of_items? {xs : List Value} (h : v.Shuffled w) (hxs : v.items? = some xs) :
    ∃ changed ys, w.items? = some ys ∧ v.isIterator = w.isIterator ∧
      List.Forall₂ Shuffled xs changed ∧ changed.Perm ys := by
  cases h with
  | atom => exact absurd hxs (by simp [items?])
  | dict => exact absurd hxs (by simp [items?])
  | elements hxs' hys hkind hchanged hperm =>
    obtain rfl := Option.some.inj (hxs'.symm.trans hxs)
    exact ⟨_, _, hys, hkind, hchanged, hperm⟩

theorem of_dict {entries : List (String × Value)} (h : (Value.dict entries).Shuffled w) :
    ∃ entries', w = .dict entries' ∧
      (∀ key, key ∈ Entries.keys entries ↔ key ∈ Entries.keys entries') ∧
      ∀ key x y, Entries.get? entries key = some x → Entries.get? entries' key = some y →
        x.Shuffled y := by
  cases h with
  | elements hxs => exact absurd hxs (by simp [items?])
  | dict hkeys hvalues => exact ⟨_, rfl, hkeys, hvalues⟩

/-- Leaves stay leaves. -/
theorem items?_eq_none_iff (h : v.Shuffled w) : v.items? = none ↔ w.items? = none := by
  cases h with
  | atom => exact Iff.rfl
  | dict => exact Iff.rfl
  | elements hxs hys => simp [hxs, hys]

/-- Containers keep their lengths. -/
theorem length_items (h : v.Shuffled w) {xs : List Value} (hxs : v.items? = some xs) :
    ∃ ys, w.items? = some ys ∧ ys.length = xs.length := by
  obtain ⟨changed, ys, hys, -, hchanged, hperm⟩ := h.of_items? hxs
  exact ⟨ys, hys, hperm.length_eq.symm.trans hchanged.length_eq.symm⟩

theorem isIterator (h : v.Shuffled w) : v.isIterator = w.isIterator := by
  cases h with
  | atom => rfl
  | dict => rfl
  | elements _ _ hkind => exact hkind

theorem refl (v : Value) : v.Shuffled v := by
  induction v using Value.inductElements with
  | atom a => exact .atom a
  | dict entries ih =>
    refine .dict (fun _ => Iff.rfl) fun key x y hx hy => ?_
    obtain rfl := Option.some.inj (hx.symm.trans hy)
    exact ih (key, x) (Entries.mem_of_get? hx)
  | elements v xs hxs ih =>
    exact .elements hxs hxs rfl (List.forall₂_same.mpr ih) (.refl xs)

theorem symm : ∀ {w : Value}, v.Shuffled w → w.Shuffled v := by
  induction v using Value.inductElements with
  | atom a =>
    intro w h
    obtain rfl := h.of_atom
    exact .atom a
  | dict entries ih =>
    intro w h
    obtain ⟨entries', rfl, hkeys, hvalues⟩ := h.of_dict
    refine .dict (fun key => (hkeys key).symm) fun key y x hy hx => ?_
    exact ih (key, x) (Entries.mem_of_get? hx) (hvalues key x y hx hy)
  | elements v xs hxs ih =>
    intro w h
    obtain ⟨changed, ys, hys, hkind, hchanged, hperm⟩ := h.of_items? hxs
    -- the elements change places back, and then each of them is shuffled back
    have hback : List.Forall₂ (fun y x => y.Shuffled x) changed xs := by
      have hboth := (List.forall₂_and_left xs changed).mpr ⟨ih, hchanged⟩
      exact (hboth.imp fun _ _ h => h.1 h.2).flip
    obtain ⟨placed, hplaced, hperm'⟩ := List.perm_comp_forall₂ hperm.symm hback
    exact .elements hys hxs hkind.symm hplaced hperm'

/-- Each element is there after the shuffle. -/
theorem exists_of_mem (h : v.Shuffled w) {xs : List Value} (hxs : v.items? = some xs) :
    ∃ ys, w.items? = some ys ∧ ∀ x ∈ xs, ∃ y ∈ ys, x.Shuffled y := by
  obtain ⟨changed, ys, hys, -, hchanged, hperm⟩ := h.of_items? hxs
  refine ⟨ys, hys, fun x hx => ?_⟩
  obtain ⟨y, hy, hxy⟩ := exists_of_forall₂ hchanged x hx
  exact ⟨y, hperm.mem_iff.mp hy, hxy⟩

/-- And so is each entry, under its key. -/
theorem exists_of_entry? (h : v.Shuffled w) {key : String} {x : Value}
    (hx : v.entry? key = some x) : ∃ y, w.entry? key = some y ∧ x.Shuffled y := by
  cases v with
  | dict entries =>
    obtain ⟨entries', rfl, hkeys, hvalues⟩ := h.of_dict
    obtain ⟨y, hy⟩ := Entries.mem_keys_iff.mp ((hkeys key).mp (Entries.mem_keys_iff.mpr ⟨x, hx⟩))
    exact ⟨y, hy, hvalues key x y hx hy⟩
  | _ => exact absurd hx (by simp [Value.entry?])

end Value.Shuffled

/-! ## Layers in layers -/

namespace Layers

/-- Whatever the first layers have, the others have too, though it may be shuffled there. -/
def Within (L L' : Layers) : Prop := ∀ k, ∀ w ∈ L k, ∃ w' ∈ L' k, w.Shuffled w'

variable {L L' : Layers} {vs ws : List Value}

theorem within_of_subset (h : ∀ k, ∀ w ∈ L k, w ∈ L' k) : L.Within L' :=
  fun k w hw => ⟨w, h k w hw, .refl w⟩

theorem within_add (L : Layers) (depth : Nat) (vs : List Value) : L.Within (L.add depth vs) :=
  within_of_subset fun _ _ => mem_add

/-- Values shuffled have shuffled values inside. -/
theorem within_of (h : ∀ v ∈ vs, ∃ w ∈ ws, v.Shuffled w) : (of vs).Within (of ws) := by
  intro k
  induction k generalizing vs ws with
  | zero => exact h
  | succ k ih =>
    refine ih fun x hx => ?_
    obtain ⟨v, hv, hx⟩ := List.mem_flatMap.mp hx
    obtain ⟨w, hw, hvw⟩ := h v hv
    cases hxs : v.items? with
    | none => simp [hxs] at hx
    | some xs =>
      rw [hxs] at hx
      obtain ⟨ys, hys, hall⟩ := hvw.exists_of_mem hxs
      obtain ⟨y, hy, hxy⟩ := hall x hx
      exact ⟨y, List.mem_flatMap.mpr ⟨w, hw, by rwa [hys]⟩, hxy⟩

theorem within_column (h : L.Within L') (key : String) (depth : Nat) :
    (of (column key (L depth))).Within (of (column key (L' depth))) := by
  refine within_of fun x hx => ?_
  obtain ⟨v, hv, hx⟩ := mem_column.mp hx
  obtain ⟨w, hw, hvw⟩ := h depth v hv
  obtain ⟨y, hy, hxy⟩ := hvw.exists_of_entry? hx
  exact ⟨y, mem_column.mpr ⟨w, hw, hy⟩, hxy⟩

end Layers

theorem Value.Shuffled.within {v w : Value} (h : v.Shuffled w) :
    (Layers.of [v]).Within (Layers.of [w]) :=
  Layers.within_of fun _ hx => ⟨w, List.mem_singleton_self w, List.mem_singleton.mp hx ▸ h⟩

end Ragged
