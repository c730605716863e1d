import Ragged.Proofs.Shape.Covering
import Ragged.Proofs.Shape.Lookahead
import Ragged.Proofs.Type.Coercion
import Ragged.Proofs.Value.Contained

/-!
# Mappings in another order

The entries of a mapping stand in some order, and what is made of the mapping at a struct type does
not depend on it. `Value.Reordered` says that two values are one but for that, in mappings at any
depth, below lists as below lazy sources:

> values that are one but for the order of entries offer the same elements, and the same values for
> the fields of a record, up to the order of entries in these.

A field takes the value under its name, and that there is only one is what `Value.DistinctKeys` is
for. From elements and fields it goes on to all that is said by going down a type, and to the survey
of first elements, which does not look into mappings at all. A survey that looks at everything is
left out: it declares the fields in the order of the first mapping it meets.
-/

set_option autoImplicit false

namespace Ragged

/-- The values are one but for the order of the entries of mappings. -/
inductive Value.Reordered : Value → Value → Prop where
  | atom (a : Atom) : Reordered (.atom a) (.atom a)
  | list {xs ys : List Value} (h : List.Forall₂ Reordered xs ys) : Reordered (.list xs) (.list ys)
  | tuple {xs ys : List Value} (h : List.Forall₂ Reordered xs ys) :
      Reordered (.tuple xs) (.tuple ys)
  /-- The values of the entries are reordered, and then the entries themselves. -/
  | dict {entries changed reordered : List (String × Value)}
      (hkeys : Entries.keys entries = Entries.keys changed)
      (hvalues : List.Forall₂ Reordered (entries.map Prod.snd) (changed.map Prod.snd))
      (hperm : changed.Perm reordered) : Reordered (.dict entries) (.dict reordered)
  | iter {source source' : Pull Value} (hlabel : source.label = source'.label)
      (hpulled : source.pulled = source'.pulled) (hended : source.ended = source'.ended)
      (htaken : List.Forall₂ Reordered source.taken source'.taken)
      (hreplay : List.Forall₂ Reordered source.replay source'.replay)
      (hpending : List.Forall₂ Reordered source.pending.toList source'.pending.toList) :
      Reordered (.iter source) (.iter source')

/-! ## Related answers -/

section Related

variable {α β γ δ : Type} {R : α → β → Prop} {T : γ → δ → Prop}

theorem rel_cases {x : Option α} {y : Option β} (h : Option.Rel R x y) :
    (x = none ∧ y = none) ∨ ∃ a b, x = some a ∧ y = some b ∧ R a b := by
  cases h with
  | none => exact .inl ⟨rfl, rfl⟩
  | some hab => exact .inr ⟨_, _, rfl, rfl, hab⟩

theorem rel_mapM {f : γ → Option α} {g : γ → Option β} {xs : List γ}
    (h : ∀ x ∈ xs, Option.Rel R (f x) (g x)) :
    Option.Rel (List.Forall₂ R) (xs.mapM f) (xs.mapM g) := by
  induction xs with
  | nil => exact .some .nil
  | cons x xs ih =>
    obtain ⟨hx, hxs⟩ := List.forall_mem_cons.mp h
    rw [List.mapM_cons, List.mapM_cons]
    rcases rel_cases hx with ⟨hf, hg⟩ | ⟨a, b, hf, hg, hab⟩
    · rw [hf, hg]
      exact .none
    · rw [hf, hg]
      rcases rel_cases (ih hxs) with ⟨hf, hg⟩ | ⟨as, bs, hf, hg, hall⟩
      · rw [hf, hg]
        exact .none
      · rw [hf, hg]
        exact .some (.cons hab hall)

theorem mapM_eq_of_forall₂ {f : α → Option γ} {g : β → Option γ} {xs : List α} {ys : List β}
    (h : List.Forall₂ R xs ys) (hfg : ∀ x y, R x y → f x = g y) : xs.mapM f = ys.mapM g := by
  induction h with
  | nil => rfl
  | cons hxy _ ih => rw [List.mapM_cons, List.mapM_cons, hfg _ _ hxy, ih]

theorem forall_mem_iff_of_forall₂ {p : α → Prop} {q : β → Prop} {xs : List α} {ys : List β}
    (h : List.Forall₂ R xs ys) (hpq : ∀ x y, R x y → (p x ↔ q y)) :
    (∀ x ∈ xs, p x) ↔ ∀ y ∈ ys, q y := by
  induction h with
  | nil => simp
  | cons hxy _ ih => rw [List.forall_mem_cons, List.forall_mem_cons, hpq _ _ hxy, ih]

theorem exists_mem_iff_of_forall₂ {p : α → Prop} {q : β → Prop} {xs : List α} {ys : List β}
    (h : List.Forall₂ R xs ys) (hpq : ∀ x y, R x y → (p x ↔ q y)) :
    (∃ x ∈ xs, p x) ↔ ∃ y ∈ ys, q y := by
  induction h with
  | nil => simp
  | cons hxy _ ih => rw [List.exists_mem_cons_iff, List.exists_mem_cons_iff, hpq _ _ hxy, ih]

namespace Entries

/-- Under distinct keys a value is found just where it stands. -/
theorem get?_eq_some_iff {entries : List (String × α)} (h : (keys entries).Nodup) {key : String}
    {value : α} : get? entries key = some value ↔ (key, value) ∈ entries :=
  ⟨mem_of_get?, get?_of_mem h⟩

theorem get?_of_perm {entries entries' : List (String × α)} (hperm : entries.Perm entries')
    (h : (keys entries).Nodup) (key : String) : get? entries key = get? entries' key := by
  have h' : (keys entries').Nodup := (hperm.map Prod.fst).nodup_iff.mp h
  apply Option.ext
  intro value
  rw [get?_eq_some_iff h, get?_eq_some_iff h', hperm.mem_iff]

/-- Of mappings with the same keys and related values what is found is related. -/
theorem rel_get? {entries : List (String × α)} :
    ∀ {entries' : List (String × β)}, keys entries = keys entries' →
      List.Forall₂ R (entries.map Prod.snd) (entries'.map Prod.snd) → ∀ key,
        Option.Rel R (get? entries key) (get? entries' key) := by
  induction entries with
  | nil =>
    intro entries' hkeys _ key
    obtain rfl : entries' = [] := List.map_eq_nil_iff.mp hkeys.symm
    exact .none
  | cons e rest ih =>
    intro entries' hkeys hvalues key
    cases entries' with
    | nil => exact absurd hkeys (by simp [keys])
    | cons e' rest' =>
      obtain ⟨k, x⟩ := e
      obtain ⟨k', y⟩ := e'
      obtain ⟨hk, hrest⟩ := List.cons.inj hkeys
      obtain rfl : k = k' := hk
      obtain ⟨hxy, hall⟩ := List.forall₂_cons.mp hvalues
      rw [get?, get?, List.lookup_cons, List.lookup_cons]
      cases key == k with
      | true => exact .some hxy
      | false => exact ih hrest hall key

end Entries

end Related

namespace Value

/-! ## What reordered values offer -/

namespace Reordered

variable {v w : Value}

theorem items? (h : v.Reordered w) : Option.Rel (List.Forall₂ Reordered) v.items? w.items? := by
  cases h with
  | atom a => exact .none
  | dict => exact .none
  | list h | tuple h => exact .some h
  | iter _ _ _ _ hreplay hpending => exact .some (List.rel_append hreplay hpending)

theorem isIterator (h : v.Reordered w) : v.isIterator = w.isIterator := by
  cases h <;> rfl

theorem atom? (h : v.Reordered w) : v.atom? = w.atom? := by
  cases h <;> rfl

/-- Each field has a value in both or in neither. -/
theorem record? (h : v.Reordered w) (hkeys : v.DistinctKeys) (fields : Struct) :
    Option.Rel (List.Forall₂ Reordered) (v.record? fields) (w.record? fields) := by
  rcases rel_cases h.items? with ⟨hv, hw⟩ | ⟨xs, ys, hv, hw, hall⟩
  · cases h with
    | atom a => exact .none
    | @dict entries changed reordered hkeys' hvalues hperm =>
      have hnodup : (Entries.keys changed).Nodup := hkeys' ▸ (distinctKeys_dict_iff.mp hkeys).1
      have hget : Entries.get? reordered = Entries.get? changed :=
        funext fun key => (Entries.get?_of_perm hperm hnodup key).symm
      have hmem : ∀ key, key ∈ Entries.keys entries ↔ key ∈ Entries.keys reordered := by
        intro key
        rw [hkeys', Entries.keys, Entries.keys, (hperm.map Prod.fst).mem_iff]
      simp only [Value.record?, hget, hmem]
      split
      · exact rel_mapM fun name _ => Entries.rel_get? hkeys' hvalues name
      · exact .none
    | list | tuple | iter => exact absurd hv (by simp [Value.items?])
  · rw [record?_of_items? hv, record?_of_items? hw, hall.length_eq]
    split
    · exact .some hall
    · exact .none

end Reordered

/-- The values are one but for the order of entries, and no key comes twice. -/
def SameRecords (v w : Value) : Prop := v.DistinctKeys ∧ v.Reordered w

namespace SameRecords

variable {v w : Value}

theorem items_cases (h : v.SameRecords w) : (v.items? = none ∧ w.items? = none) ∨
    ∃ xs ys, v.items? = some xs ∧ w.items? = some ys ∧ List.Forall₂ SameRecords xs ys := by
  rcases rel_cases h.2.items? with hnone | ⟨xs, ys, hxs, hys, hall⟩
  · exact .inl hnone
  · exact .inr ⟨xs, ys, hxs, hys, (List.forall₂_and_left _ _).mpr ⟨(distinctKeys_iff_of_items? hxs).mp h.1, hall⟩⟩

theorem record_cases (h : v.SameRecords w) (fields : Struct) :
    (v.record? fields = none ∧ w.record? fields = none) ∨
      ∃ values values', v.record? fields = some values ∧ w.record? fields = some values' ∧
        List.Forall₂ SameRecords values values' := by
  rcases rel_cases (h.2.record? h.1 fields) with hnone | ⟨xs, ys, hxs, hys, hall⟩
  · exact .inl hnone
  · exact .inr ⟨xs, ys, hxs, hys, (List.forall₂_and_left _ _).mpr ⟨h.1.record hxs, hall⟩⟩

theorem atom_iff (h : v.SameRecords w) (a : Atom) : v = .atom a ↔ w = .atom a := by
  obtain ⟨-, h⟩ := h
  cases h with
  | atom b => exact Iff.rfl
  | list | tuple | dict | iter => simp

end SameRecords

end Value

/-! ## Going down a type -/

namespace ArrayType

variable {accepts : LeafType → Atom → Prop} {σ : Nat → Nat}

/-- **A type makes the same of a record in whatever order its entries are.** -/
theorem coerce_of_sameRecords (t : ArrayType) :
    ∀ {v w : Value}, v.SameRecords w → t.coerce v = t.coerce w := by
  induction t using ArrayType.induction with
  | scalar k | string s =>
    intro v w h
    show v.atom?.bind _ = w.atom?.bind _
    rw [h.2.atom?]
  | struct fields ih =>
    intro v w h
    rw [coerce_struct, coerce_struct]
    rcases h.record_cases fields with ⟨hv, hw⟩ | ⟨values, values', hv, hw, hall⟩
    · rw [hv, hw]
    · rw [hv, hw, Option.bind_some, Option.bind_some,
        mapM_eq_of_forall₂ (Struct.forall₂_parts hall) ?_]
      rintro _ _ ⟨f, hf, free, x, y, rfl, rfl, hxy⟩
      exact ih f hf hxy
  | dim d dims leaf ih =>
    intro v w h
    rw [coerce_cons, coerce_cons]
    rcases h.items_cases with ⟨hv, hw⟩ | ⟨xs, ys, hv, hw, hall⟩
    · rw [hv, hw]
    · rw [hv, hw, Option.bind_some, Option.bind_some, mapM_eq_of_forall₂ hall fun x y hxy => ih hxy]

/-- **And it conforms or not in whatever order they are.** -/
theorem conforms_of_sameRecords (t : ArrayType) : ∀ {free : Nat} {v w : Value},
    v.SameRecords w → (t.Conforms accepts σ free v ↔ t.Conforms accepts σ free w) := by
  induction t using ArrayType.induction with
  | scalar k | string s =>
    intro free v w h
    exact exists_congr fun a => and_congr_left fun _ => h.atom_iff a
  | struct fields ih =>
    intro free v w h
    rw [conforms_struct, conforms_struct]
    rcases h.record_cases fields with ⟨hv, hw⟩ | ⟨values, values', hv, hw, hall⟩
    · simp [hv, hw]
    · simp only [hv, hw, Option.some.injEq, exists_eq_left']
      refine forall_mem_iff_of_forall₂ (Struct.forall₂_parts hall) ?_
      rintro _ _ ⟨f, hf, free', x, y, rfl, rfl, hxy⟩
      exact ih f hf hxy
  | dim d dims leaf ih =>
    intro free v w h
    rw [conforms_cons, conforms_cons]
    rcases h.items_cases with ⟨hv, hw⟩ | ⟨xs, ys, hv, hw, hall⟩
    · simp [hv, hw]
    · simp only [hv, hw, Option.some.injEq, exists_eq_left', h.2.isIterator, hall.length_eq]
      exact and_congr_right fun _ => forall_mem_iff_of_forall₂ hall fun x y hxy => ih hxy

/-- Nor does it matter to which strided dimensions are reached. -/
theorem reaches_of_sameRecords (t : ArrayType) {slot : Nat} : ∀ {free : Nat} {v w : Value},
    v.SameRecords w → (t.Reaches free slot v ↔ t.Reaches free slot w) := by
  induction t using ArrayType.induction with
  | scalar k | string s => exact fun _ => Iff.rfl
  | struct fields ih =>
    intro free v w h
    rw [reaches_struct, reaches_struct]
    rcases h.record_cases fields with ⟨hv, hw⟩ | ⟨values, values', hv, hw, hall⟩
    · simp [hv, hw]
    · simp only [hv, hw, Option.some.injEq, exists_eq_left', Struct.meet_iff_exists]
      refine exists_mem_iff_of_forall₂ (Struct.forall₂_parts hall) ?_
      rintro _ _ ⟨f, hf, free', x, y, rfl, rfl, hxy⟩
      exact ih f hf hxy
  | dim d dims leaf ih =>
    intro free v w h
    rw [reaches_cons, reaches_cons]
    rcases h.items_cases with ⟨hv, hw⟩ | ⟨xs, ys, hv, hw, hall⟩
    · simp [hv, hw]
    · simp only [hv, hw, Option.some.injEq, exists_eq_left']
      exact or_congr_right (exists_mem_iff_of_forall₂ hall fun x y hxy => ih hxy)

end ArrayType

/-! ## Looking at first elements -/

namespace Value

theorem Reordered.looksLike {v w : Value} (h : v.Reordered w) : v.LooksLike w := by
  induction v using Value.induction generalizing w with
  | atom a =>
    cases h
    exact .atom a a
  | dict entries =>
    cases h
    exact .dict _ _
  | list xs ih =>
    cases h with
    | list hall => exact .list (forall₂_of_forall_mem ih hall)
  | tuple xs ih =>
    cases h with
    | tuple hall => exact .tuple (forall₂_of_forall_mem ih hall)
  | iter p ihreplay ihpending =>
    cases h with
    | iter _ _ _ _ hreplay hpending =>
      exact .iter (List.forall₂_take 1 (List.rel_append
        (forall₂_of_forall_mem ihreplay hreplay) (forall₂_of_forall_mem ihpending hpending)))

/-- **A survey of first elements ends the same in whatever order entries are**, since it does not go
into mappings. -/
theorem survey_of_reordered {records : Bool} {v w : Value} (depth : Nat) (partly : Bool) (S : Shape)
    (h : v.Reordered w) : (survey (.firstOnly records) depth partly S v).2 =
      (survey (.firstOnly records) depth partly S w).2 :=
  survey_of_looksLike v depth partly S h.looksLike

end Value

end Ragged
