import Ragged.Proofs.Value.Listed

/-!
# What is inside a value

Inside a value are the value itself, what is inside its elements and what is inside the values of its
entries. Of a lazy source the elements are those it has left, looked ahead to or not.

What is asked of all that is inside is that no key of a mapping comes twice, that nothing is a lazy
source, or that nothing is a mapping. All of it only depends on what kinds of containers there are and
which keys, so

> they are kept by whatever changes only how elements are kept.
-/

set_option autoImplicit false

namespace Ragged

namespace Value

/-- The second value is inside the first. -/
inductive Contains : Value → Value → Prop where
  | here (v : Value) : Contains v v
  | element {v x w : Value} {xs : List Value} (hxs : v.items? = some xs) (hx : x ∈ xs)
      (h : Contains x w) : Contains v w
  | entry {entries : List (String × Value)} {e : String × Value} {w : Value} (he : e ∈ entries)
      (h : Contains e.2 w) : Contains (.dict entries) w

/-- No mapping inside the value has a key twice. -/
def DistinctKeys (v : Value) : Prop :=
  ∀ entries, v.Contains (.dict entries) → (Entries.keys entries).Nodup

/-- Nothing inside the value is a lazy source. -/
def NoIterators (v : Value) : Prop := ∀ w, v.Contains w → w.isIterator = false

/-- Nothing inside the value is a mapping. -/
def NoMappings (v : Value) : Prop := ∀ entries, ¬v.Contains (.dict entries)

section Inside

variable {v : Value} {xs : List Value} {entries : List (String × Value)}

/-- Inside a value with elements, but for itself, is what is inside these. -/
theorem contains_iff_of_items? (hxs : v.items? = some xs) {w : Value} :
    v.Contains w ↔ v = w ∨ ∃ x ∈ xs, x.Contains w := by
  constructor
  · intro h
    cases h with
    | here => exact .inl rfl
    | element hxs' hx h =>
      obtain rfl := Option.some.inj (hxs.symm.trans hxs')
      exact .inr ⟨_, hx, h⟩
    | entry => exact absurd hxs (by simp [items?])
  · rintro (rfl | ⟨x, hx, h⟩)
    · exact .here v
    · exact .element hxs hx h

theorem contains_dict_iff {w : Value} :
    (dict entries).Contains w ↔ dict entries = w ∨ ∃ e ∈ entries, e.2.Contains w := by
  constructor
  · intro h
    cases h with
    | here => exact .inl rfl
    | element hxs => exact absurd hxs (by simp [items?])
    | entry he h => exact .inr ⟨_, he, h⟩
  · rintro (rfl | ⟨e, he, h⟩)
    · exact .here _
    · exact .entry he h

theorem contains_atom_iff {a : Atom} {w : Value} : (atom a).Contains w ↔ w = atom a := by
  constructor
  · intro h
    cases h with
    | here => rfl
    | element hxs => exact absurd hxs (by simp [items?])
  · rintro rfl
    exact .here _

@[simp]
theorem distinctKeys_atom (a : Atom) : (atom a).DistinctKeys :=
  fun _ h => absurd (contains_atom_iff.mp h) (by simp)

theorem distinctKeys_iff_of_items? (hxs : v.items? = some xs) :
    v.DistinctKeys ↔ ∀ x ∈ xs, x.DistinctKeys := by
  constructor
  · exact fun h _ hx entries hentries => h entries (.element hxs hx hentries)
  · intro h entries hentries
    rcases (contains_iff_of_items? hxs).mp hentries with rfl | ⟨x, hx, hentries⟩
    · exact absurd hxs (by simp [items?])
    · exact h x hx entries hentries

@[simp]
theorem distinctKeys_dict_iff : (dict entries).DistinctKeys ↔
    (Entries.keys entries).Nodup ∧ ∀ e ∈ entries, e.2.DistinctKeys := by
  constructor
  · exact fun h => ⟨h entries (.here _), fun _ he entries' hentries =>
      h entries' (.entry he hentries)⟩
  · rintro ⟨hnodup, h⟩ entries' hentries
    rcases contains_dict_iff.mp hentries with heq | ⟨e, he, hentries⟩
    · rwa [← Value.dict.inj heq]
    · exact h e he entries' hentries

/-! One after the other, these decide it for a value that is written down. -/

@[simp]
theorem distinctKeys_ofBool (b : Bool) : (ofBool b).DistinctKeys := distinctKeys_atom _

@[simp]
theorem distinctKeys_ofInt (i : Int) : (ofInt i).DistinctKeys := distinctKeys_atom _

@[simp]
theorem distinctKeys_list_iff : (list xs).DistinctKeys ↔ ∀ x ∈ xs, x.DistinctKeys :=
  distinctKeys_iff_of_items? rfl

@[simp]
theorem distinctKeys_tuple_iff : (tuple xs).DistinctKeys ↔ ∀ x ∈ xs, x.DistinctKeys :=
  distinctKeys_iff_of_items? rfl

@[simp]
theorem distinctKeys_iter_iff {p : Pull Value} :
    (iter p).DistinctKeys ↔ ∀ x ∈ p.remaining, x.DistinctKeys :=
  distinctKeys_iff_of_items? rfl

/-- The values of a record's fields are elements or values of entries. -/
theorem DistinctKeys.record (h : v.DistinctKeys) {fields : Struct} {values : List Value}
    (hvalues : v.record? fields = some values) : ∀ x ∈ values, x.DistinctKeys := by
  cases hv : v.items? with
  | some xs =>
    obtain ⟨-, rfl⟩ := of_record?_of_items? hv hvalues
    exact (distinctKeys_iff_of_items? hv).mp h
  | none =>
    cases v with
    | atom a => exact absurd hvalues (by simp [record?, items?])
    | dict entries =>
      simp only [record?] at hvalues
      split at hvalues
      · intro x hx
        obtain ⟨name, -, hget⟩ := exists_of_mapM hvalues x hx
        obtain ⟨before, after, rfl, -⟩ := List.lookup_eq_some_iff.mp hget
        exact (distinctKeys_dict_iff.mp h).2 (name, x) (List.mem_append_right _ List.mem_cons_self)
      · exact absurd hvalues (by simp)
    | _ => exact absurd hv (by simp [items?])

theorem NoIterators.isIterator (h : v.NoIterators) : v.isIterator = false := h v (.here v)

theorem NoIterators.element (h : v.NoIterators) (hxs : v.items? = some xs) :
    ∀ x ∈ xs, x.NoIterators :=
  fun _ hx w hw => h w (.element hxs hx hw)

theorem NoIterators.entry (h : (dict entries).NoIterators) : ∀ e ∈ entries, e.2.NoIterators :=
  fun _ he w hw => h w (.entry he hw)

theorem noIterators_atom (a : Atom) : (atom a).NoIterators := by
  intro w hw
  obtain rfl := contains_atom_iff.mp hw
  rfl

theorem noIterators_of_items? (hv : v.isIterator = false) (hxs : v.items? = some xs)
    (h : ∀ x ∈ xs, x.NoIterators) : v.NoIterators := by
  intro w hw
  rcases (contains_iff_of_items? hxs).mp hw with rfl | ⟨x, hx, hw⟩
  · exact hv
  · exact h x hx w hw

theorem NoMappings.distinctKeys (h : v.NoMappings) : v.DistinctKeys :=
  fun entries hentries => absurd hentries (h entries)

theorem NoMappings.element (h : v.NoMappings) (hxs : v.items? = some xs) :
    ∀ x ∈ xs, x.NoMappings :=
  fun _ hx entries hentries => h entries (.element hxs hx hentries)

theorem noMappings_atom (a : Atom) : (atom a).NoMappings :=
  fun _ h => absurd (contains_atom_iff.mp h) (by simp)

theorem noMappings_of_items? (hxs : v.items? = some xs) (h : ∀ x ∈ xs, x.NoMappings) :
    v.NoMappings := by
  intro entries hentries
  rcases (contains_iff_of_items? hxs).mp hentries with rfl | ⟨x, hx, hentries⟩
  · exact absurd hxs (by simp [items?])
  · exact h x hx entries hentries

end Inside

/-! ## Elements kept in another way -/

section Preserves

variable {f : Value → Value}

/-- What is inside comes from what was inside. -/
theorem Contains.of_map (hf : Preserves f) {u v' : Value} (h : v'.Contains u) :
    ∀ {v : Value}, f v = v' → ∃ w, v.Contains w ∧ f w = u := by
  induction h with
  | here v' => exact fun {v} hv => ⟨v, .here v, hv⟩
  | element hxs hx _ ih =>
    rintro v rfl
    rw [hf.items?] at hxs
    obtain ⟨ys, hys, rfl⟩ := Option.map_eq_some_iff.mp hxs
    obtain ⟨y, hy, hyx⟩ := List.mem_map.mp hx
    obtain ⟨w, hw, hwu⟩ := ih hyx
    exact ⟨w, .element hys hy hw, hwu⟩
  | entry he _ ih =>
    rename_i entries e w
    intro v hv
    obtain ⟨entries', rfl⟩ := hf.exists_dict hv
    rw [hf.dict] at hv
    obtain rfl := Value.dict.inj hv
    obtain ⟨e', he', rfl⟩ := List.mem_map.mp he
    obtain ⟨w', hw', hwu⟩ := ih rfl
    exact ⟨w', .entry he' hw', hwu⟩

/-- What was inside is there still. -/
theorem Contains.map (hf : Preserves f) {v w : Value} (h : v.Contains w) :
    (f v).Contains (f w) := by
  induction h with
  | here v => exact .here _
  | @element v x w xs hxs hx _ ih =>
    have hmapped : (f v).items? = some (xs.map f) := by rw [hf.items?, hxs]; rfl
    exact .element hmapped (List.mem_map_of_mem hx) ih
  | @entry entries e w he _ ih =>
    rw [hf.dict]
    have hmem : (e.1, f e.2) ∈ entries.map fun e => (e.1, f e.2) := List.mem_map_of_mem he
    exact .entry hmem ih

theorem DistinctKeys.map (hf : Preserves f) {v : Value} (h : v.DistinctKeys) :
    (f v).DistinctKeys := by
  intro entries hentries
  obtain ⟨w, hw, hdict⟩ := hentries.of_map hf rfl
  obtain ⟨entries', rfl⟩ := hf.exists_dict hdict
  rw [hf.dict] at hdict
  rw [← Value.dict.inj hdict, Entries.keys_map]
  exact h entries' hw

theorem DistinctKeys.of_map (hf : Preserves f) {v : Value} (h : (f v).DistinctKeys) :
    v.DistinctKeys := by
  intro entries hentries
  have hmapped := hentries.map hf
  rw [hf.dict] at hmapped
  rw [← Entries.keys_map f entries]
  exact h _ hmapped

end Preserves

/-- Looking into sources leaves all keys. -/
theorem DistinctKeys.of_drained_eq {v w : Value} (h : v.DistinctKeys)
    (hdrained : v.drained = w.drained) : w.DistinctKeys :=
  .of_map preserves_drained (hdrained ▸ h.map preserves_drained)

theorem noIterators_listed (v : Value) : v.listed.NoIterators := by
  intro u hu
  obtain ⟨w, -, rfl⟩ := hu.of_map preserves_listed rfl
  exact w.isIterator_listed

end Value

end Ragged
