import Mathlib.Data.List.Forall2
import Mathlib.Data.List.Nodup
import Ragged.Proofs.Shape.Covering
import Ragged.Proofs.Value.Paths

/-!
# Putting fields back

The values of a record's fields are taken out of a value, and what has become of them is put back
where they came from.

> What is put back is what is found there afterwards (`record?_withRecordFields`), and it is put in
> the place of what was taken out.

For elements the second is plain, since they are the fields, in order. The entries of a mapping stand
in an order of their own, and each of them gets the value that has become of its old one if no key
comes twice (`forall₂_withRecordFields`).
-/

set_option autoImplicit false

namespace Ragged

/-- The values of a mapping change, each in a way that its key may tell. -/
theorem Entries.get?_mapWithKey {α β : Type} (g : String → α → β) (entries : List (String × α))
    (key : String) :
    get? (entries.map fun e => (e.1, g e.1 e.2)) key = (get? entries key).map (g key) := by
  induction entries with
  | nil => rfl
  | cons e rest ih =>
    obtain ⟨k, v⟩ := e
    simp only [get?, List.map_cons, List.lookup_cons] at ih ⊢
    cases hk : key == k with
    | false => exact ih
    | true =>
      obtain rfl := eq_of_beq hk
      rfl

/-- Names and positions are one to one if no name comes twice. -/
theorem Struct.indexOf?_eq_some_iff {fields : Struct} (hnames : (names fields).Nodup)
    {name : String} {i : Nat} : fields.indexOf? name = some i ↔ (names fields)[i]? = some name := by
  have hindex : fields.indexOf? name = (names fields).findIdx? (· = name) := by
    rw [names, List.findIdx?_map]
    rfl
  rw [hindex, List.findIdx?_eq_some_iff_getElem, List.getElem?_eq_some_iff]
  constructor
  · rintro ⟨hi, hname, -⟩
    exact ⟨hi, by simpa using hname⟩
  · rintro ⟨hi, rfl⟩
    refine ⟨hi, by simp, fun j hj => ?_⟩
    have hne : (names fields)[j] ≠ (names fields)[i] := by
      rw [Ne, List.Nodup.getElem_inj_iff hnames]
      omega
    simpa using hne

namespace Value

section Named

variable {fields : Struct} {entries : List (String × Value)} {values values' : List Value}

/-- A mapping is a record if its keys are the names of the fields, which differ. -/
theorem record?_dict_eq_some_iff : (dict entries).record? fields = some values ↔
    ((Struct.names fields).Nodup ∧ ∀ key ∈ Entries.keys entries, key ∈ Struct.names fields) ∧
      (Struct.names fields).mapM (Entries.get? entries) = some values := by
  simp only [record?]
  split
  next hwell => exact (and_iff_right hwell).symm
  next hwell => exact ⟨fun h => absurd h (by simp), fun h => absurd h.1 hwell⟩

/-- The field at a position is found under its name, and so is its value. -/
theorem getElem?_of_record?_dict (h : (dict entries).record? fields = some values) {i : Nat}
    {name : String} (hname : (Struct.names fields)[i]? = some name) :
    Struct.indexOf? fields name = some i ∧
      ∃ v, values[i]? = some v ∧ Entries.get? entries name = some v := by
  obtain ⟨⟨hnodup, -⟩, hmap⟩ := record?_dict_eq_some_iff.mp h
  obtain ⟨hi, hget⟩ := List.getElem?_eq_some_iff.mp hname
  refine ⟨(Struct.indexOf?_eq_some_iff hnodup).mpr hname, ?_⟩
  have hall := forall₂_of_mapM (fun _ _ _ hv => hv) hmap
  have hlen' := hall.length_eq
  have hv := (List.forall₂_iff_get.mp hall).2 i hi (hlen' ▸ hi)
  rw [List.get_eq_getElem, List.get_eq_getElem, hget] at hv
  exact ⟨values[i], List.getElem?_eq_getElem _, hv⟩

/-- Each entry of a record is found among the fields. -/
theorem exists_index_of_record?_dict (h : (dict entries).record? fields = some values)
    (hkeys : (Entries.keys entries).Nodup) {e : String × Value} (he : e ∈ entries) :
    ∃ i, Struct.indexOf? fields e.1 = some i ∧ values[i]? = some e.2 := by
  obtain ⟨⟨-, hdeclared⟩, -⟩ := record?_dict_eq_some_iff.mp h
  obtain ⟨i, hi⟩ := List.mem_iff_getElem?.mp (hdeclared e.1 (List.mem_map_of_mem he))
  obtain ⟨hindex, v, hv, hget⟩ := getElem?_of_record?_dict h hi
  obtain rfl := Option.some.inj (hget.symm.trans (Entries.get?_of_mem hkeys he))
  exact ⟨i, hindex, hv⟩

/-- **Each entry gets what has become of its own value**, if no key comes twice. -/
theorem forall₂_withRecordFields {r : Value → Value → Prop}
    (h : (dict entries).record? fields = some values) (hkeys : (Entries.keys entries).Nodup)
    (hvalues : List.Forall₂ r values values') :
    List.Forall₂ (fun e e' => e.1 = e'.1 ∧ r e.2 e'.2) entries (entries.map fun e =>
      (e.1, ((Struct.indexOf? fields e.1).bind (values'[·]?)).getD e.2)) := by
  refine List.forall₂_map_right_iff.mpr (List.forall₂_same.mpr fun e he => ⟨rfl, ?_⟩)
  obtain ⟨i, hindex, hv⟩ := exists_index_of_record?_dict h hkeys he
  obtain ⟨hi, hget⟩ := List.getElem?_eq_some_iff.mp hv
  have hi' : i < values'.length := hvalues.length_eq ▸ hi
  have hr := (List.forall₂_iff_get.mp hvalues).2 i hi hi'
  rw [List.get_eq_getElem, List.get_eq_getElem, hget] at hr
  rw [hindex, Option.bind_some, List.getElem?_eq_getElem hi', Option.getD_some]
  exact hr

/-- What is put back is found again. -/
theorem record?_dict_withRecordFields (h : (dict entries).record? fields = some values)
    (hlen : values'.length = values.length) :
    (dict (entries.map fun e =>
      (e.1, ((Struct.indexOf? fields e.1).bind (values'[·]?)).getD e.2))).record? fields =
        some values' := by
  obtain ⟨hwell, hmap⟩ := record?_dict_eq_some_iff.mp h
  have hkeys : Entries.keys (entries.map fun e =>
      (e.1, ((Struct.indexOf? fields e.1).bind (values'[·]?)).getD e.2)) = Entries.keys entries := by
    simp [Entries.keys]
  rw [record?_dict_eq_some_iff, hkeys]
  refine ⟨hwell, mapM_of_forall₂ ?_⟩
  refine List.forall₂_iff_get.mpr ⟨?_, fun i hi hi' => ?_⟩
  · rw [hlen, length_of_mapM hmap]
  · rw [List.get_eq_getElem, List.get_eq_getElem]
    obtain ⟨hindex, v, -, hget⟩ := getElem?_of_record?_dict h (List.getElem?_eq_getElem hi)
    rw [Entries.get?_mapWithKey fun key old =>
      ((Struct.indexOf? fields key).bind (values'[·]?)).getD old]
    rw [hget, Option.map_some, hindex, Option.bind_some, List.getElem?_eq_getElem hi',
      Option.getD_some]

end Named

end Value

end Ragged
