import Ragged.Proofs.Leaf.Stored
import Ragged.Proofs.Type.Structure
import Ragged.Proofs.Value.Drained

/-!
# What an array should read back as

`ArrayType.coerce` is the plain reading of a type. It knows of no storage: it goes down the type and
the value together, makes a list of the elements at every dimension and a mapping in declared order
of every record, and puts each scalar through its leaf and back (`LeafType.readBack?`).

It asks of a value nothing but its elements and its fields, so it makes the same of a value however
these are kept (`coerce_of_preserves`), and however far its sources were looked into.
-/

set_option autoImplicit false

namespace Ragged

/-- The lists of lists that some dimensions make of a value, given what the leaf makes of one. -/
def Value.coerceDims (coerceLeaf : Value → Option Value) : List Dimension → Value → Option Value
  | [], v => coerceLeaf v
  | _ :: dims, v => v.items?.bind fun xs => (xs.mapM (coerceDims coerceLeaf dims)).map .list

mutual

/-- A value as an array of the type reads back, if it fits the type. -/
def ArrayType.coerce : ArrayType → Value → Option Value
  | ⟨dims, leaf⟩ => Value.coerceDims leaf.coerce dims

def LeafType.coerce : LeafType → Value → Option Value
  | .scalar k, v => v.atom?.bind fun a => ((LeafType.scalar k).readBack? a).map .atom
  | .string s, v => v.atom?.bind fun a => ((LeafType.string s).readBack? a).map .atom
  | .struct fields, v =>
    (v.record? fields).bind fun values =>
      (Struct.coerce fields values).map fun ws => .dict ((Struct.names fields).zip ws)

/-- The values of a record's fields, each at the type of its field. -/
def Struct.coerce : List Field → List Value → Option (List Value)
  | [], [] => some []
  | ⟨_, type⟩ :: fields, v :: vs =>
    (type.coerce v).bind fun w => (Struct.coerce fields vs).map (w :: ·)
  | _, _ => none

end

theorem ArrayType.coerce_cons (d : Dimension) (dims : List Dimension) (leaf : LeafType)
    (v : Value) :
    coerce ⟨d :: dims, leaf⟩ v =
      v.items?.bind fun xs => (xs.mapM (coerce ⟨dims, leaf⟩)).map .list := rfl

theorem Struct.coerce_cons (f : Field) (fields : List Field) (v : Value) (vs : List Value) :
    coerce (f :: fields) (v :: vs) =
      (f.type.coerce v).bind fun w => (coerce fields vs).map (w :: ·) := by
  cases f
  rfl

theorem Struct.length_coerce {fields : List Field} :
    ∀ {values ws : List Value}, coerce fields values = some ws → ws.length = fields.length := by
  induction fields with
  | nil =>
    intro values ws h
    cases values with
    | nil => rw [← Option.some.inj h]; rfl
    | cons v vs => exact absurd h (by simp [coerce])
  | cons f fields ih =>
    intro values ws h
    cases values with
    | nil => exact absurd h (by simp [coerce])
    | cons v vs =>
      rw [coerce_cons] at h
      obtain ⟨w, -, hrest⟩ := Option.bind_eq_some_iff.mp h
      obtain ⟨ws', hws', rfl⟩ := Option.map_eq_some_iff.mp hrest
      rw [List.length_cons, List.length_cons, ih hws']

theorem Struct.coerce_eq_mapM {fields : List Field} : ∀ (free : Nat) {values : List Value},
    values.length = fields.length →
      coerce fields values = (parts free fields values).mapM fun p => p.type.coerce p.value := by
  induction fields with
  | nil =>
    intro free values hlen
    obtain rfl := List.eq_nil_of_length_eq_zero hlen
    rfl
  | cons f fields ih =>
    intro free values hlen
    cases values with
    | nil => exact absurd hlen (by simp)
    | cons v vs =>
      rw [coerce_cons, parts, List.mapM_cons, ih (free + f.type.strides) (Nat.succ.inj hlen)]
      cases f.type.coerce v with
      | none => rfl
      | some w =>
        generalize (parts (free + f.type.strides) fields vs).mapM
          (fun p => p.type.coerce p.value) = rest
        cases rest <;> rfl

/-- A record is made of its fields just as a list is of its elements. -/
theorem ArrayType.coerce_struct (fields : List Field) (v : Value) :
    coerce ⟨[], .struct fields⟩ v = (v.record? fields).bind fun values =>
      ((Struct.parts 0 fields values).mapM fun p : Struct.Part Value => p.type.coerce p.value).map
        fun ws => .dict ((Struct.names fields).zip ws) := by
  show (v.record? fields).bind _ = _
  cases hvalues : v.record? fields with
  | none => rfl
  | some values =>
    rw [Option.bind_some, Option.bind_some,
      ← Struct.coerce_eq_mapM 0 (Value.length_of_record? hvalues)]

/-- **What a type makes of a value does not depend on how its elements are kept.** -/
theorem ArrayType.coerce_of_preserves {f : Value → Value} (hf : Value.Preserves f) (t : ArrayType) :
    ∀ v : Value, t.coerce (f v) = t.coerce v := by
  induction t using ArrayType.induction with
  | scalar k =>
    intro v
    show (f v).atom?.bind _ = v.atom?.bind _
    rw [hf.atom?]
  | string s =>
    intro v
    show (f v).atom?.bind _ = v.atom?.bind _
    rw [hf.atom?]
  | struct fields ih =>
    intro v
    rw [coerce_struct, coerce_struct, hf.record?]
    cases v.record? fields with
    | none => rfl
    | some values =>
      have hparts : (Struct.parts 0 fields (values.map f)).mapM (fun p => p.type.coerce p.value) =
          (Struct.parts 0 fields values).mapM fun p => p.type.coerce p.value := by
        rw [Struct.parts_map, List.mapM_map]
        refine mapM_congr fun p hp => ?_
        obtain ⟨g, hg, free, x, rfl⟩ := Struct.exists_of_mem_parts hp
        exact ih g hg x
      rw [Option.map_some, Option.bind_some, Option.bind_some, hparts]
  | dim d dims leaf ih =>
    intro v
    rw [coerce_cons, coerce_cons, hf.items?]
    cases v.items? with
    | none => rfl
    | some xs =>
      show ((xs.map f).mapM (coerce ⟨dims, leaf⟩)).map Value.list = _
      have hxs : xs.mapM (coerce ⟨dims, leaf⟩ ∘ f) = xs.mapM (coerce ⟨dims, leaf⟩) :=
        mapM_congr fun x _ => ih x
      rw [List.mapM_map, hxs]
      rfl

/-- Values that are one value when drained are one to every type. -/
theorem ArrayType.coerce_eq_of_drained_eq {v w : Value} (h : v.drained = w.drained)
    (t : ArrayType) : t.coerce v = t.coerce w := by
  rw [← coerce_of_preserves Value.preserves_drained t v, h,
    coerce_of_preserves Value.preserves_drained]

end Ragged
