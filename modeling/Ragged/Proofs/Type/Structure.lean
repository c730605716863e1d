import Mathlib.Data.List.Forall2
import Ragged.Layout.Basic

/-!
# Types and layouts, one dimension at a time

A type nests in two ways, by its dimensions and by the fields of its leaf, and everything that walks
types goes the same way: past the outermost dimension, and at the leaf to each field. Here is that
way as an induction principle, for types and for layouts, and what the numbering of slots does on it:

> the layout of a type is that of its inner type behind one more dimension, which takes the next
> slot if it is strided and none otherwise.

So a type uses just as many slots as it has strided dimensions (`strides`), and the layouts of its
fields start one behind the other. `Struct.parts` goes through the fields of a record once for all:
what is said of each field with its value, and with the slots it has, is said of each part.
-/

set_option autoImplicit false

namespace Ragged

@[elab_as_elim]
theorem ArrayType.induction {motive : ArrayType → Prop} (scalar : ∀ k, motive ⟨[], .scalar k⟩)
    (string : ∀ s, motive ⟨[], .string s⟩)
    (struct : ∀ fields : List Field, (∀ f ∈ fields, motive f.type) → motive ⟨[], .struct fields⟩)
    (dim : ∀ d dims leaf, motive ⟨dims, leaf⟩ → motive ⟨d :: dims, leaf⟩) (t : ArrayType) :
    motive t := by
  refine @ArrayType.rec motive (fun leaf => motive ⟨[], leaf⟩) (fun f => motive f.type)
    (fun fields => ∀ f ∈ fields, motive f.type) ?_ scalar string struct ?_ ?_ ?_ t
  · intro dims leaf hleaf
    induction dims with
    | nil => exact hleaf
    | cons d dims ih => exact dim d dims leaf ih
  · exact fun _ _ h => h
  · exact fun _ h => absurd h List.not_mem_nil
  · exact fun _ _ hf hrest => List.forall_mem_cons.mpr ⟨hf, hrest⟩

@[elab_as_elim]
theorem Layout.induction {motive : Layout → Prop}
    (element : ∀ kind leaf, motive ⟨[], .element kind leaf⟩)
    (struct : ∀ (type : List Field) (layouts : List Layout), (∀ l ∈ layouts, motive l) →
      motive ⟨[], .struct type layouts⟩)
    (dim : ∀ d dims leaf, motive ⟨dims, leaf⟩ → motive ⟨d :: dims, leaf⟩) (l : Layout) :
    motive l := by
  refine @Layout.rec motive (fun leaf => motive ⟨[], leaf⟩) (fun layouts => ∀ l ∈ layouts, motive l)
    ?_ element struct ?_ ?_ l
  · intro dims leaf hleaf
    induction dims with
    | nil => exact hleaf
    | cons d dims ih => exact dim d dims leaf ih
  · exact fun _ h => absurd h List.not_mem_nil
  · exact fun _ _ hl hrest => List.forall_mem_cons.mpr ⟨hl, hrest⟩

/-! ## How many slots -/

/-- The slots a dimension uses. -/
def Dimension.slots : Dimension → Nat
  | .strided => 1
  | .fixed _ | .var => 0

/-- The slots that some dimensions use. -/
def slotsOf : List Dimension → Nat
  | [] => 0
  | d :: dims => d.slots + slotsOf dims

/-- A dimension in a layout, given the next slot. -/
def Dimension.place (free : Nat) : Dimension → LayoutDim
  | .fixed n => .fixed n
  | .strided => .strided free
  | .var => .var

mutual

/-- The number of strided dimensions of a type, with those of its fields. -/
def ArrayType.strides : ArrayType → Nat
  | ⟨dims, leaf⟩ => slotsOf dims + leaf.strides

def LeafType.strides : LeafType → Nat
  | .scalar _ | .string _ => 0
  | .struct fields => Struct.strides fields

def Struct.strides : List Field → Nat
  | [] => 0
  | ⟨_, type⟩ :: rest => type.strides + Struct.strides rest

end

theorem slotsOf_concat (dims : List Dimension) (d : Dimension) :
    slotsOf (dims ++ [d]) = slotsOf dims + d.slots := by
  induction dims with
  | nil => exact Nat.add_comm _ _
  | cons e dims ih =>
    rw [List.cons_append, slotsOf, slotsOf, ih, Nat.add_assoc]

theorem ArrayType.strides_cons (d : Dimension) (dims : List Dimension) (leaf : LeafType) :
    ArrayType.strides ⟨d :: dims, leaf⟩ = d.slots + ArrayType.strides ⟨dims, leaf⟩ := by
  simp only [strides, slotsOf]
  omega

theorem ArrayType.strides_struct (fields : List Field) :
    ArrayType.strides ⟨[], .struct fields⟩ = Struct.strides fields := Nat.zero_add _

theorem Struct.strides_cons (f : Field) (rest : List Field) :
    strides (f :: rest) = f.type.strides + strides rest := by
  cases f
  rfl

/-! ## Fields side by side with values -/

/-- A value at the type it is taken as, and the slot from which that type's strided dimensions are
numbered. -/
structure Struct.Part (α : Type) where
  type : ArrayType
  free : Nat
  value : α

namespace Struct

variable {α β : Type}

/-- The values of the fields of a record, whose slots start from `free`. -/
def parts (free : Nat) : List Field → List α → List (Part α)
  | f :: fields, v :: vs => ⟨f.type, free, v⟩ :: parts (free + f.type.strides) fields vs
  | _, _ => []

theorem exists_of_mem_parts {fields : List Field} :
    ∀ {free : Nat} {values : List α} {p : Part α}, p ∈ parts free fields values →
      ∃ f ∈ fields, ∃ free' v, p = ⟨f.type, free', v⟩ := by
  induction fields with
  | nil => exact fun hp => absurd hp List.not_mem_nil
  | cons f fields ih =>
    intro free values p hp
    cases values with
    | nil => exact absurd hp List.not_mem_nil
    | cons v vs =>
      rcases List.mem_cons.mp hp with rfl | hp
      · exact ⟨f, List.mem_cons_self, free, v, rfl⟩
      · obtain ⟨g, hg, free', v', rfl⟩ := ih hp
        exact ⟨g, List.mem_cons_of_mem f hg, free', v', rfl⟩

theorem parts_map (g : α → β) (fields : List Field) : ∀ (free : Nat) (values : List α),
    parts free fields (values.map g) =
      (parts free fields values).map fun p => ⟨p.type, p.free, g p.value⟩ := by
  induction fields with
  | nil => exact fun _ _ => rfl
  | cons f fields ih =>
    intro free values
    cases values with
    | nil => rfl
    | cons v vs => exact congrArg (_ :: ·) (ih (free + f.type.strides) vs)

/-- Values side by side are values of the same fields, field by field. -/
theorem forall₂_parts {r : α → β → Prop} {fields : List Field} :
    ∀ {free : Nat} {values : List α} {values' : List β}, List.Forall₂ r values values' →
      List.Forall₂ (fun p q => ∃ f ∈ fields, ∃ free' v w,
        p = ⟨f.type, free', v⟩ ∧ q = ⟨f.type, free', w⟩ ∧ r v w)
        (parts free fields values) (parts free fields values') := by
  induction fields with
  | nil => exact fun _ => .nil
  | cons f fields ih =>
    intro free values values' h
    cases h with
    | nil => exact .nil
    | cons hvw h =>
      refine .cons ⟨f, List.mem_cons_self, free, _, _, rfl, rfl, hvw⟩ ((ih h).imp ?_)
      rintro p q ⟨g, hg, hpq⟩
      exact ⟨g, List.mem_cons_of_mem f hg, hpq⟩

end Struct

/-! ## Which slots -/

/-- The layout of a type whose slots start at a number. -/
def ArrayType.layoutFrom [Machine] (free : Nat) (t : ArrayType) : Layout := (Layout.number free t).1

/-- The layouts of fields whose slots start at a number. -/
def Struct.layoutsFrom [Machine] (free : Nat) (fields : List Field) : List Layout :=
  (Layout.numberFields free fields).1

theorem Layout.number_cons [Machine] (free : Nat) (d : Dimension) (dims : List Dimension)
    (leaf : LeafType) : number free ⟨d :: dims, leaf⟩ =
      (⟨d.place free :: (number (free + d.slots) ⟨dims, leaf⟩).1.dims,
        (number (free + d.slots) ⟨dims, leaf⟩).1.leaf⟩,
        (number (free + d.slots) ⟨dims, leaf⟩).2) := by
  cases d <;> rfl

theorem Layout.numberFields_cons [Machine] (free : Nat) (f : Field) (rest : List Field) :
    numberFields free (f :: rest) =
      ((number free f.type).1 :: (numberFields (number free f.type).2 rest).1,
        (numberFields (number free f.type).2 rest).2) := by
  cases f
  rfl

/-- **A type uses as many slots as it has strided dimensions.** -/
theorem Layout.number_snd [Machine] (t : ArrayType) :
    ∀ free, (number free t).2 = free + t.strides := by
  induction t using ArrayType.induction with
  | scalar k => exact fun _ => rfl
  | string s => exact fun _ => rfl
  | struct fields ih =>
    -- the fields one behind the other, each starting where the one before has ended
    have hfields : ∀ free, (numberFields free fields).2 = free + Struct.strides fields := by
      induction fields with
      | nil => exact fun _ => rfl
      | cons f rest ihrest =>
        intro free
        obtain ⟨hf, hrest⟩ := List.forall_mem_cons.mp ih
        rw [numberFields_cons, ihrest hrest, hf, Struct.strides_cons]
        omega
    intro free
    show (numberFields free fields).2 = free + ArrayType.strides ⟨[], .struct fields⟩
    rw [hfields, ArrayType.strides_struct]
  | dim d dims leaf ih =>
    intro free
    rw [number_cons, ih, ArrayType.strides_cons]
    omega

namespace ArrayType

theorem layout_eq [Machine] (t : ArrayType) : t.layout = t.layoutFrom 0 := rfl

theorem slots_eq [Machine] (t : ArrayType) : t.slots = t.strides := by
  rw [slots, Layout.number_snd, Nat.zero_add]

theorem layoutFrom_struct [Machine] (free : Nat) (fields : List Field) :
    layoutFrom free ⟨[], .struct fields⟩ = ⟨[], .struct fields (Struct.layoutsFrom free fields)⟩ :=
  rfl

theorem layoutFrom_cons [Machine] (free : Nat) (d : Dimension) (dims : List Dimension) (leaf : LeafType) :
    layoutFrom free ⟨d :: dims, leaf⟩ =
      ⟨d.place free :: (layoutFrom (free + d.slots) ⟨dims, leaf⟩).dims,
        (layoutFrom (free + d.slots) ⟨dims, leaf⟩).leaf⟩ := by
  rw [layoutFrom, Layout.number_cons]
  rfl

end ArrayType

namespace Struct

theorem layoutsFrom_cons [Machine] (free : Nat) (f : Field) (rest : List Field) :
    layoutsFrom free (f :: rest) =
      f.type.layoutFrom free :: layoutsFrom (free + f.type.strides) rest := by
  rw [layoutsFrom, Layout.numberFields_cons, Layout.number_snd]
  rfl

theorem length_layoutsFrom (fields : List Field) :
    ∀ free, (layoutsFrom free fields).length = fields.length := by
  induction fields with
  | nil => exact fun _ => rfl
  | cons f rest ih => intro free; rw [layoutsFrom_cons, List.length_cons, ih, List.length_cons]

/-- The layout at a position is that of the field there, whatever slots it starts from. -/
theorem getElem?_layoutsFrom {p : Layout → Prop} {fields : List Field} {f : Field} :
    ∀ {index : Nat}, fields[index]? = some f → (∀ free, p (f.type.layoutFrom free)) →
      ∀ free, ∃ l, (layoutsFrom free fields)[index]? = some l ∧ p l := by
  induction fields with
  | nil => intro index hf; exact absurd hf (by simp)
  | cons first rest ih =>
    intro index hf h free
    rw [layoutsFrom_cons]
    cases index with
    | zero =>
      obtain rfl := Option.some.inj hf
      exact ⟨_, rfl, h free⟩
    | succ index => exact ih hf h _

/-- Each of the layouts is that of a field, whatever slots it starts from. -/
theorem forall_layoutsFrom {p : Layout → Prop} {fields : List Field}
    (h : ∀ f ∈ fields, ∀ free, p (f.type.layoutFrom free)) :
    ∀ free, ∀ l ∈ layoutsFrom free fields, p l := by
  induction fields with
  | nil => exact fun _ _ hl => absurd hl List.not_mem_nil
  | cons f rest ih =>
    intro free
    obtain ⟨hf, hrest⟩ := List.forall_mem_cons.mp h
    rw [layoutsFrom_cons]
    exact List.forall_mem_cons.mpr ⟨hf free, ih hrest _⟩

end Struct

/-! ## The numbers of the slots -/

/-- The slot of a dimension, if it is strided. -/
def LayoutDim.slot? : LayoutDim → Option Nat
  | .strided slot => some slot
  | .fixed _ | .var => none

mutual

/-- The slots of a layout, those of its dimensions before those of its fields. -/
def Layout.slotNumbers : Layout → List Nat
  | ⟨dims, leaf⟩ => dims.filterMap LayoutDim.slot? ++ leaf.slotNumbers

def LayoutLeaf.slotNumbers : LayoutLeaf → List Nat
  | .element _ _ => []
  | .struct _ layouts => Layout.slotNumbersAll layouts

def Layout.slotNumbersAll : List Layout → List Nat
  | [] => []
  | l :: rest => l.slotNumbers ++ Layout.slotNumbersAll rest

end

theorem Layout.slotNumbers_cons (d : LayoutDim) (dims : List LayoutDim) (leaf : LayoutLeaf) :
    slotNumbers ⟨d :: dims, leaf⟩ = d.slot?.toList ++ slotNumbers ⟨dims, leaf⟩ := by
  simp only [slotNumbers, List.filterMap_cons]
  cases d.slot? <;> rfl

/-- **Slots are numbered one after the other**: of each number from the first free one on there is
one strided dimension, as many as the type has, and they are in order. -/
theorem ArrayType.slotNumbers_layoutFrom [Machine] (t : ArrayType) :
    ∀ free, (t.layoutFrom free).slotNumbers = List.range' free t.strides := by
  induction t using ArrayType.induction with
  | scalar k => exact fun _ => rfl
  | string s => exact fun _ => rfl
  | struct fields ih =>
    have hfields : ∀ free, Layout.slotNumbersAll (Struct.layoutsFrom free fields) =
        List.range' free (Struct.strides fields) := by
      induction fields with
      | nil => exact fun _ => rfl
      | cons f rest ihrest =>
        intro free
        obtain ⟨hf, hrest⟩ := List.forall_mem_cons.mp ih
        rw [Struct.layoutsFrom_cons, Layout.slotNumbersAll, hf, ihrest hrest, Struct.strides_cons,
          List.range'_append_1]
    intro free
    rw [layoutFrom_struct, strides_struct, ← hfields]
    rfl
  | dim d dims leaf ih =>
    intro free
    rw [layoutFrom_cons, Layout.slotNumbers_cons]
    show _ ++ (layoutFrom (free + d.slots) ⟨dims, leaf⟩).slotNumbers = _
    rw [ih, strides_cons, ← List.range'_append_1]
    cases d <;> rfl

end Ragged
