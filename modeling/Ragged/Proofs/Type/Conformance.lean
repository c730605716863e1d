import Ragged.Proofs.Type.Structure
import Ragged.Proofs.Value.Drained

/-!
# When a value conforms to a type

`ArrayType.Conforms` goes down a type and a value together, like writing does, but with the extents
of all strided dimensions given beforehand, as a function of their slots. So nothing is threaded
through: an instance conforms or not wherever it stands, and that all instances of a strided
dimension have one length is said by comparing each with the extent given.

What a leaf takes is a parameter `accepts`. With what a leaf stores in its place the judgment is
that a value can be written; with less it says what the scalars of a value are.

Which slots a value reaches and which scalars it puts where are two questions of one form, asked
with `ArrayType.Meets`: whether some instance that is met on the way down is as described.
-/

set_option autoImplicit false

namespace Ragged

/-- What a dimension wants of an instance, whose number of elements is given: a fixed one its extent,
a strided one the extent in its slot, and of no lazy source. -/
def Dimension.Admits (σ : Nat → Nat) (slot : Nat) (isLazy : Bool) (length : Nat) :
    Dimension → Prop
  | .fixed n => length = n
  | .strided => isLazy = false ∧ length = σ slot
  | .var => True

section Conforms

variable (accepts : LeafType → Atom → Prop) (σ : Nat → Nat)

/-- Conformance to some dimensions, given that to the leaf. Strided ones take the slots from `free`
on, and the leaf those behind them. -/
def Value.ConformsDims (leafConforms : Nat → Value → Prop) :
    List Dimension → (free : Nat) → Value → Prop
  | [], free, v => leafConforms free v
  | d :: dims, free, v =>
    ∃ xs, v.items? = some xs ∧ d.Admits σ free v.isIterator xs.length ∧
      ∀ x ∈ xs, ConformsDims leafConforms dims (free + d.slots) x

mutual

/-- The value conforms to the type, whose strided dimensions have the slots from `free` on. -/
def ArrayType.Conforms : ArrayType → (free : Nat) → Value → Prop
  | ⟨dims, leaf⟩ => Value.ConformsDims σ leaf.Conforms dims

def LeafType.Conforms : LeafType → (free : Nat) → Value → Prop
  | .scalar k, _, v => ∃ a, v = .atom a ∧ accepts (.scalar k) a
  | .string s, _, v => ∃ a, v = .atom a ∧ accepts (.string s) a
  | .struct fields, free, v =>
    ∃ values, v.record? fields = some values ∧ Struct.Conform fields free values

/-- Each value conforms to the type of its field. -/
def Struct.Conform : List Field → (free : Nat) → List Value → Prop
  | [], _, [] => True
  | ⟨_, type⟩ :: fields, free, v :: vs =>
    type.Conforms free v ∧ Struct.Conform fields (free + type.strides) vs
  | _, _, _ => False

end

end Conforms

section Meets

variable (here : ArrayType → Nat → Value → Prop)

def Value.MeetsDims (leaf : LeafType) (leafMeets : Nat → Value → Prop) :
    List Dimension → (free : Nat) → Value → Prop
  | [], free, v => leafMeets free v
  | d :: dims, free, v =>
    here ⟨d :: dims, leaf⟩ free v ∨
      ∃ xs, v.items? = some xs ∧ ∃ x ∈ xs, MeetsDims leaf leafMeets dims (free + d.slots) x

mutual

/-- An instance as described is met when the value is taken as one of the type, whose strided
dimensions have the slots from `free` on: the value itself, or one below it, at the type it is taken
as there and the slots that has. -/
def ArrayType.Meets : ArrayType → (free : Nat) → Value → Prop
  | ⟨dims, leaf⟩ => Value.MeetsDims here leaf leaf.Meets dims

def LeafType.Meets : LeafType → (free : Nat) → Value → Prop
  | .scalar k, free, v => here ⟨[], .scalar k⟩ free v
  | .string s, free, v => here ⟨[], .string s⟩ free v
  | .struct fields, free, v =>
    here ⟨[], .struct fields⟩ free v ∨
      ∃ values, v.record? fields = some values ∧ Struct.Meet fields free values

/-- Some value meets such an instance at the type of its field. -/
def Struct.Meet : List Field → (free : Nat) → List Value → Prop
  | ⟨_, type⟩ :: fields, free, v :: vs =>
    type.Meets free v ∨ Struct.Meet fields (free + type.strides) vs
  | _, _, _ => False

end

end Meets

namespace ArrayType

/-- Some instance of the strided dimension with that slot is met. -/
def Reaches (t : ArrayType) (free slot : Nat) (v : Value) : Prop :=
  t.Meets (fun t free _ => t.dims.head? = some .strided ∧ free = slot) free v

/-- A lazy source stands at a strided dimension. -/
def LazyStride (t : ArrayType) (free : Nat) (v : Value) : Prop :=
  t.Meets (fun t _ v => t.dims.head? = some .strided ∧ v.isIterator = true) free v

/-- The scalar stands where a leaf of that type is wanted. -/
def LeafAt (t : ArrayType) (free : Nat) (leaf : LeafType) (a : Atom) (v : Value) : Prop :=
  t.Meets (fun t _ v => t = ⟨[], leaf⟩ ∧ v = .atom a) free v

end ArrayType

/-! ## One dimension, one field -/

section Cons

variable {accepts : LeafType → Atom → Prop} {σ : Nat → Nat} {here : ArrayType → Nat → Value → Prop}

theorem ArrayType.conforms_cons {d : Dimension} {dims : List Dimension} {leaf : LeafType}
    {free : Nat} {v : Value} :
    Conforms accepts σ ⟨d :: dims, leaf⟩ free v ↔
      ∃ xs, v.items? = some xs ∧ d.Admits σ free v.isIterator xs.length ∧
        ∀ x ∈ xs, Conforms accepts σ ⟨dims, leaf⟩ (free + d.slots) x := Iff.rfl

theorem Struct.conform_cons {f : Field} {fields : List Field} {free : Nat} {v : Value}
    {vs : List Value} :
    Conform accepts σ (f :: fields) free (v :: vs) ↔
      f.type.Conforms accepts σ free v ∧ Conform accepts σ fields (free + f.type.strides) vs := by
  cases f
  exact Iff.rfl

theorem ArrayType.meets_cons {d : Dimension} {dims : List Dimension} {leaf : LeafType}
    {free : Nat} {v : Value} :
    Meets here ⟨d :: dims, leaf⟩ free v ↔ here ⟨d :: dims, leaf⟩ free v ∨
      ∃ xs, v.items? = some xs ∧ ∃ x ∈ xs, Meets here ⟨dims, leaf⟩ (free + d.slots) x := Iff.rfl

theorem Struct.meet_cons {f : Field} {fields : List Field} {free : Nat} {v : Value}
    {vs : List Value} :
    Meet here (f :: fields) free (v :: vs) ↔
      f.type.Meets here free v ∨ Meet here fields (free + f.type.strides) vs := by
  cases f
  exact Iff.rfl

theorem ArrayType.reaches_cons {d : Dimension} {dims : List Dimension} {leaf : LeafType}
    {free slot : Nat} {v : Value} :
    Reaches ⟨d :: dims, leaf⟩ free slot v ↔ (d = .strided ∧ free = slot) ∨
      ∃ xs, v.items? = some xs ∧ ∃ x ∈ xs, Reaches ⟨dims, leaf⟩ (free + d.slots) slot x := by
  unfold Reaches
  rw [meets_cons, List.head?_cons, Option.some.injEq]

theorem ArrayType.reaches_struct {fields : List Field} {free slot : Nat} {v : Value} :
    Reaches ⟨[], .struct fields⟩ free slot v ↔ ∃ values, v.record? fields = some values ∧
      Struct.Meet (fun t free _ => t.dims.head? = some .strided ∧ free = slot) fields free
        values := by
  refine ⟨fun h => h.resolve_left fun hhere => ?_, .inr⟩
  exact absurd hhere.1 (by simp)

end Cons

/-! ## Records -/

section Records

variable {accepts : LeafType → Atom → Prop} {σ : Nat → Nat} {here : ArrayType → Nat → Value → Prop}

theorem Struct.conform_iff_forall {fields : List Field} : ∀ {free : Nat} {values : List Value},
    values.length = fields.length → (Conform accepts σ fields free values ↔
      ∀ p ∈ parts free fields values, p.type.Conforms accepts σ p.free p.value) := by
  induction fields with
  | nil =>
    intro free values hlen
    obtain rfl := List.eq_nil_of_length_eq_zero hlen
    simp [Conform, parts]
  | cons f fields ih =>
    intro free values hlen
    cases values with
    | nil => exact absurd hlen (by simp)
    | cons v vs => rw [conform_cons, parts, List.forall_mem_cons, ih (Nat.succ.inj hlen)]

theorem Struct.meet_iff_exists {fields : List Field} : ∀ {free : Nat} {values : List Value},
    Meet here fields free values ↔
      ∃ p ∈ parts free fields values, p.type.Meets here p.free p.value := by
  induction fields with
  | nil => simp [Meet, parts]
  | cons f fields ih =>
    intro free values
    cases values with
    | nil => simp [Meet, parts]
    | cons v vs => rw [meet_cons, parts, List.exists_mem_cons_iff, ih]

/-- A record conforms if its fields do, as a sequence does if its elements do. -/
theorem ArrayType.conforms_struct {fields : List Field} {free : Nat} {v : Value} :
    Conforms accepts σ ⟨[], .struct fields⟩ free v ↔ ∃ values, v.record? fields = some values ∧
      ∀ p ∈ Struct.parts free fields values, p.type.Conforms accepts σ p.free p.value := by
  refine exists_congr fun values => and_congr_right fun hvalues => ?_
  exact Struct.conform_iff_forall (Value.length_of_record? hvalues)

theorem ArrayType.meets_struct {fields : List Field} {free : Nat} {v : Value} :
    Meets here ⟨[], .struct fields⟩ free v ↔ here ⟨[], .struct fields⟩ free v ∨
      ∃ values, v.record? fields = some values ∧
        ∃ p ∈ Struct.parts free fields values, p.type.Meets here p.free p.value := by
  refine or_congr_right (exists_congr fun values => and_congr_right fun _ => ?_)
  exact Struct.meet_iff_exists

end Records

/-- What is met is there. -/
theorem ArrayType.Meets.exists {here : ArrayType → Nat → Value → Prop} {t : ArrayType} :
    ∀ {free : Nat} {v : Value}, t.Meets here free v → ∃ t' free' v', here t' free' v' := by
  induction t using ArrayType.induction with
  | scalar k | string s =>
    intro free v h
    exact ⟨_, free, v, h⟩
  | struct fields ih =>
    intro free v h
    rcases ArrayType.meets_struct.mp h with h | ⟨values, -, p, hp, h⟩
    · exact ⟨_, free, v, h⟩
    · obtain ⟨f, hf, free', x, rfl⟩ := Struct.exists_of_mem_parts hp
      exact ih f hf h
  | dim d dims leaf ih =>
    intro free v h
    rcases ArrayType.meets_cons.mp h with h | ⟨xs, -, x, -, h⟩
    · exact ⟨_, free, v, h⟩
    · exact ih h

/-! ## What conformance depends on -/

section Conforms

variable {accepts accepts' : LeafType → Atom → Prop} {σ : Nat → Nat}

/-- Of what the leaves accept, only the scalars that are put there count. -/
theorem ArrayType.Conforms.imp_of_leafAt {t : ArrayType} :
    ∀ {free : Nat} {v : Value}, t.Conforms accepts σ free v →
      (∀ leaf a, accepts leaf a → t.LeafAt free leaf a v → accepts' leaf a) →
      t.Conforms accepts' σ free v := by
  induction t using ArrayType.induction with
  | scalar k | string s =>
    rintro free v ⟨a, rfl, ha⟩ himp
    exact ⟨a, rfl, himp _ a ha ⟨rfl, rfl⟩⟩
  | struct fields ih =>
    intro free v h himp
    obtain ⟨values, hvalues, hall⟩ := ArrayType.conforms_struct.mp h
    refine ArrayType.conforms_struct.mpr ⟨values, hvalues, fun p hp => ?_⟩
    obtain ⟨f, hf, free', x, rfl⟩ := Struct.exists_of_mem_parts hp
    refine ih f hf (hall _ hp) fun leaf a ha hat => himp leaf a ha ?_
    exact ArrayType.meets_struct.mpr (.inr ⟨values, hvalues, _, hp, hat⟩)
  | dim d dims leaf ih =>
    rintro free v ⟨xs, hxs, hadmits, hall⟩ himp
    refine ⟨xs, hxs, hadmits, fun x hx => ih (hall x hx) fun leaf a ha hat => ?_⟩
    exact himp leaf a ha (.inr ⟨xs, hxs, x, hx, hat⟩)

/-- What is met in a conforming value conforms too. -/
theorem ArrayType.Conforms.of_meets {here : ArrayType → Nat → Value → Prop} {t : ArrayType} :
    ∀ {free : Nat} {v : Value}, t.Conforms accepts σ free v → t.Meets here free v →
      ∃ t' free' v', here t' free' v' ∧ t'.Conforms accepts σ free' v' := by
  induction t using ArrayType.induction with
  | scalar k | string s => exact fun h hhere => ⟨_, _, _, hhere, h⟩
  | struct fields ih =>
    intro free v h hm
    rcases ArrayType.meets_struct.mp hm with hhere | ⟨values, hvalues, p, hp, hm⟩
    · exact ⟨_, _, _, hhere, h⟩
    · obtain ⟨values', hvalues', hall⟩ := ArrayType.conforms_struct.mp h
      obtain rfl := Option.some.inj (hvalues.symm.trans hvalues')
      obtain ⟨f, hf, free', x, rfl⟩ := Struct.exists_of_mem_parts hp
      exact ih f hf (hall _ hp) hm
  | dim d dims leaf ih =>
    intro free v h hm
    rcases ArrayType.meets_cons.mp hm with hhere | ⟨xs, hxs, x, hx, hm⟩
    · exact ⟨_, _, _, hhere, h⟩
    · obtain ⟨xs', hxs', -, hall⟩ := h
      obtain rfl := Option.some.inj (hxs.symm.trans hxs')
      exact ih (hall x hx) hm

/-- A strided dimension admits no lazy source. -/
theorem ArrayType.Conforms.not_lazyStride {t : ArrayType} {free : Nat} {v : Value}
    (h : t.Conforms accepts σ free v) : ¬t.LazyStride free v := by
  intro hlazy
  obtain ⟨⟨dims, leaf⟩, free', w, ⟨hhead, hiter⟩, hw⟩ := h.of_meets hlazy
  cases dims with
  | nil => exact absurd hhead (by simp)
  | cons d dims =>
    obtain rfl := Option.some.inj hhead
    obtain ⟨xs, -, hadmits, -⟩ := hw
    exact absurd (hiter.symm.trans hadmits.1) (by simp)

/-! ## How elements are kept -/

section Preserves

variable {f : Value → Value}

/-- A conforming value still conforms when its elements are kept in another way, if that makes no
lazy sources. -/
theorem ArrayType.Conforms.map (hf : Value.Preserves f)
    (hlazy : ∀ v, (f v).isIterator = true → v.isIterator = true) {t : ArrayType} :
    ∀ {free : Nat} {v : Value}, t.Conforms accepts σ free v → t.Conforms accepts σ free (f v) := by
  induction t using ArrayType.induction with
  | scalar k | string s =>
    rintro free v ⟨a, rfl, ha⟩
    exact ⟨a, hf.atom a, ha⟩
  | struct fields ih =>
    intro free v h
    obtain ⟨values, hvalues, hall⟩ := ArrayType.conforms_struct.mp h
    refine ArrayType.conforms_struct.mpr
      ⟨values.map f, by rw [hf.record?, hvalues]; rfl, fun q hq => ?_⟩
    rw [Struct.parts_map] at hq
    obtain ⟨p, hp, rfl⟩ := List.mem_map.mp hq
    obtain ⟨g, hg, free', x, rfl⟩ := Struct.exists_of_mem_parts hp
    exact ih g hg (hall _ hp)
  | dim d dims leaf ih =>
    rintro free v ⟨xs, hxs, hadmits, hall⟩
    refine ⟨xs.map f, by rw [hf.items?, hxs]; rfl, ?_, ?_⟩
    · rw [List.length_map]
      cases d with
      | strided =>
        refine ⟨Bool.eq_false_iff.mpr fun h => ?_, hadmits.2⟩
        exact absurd (hlazy v h) (by rw [hadmits.1]; simp)
      | _ => exact hadmits
    · intro y hy
      obtain ⟨x, hx, rfl⟩ := List.mem_map.mp hy
      exact ih (hall x hx)

/-- And it conformed before, unless a lazy source at a strided dimension was made into something
else. -/
theorem ArrayType.Conforms.of_map (hf : Value.Preserves f) {t : ArrayType} :
    ∀ {free : Nat} {v : Value}, t.Conforms accepts σ free (f v) →
      ¬t.Meets (fun t _ v => t.dims.head? = some .strided ∧ v.isIterator = true ∧
        (f v).isIterator = false) free v →
      t.Conforms accepts σ free v := by
  have hatom : ∀ {v : Value} {a : Atom}, f v = .atom a → v = .atom a := by
    intro v a h
    have hv : v.atom? = some a := by rw [← hf.atom?, h]; rfl
    cases v with
    | atom b => rw [Option.some.inj hv]
    | _ => exact absurd hv (by simp [Value.atom?])
  induction t using ArrayType.induction with
  | scalar k | string s =>
    rintro free v ⟨a, hv, ha⟩ _
    exact ⟨a, hatom hv, ha⟩
  | struct fields ih =>
    intro free v h hmeets
    obtain ⟨values, hvalues, hall⟩ := ArrayType.conforms_struct.mp h
    rw [hf.record?] at hvalues
    obtain ⟨ws, hws, rfl⟩ := Option.map_eq_some_iff.mp hvalues
    rw [Struct.parts_map, List.forall_mem_map] at hall
    refine ArrayType.conforms_struct.mpr ⟨ws, hws, fun p hp => ?_⟩
    obtain ⟨g, hg, free', x, rfl⟩ := Struct.exists_of_mem_parts hp
    refine ih g hg (hall _ hp) fun hm => hmeets ?_
    exact ArrayType.meets_struct.mpr (.inr ⟨ws, hws, _, hp, hm⟩)
  | dim d dims leaf ih =>
    rintro free v ⟨ys, hys, hadmits, hall⟩ hmeets
    rw [hf.items?] at hys
    obtain ⟨xs, hxs, rfl⟩ := Option.map_eq_some_iff.mp hys
    rw [List.length_map] at hadmits
    refine ⟨xs, hxs, ?_, fun x hx => ?_⟩
    · cases d with
      | strided =>
        refine ⟨Bool.eq_false_iff.mpr fun h => ?_, hadmits.2⟩
        exact hmeets (ArrayType.meets_cons.mpr (.inl ⟨rfl, h, hadmits.1⟩))
      | _ => exact hadmits
    · refine ih (hall _ (List.mem_map_of_mem hx)) fun hm => hmeets ?_
      exact ArrayType.meets_cons.mpr (.inr ⟨xs, hxs, x, hx, hm⟩)

/-- What is met stays, as far as the description goes with the change. -/
theorem ArrayType.meets_map (hf : Value.Preserves f) {here here' : ArrayType → Nat → Value → Prop}
    (hhere : ∀ t free v, here t free (f v) ↔ here' t free v) {t : ArrayType} :
    ∀ {free : Nat} {v : Value}, t.Meets here free (f v) ↔ t.Meets here' free v := by
  induction t using ArrayType.induction with
  | scalar k | string s => exact fun {free v} => hhere _ free v
  | struct fields ih =>
    intro free v
    rw [meets_struct, meets_struct, hf.record?]
    refine or_congr (hhere _ free v) ?_
    cases v.record? fields with
    | none => simp
    | some values =>
      simp only [Option.map_some, Option.some.injEq, exists_eq_left', Struct.parts_map,
        List.mem_map, exists_exists_and_eq_and]
      refine exists_congr fun p => and_congr_right fun hp => ?_
      obtain ⟨g, hg, free', x, rfl⟩ := Struct.exists_of_mem_parts hp
      exact ih g hg
  | dim d dims leaf ih =>
    intro free v
    rw [meets_cons, meets_cons, hf.items?]
    refine or_congr (hhere _ free v) ?_
    constructor
    · rintro ⟨ys, hys, y, hy, hm⟩
      obtain ⟨xs, hxs, rfl⟩ := Option.map_eq_some_iff.mp hys
      obtain ⟨x, hx, rfl⟩ := List.mem_map.mp hy
      exact ⟨xs, hxs, x, hx, ih.mp hm⟩
    · rintro ⟨xs, hxs, x, hx, hm⟩
      exact ⟨xs.map f, by rw [hxs]; rfl, f x, List.mem_map_of_mem hx, ih.mpr hm⟩

end Preserves

/-- How far sources were looked into does not matter. -/
theorem ArrayType.conforms_drained {t : ArrayType} {free : Nat} {v : Value} :
    t.Conforms accepts σ free v.drained ↔ t.Conforms accepts σ free v := by
  constructor
  · refine fun h => h.of_map Value.preserves_drained fun hmeets => ?_
    obtain ⟨_, _, w, -, hiter, hdrained⟩ := hmeets.exists
    rw [Value.isIterator_drained, hiter] at hdrained
    exact absurd hdrained (by simp)
  · exact fun h => h.map Value.preserves_drained fun w hw => (Value.isIterator_drained w).symm.trans hw

theorem ArrayType.conforms_of_drained_eq {t : ArrayType} {free : Nat} {v w : Value}
    (h : v.drained = w.drained) (hv : t.Conforms accepts σ free v) :
    t.Conforms accepts σ free w := by
  rw [← conforms_drained, ← h, conforms_drained]
  exact hv

/-- Nor does it decide which strided dimensions are reached. -/
theorem ArrayType.reaches_drained {t : ArrayType} {free slot : Nat} {v : Value} :
    t.Reaches free slot v.drained ↔ t.Reaches free slot v :=
  meets_map Value.preserves_drained fun _ _ _ => Iff.rfl

theorem ArrayType.reaches_of_drained_eq {t : ArrayType} {free slot : Nat} {v w : Value}
    (h : v.drained = w.drained) : t.Reaches free slot v ↔ t.Reaches free slot w := by
  rw [← reaches_drained, h, reaches_drained]

end Conforms

end Ragged
