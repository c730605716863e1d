import Mathlib.Data.List.Forall2
import Ragged.Proofs.Type.Coercion
import Ragged.Proofs.Type.Conformance

/-!
# Types that leave lengths open

Two types can be the same but for some dimensions, in the array or in fields, where the first lets
each instance have a length of its own and the second fixes one. `ArrayType.Loosens` says that.

> Both make the same of a value, and a value whose lengths are as the second wants them conforms to
> one just if it does to the other.
-/

set_option autoImplicit false

namespace Ragged

/-- The dimension is the other one, or leaves open the length that the other fixes. -/
def Dimension.Loosens (d d' : Dimension) : Prop := d = d' ∨ d = .var ∧ ∃ n, d' = .fixed n

mutual

/-- The type is the other one, except that some of its dimensions leave open a length. -/
def ArrayType.Loosens : ArrayType → ArrayType → Prop
  | ⟨dims, leaf⟩, ⟨dims', leaf'⟩ => List.Forall₂ Dimension.Loosens dims dims' ∧ leaf.Loosens leaf'
termination_by structural t => t

def LeafType.Loosens : LeafType → LeafType → Prop
  | .scalar k, .scalar k' => k = k'
  | .string s, .string s' => s = s'
  | .struct fields, .struct fields' => Struct.Loosen fields fields'
  | _, _ => False
termination_by structural leaf => leaf

/-- Fields of the same names, each loosening the other. -/
def Struct.Loosen : List Field → List Field → Prop
  | [], [] => True
  | ⟨name, type⟩ :: fields, ⟨name', type'⟩ :: fields' =>
    name = name' ∧ type.Loosens type' ∧ Struct.Loosen fields fields'
  | _, _ => False
termination_by structural fields => fields

end

theorem Dimension.Loosens.slots {d d' : Dimension} (h : d.Loosens d') : d.slots = d'.slots := by
  rcases h with rfl | ⟨rfl, n, rfl⟩
  · rfl
  · rfl

theorem Struct.loosen_iff {fields : List Field} :
    ∀ {fields' : List Field}, Loosen fields fields' ↔
      List.Forall₂ (fun f g => f.name = g.name ∧ f.type.Loosens g.type) fields fields' := by
  induction fields with
  | nil =>
    intro fields'
    cases fields' <;> simp [Loosen]
  | cons f fields ih =>
    intro fields'
    cases fields' with
    | nil => simp [Loosen]
    | cons g fields' =>
      rw [List.forall₂_cons, ← ih, and_assoc]
      cases f
      cases g
      exact Iff.rfl

/-- Types of which one loosens the other are alike, so both are gone down together. -/
@[elab_as_elim]
theorem ArrayType.Loosens.elim {motive : ArrayType → ArrayType → Prop}
    (scalar : ∀ k, motive ⟨[], .scalar k⟩ ⟨[], .scalar k⟩)
    (string : ∀ s, motive ⟨[], .string s⟩ ⟨[], .string s⟩)
    (struct : ∀ fields fields' : List Field,
      List.Forall₂ (fun f g => f.name = g.name ∧ f.type.Loosens g.type ∧ motive f.type g.type)
        fields fields' → motive ⟨[], .struct fields⟩ ⟨[], .struct fields'⟩)
    (dim : ∀ d d' dims dims' leaf leaf', d.Loosens d' → motive ⟨dims, leaf⟩ ⟨dims', leaf'⟩ →
      motive ⟨d :: dims, leaf⟩ ⟨d' :: dims', leaf'⟩)
    {t t' : ArrayType} (h : t.Loosens t') : motive t t' := by
  revert t'
  induction t using ArrayType.induction with
  | scalar k =>
    rintro ⟨dims, leaf⟩ ⟨hdims, hleaf⟩
    cases hdims
    cases leaf with
    | scalar k' =>
      obtain rfl : k = k' := hleaf
      exact scalar k
    | _ => exact hleaf.elim
  | string s =>
    rintro ⟨dims, leaf⟩ ⟨hdims, hleaf⟩
    cases hdims
    cases leaf with
    | string s' =>
      obtain rfl : s = s' := hleaf
      exact string s
    | _ => exact hleaf.elim
  | struct fields ih =>
    rintro ⟨dims, leaf⟩ ⟨hdims, hleaf⟩
    cases hdims
    cases leaf with
    | struct fields' =>
      -- the fields go in pairs, and each pair has its own induction hypothesis
      have hfields := (List.forall₂_and_left fields fields').mpr ⟨ih, Struct.loosen_iff.mp hleaf⟩
      exact struct fields fields' (hfields.imp fun f g h => ⟨h.2.1, h.2.2, h.1 h.2.2⟩)
    | _ => exact hleaf.elim
  | dim d dims leaf ih =>
    rintro ⟨dims', leaf'⟩ ⟨hdims, hleaf⟩
    cases hdims with
    | cons hd hrest => exact dim d _ dims _ leaf leaf' hd (ih ⟨hrest, hleaf⟩)

/-! ## What stays the same -/

theorem ArrayType.Loosens.refl (t : ArrayType) : t.Loosens t := by
  induction t using ArrayType.induction with
  | scalar k | string s => exact ⟨.nil, rfl⟩
  | struct fields ih =>
    exact ⟨.nil, Struct.loosen_iff.mpr (List.forall₂_same.mpr fun f hf => ⟨rfl, ih f hf⟩)⟩
  | dim d dims leaf ih => exact ⟨.cons (.inl rfl) ih.1, ih.2⟩

section Loosens

variable {t t' : ArrayType}

theorem ArrayType.Loosens.rank (h : t.Loosens t') : t.rank = t'.rank := by
  cases t
  cases t'
  exact h.1.length_eq

theorem ArrayType.Loosens.strides (h : t.Loosens t') : t.strides = t'.strides := by
  refine h.elim ?scalar ?string ?struct ?dim
  case scalar => exact fun _ => rfl
  case string => exact fun _ => rfl
  case struct =>
    intro fields fields' hfields
    rw [strides_struct, strides_struct]
    induction hfields with
    | nil => rfl
    | cons hfg _ ih => rw [Struct.strides_cons, Struct.strides_cons, hfg.2.2, ih]
  case dim =>
    intro d d' dims dims' leaf leaf' hd ih
    rw [strides_cons, strides_cons, hd.slots, ih]

theorem Struct.names_of_forall₂ {R : Field → Field → Prop} {fields fields' : List Field}
    (h : List.Forall₂ (fun f g => f.name = g.name ∧ R f g) fields fields') :
    names fields = names fields' :=
  map_eq_of_forall₂ (h.imp fun _ _ hfg => hfg.1)

/-- Which values are the fields is a matter of the names alone. -/
theorem Value.record?_of_names {fields fields' : Struct}
    (h : Struct.names fields = Struct.names fields') (v : Value) :
    v.record? fields = v.record? fields' := by
  have hlength : fields.length = fields'.length := by
    simpa [Struct.names] using congrArg List.length h
  cases v with
  | dict entries => rw [record?, record?, h]
  | _ => simp only [record?, hlength]

/-- **Open lengths make no difference to what a type makes of a value.** -/
theorem ArrayType.Loosens.coerce (h : t.Loosens t') : ∀ v : Value, t.coerce v = t'.coerce v := by
  refine h.elim ?scalar ?string ?struct ?dim
  case scalar => exact fun _ _ => rfl
  case string => exact fun _ _ => rfl
  case struct =>
    intro fields fields' hfields
    have hcoerce : ∀ values, Struct.coerce fields values = Struct.coerce fields' values := by
      induction hfields with
      | nil => exact fun _ => rfl
      | @cons f g _ _ hfg _ ih =>
        intro values
        cases values with
        | nil => cases f; cases g; rfl
        | cons v vs => rw [Struct.coerce_cons, Struct.coerce_cons, hfg.2.2, ih]
    intro v
    show (v.record? fields).bind _ = (v.record? fields').bind _
    rw [Value.record?_of_names (Struct.names_of_forall₂ hfields), Struct.names_of_forall₂ hfields]
    simp only [hcoerce]
  case dim =>
    intro d d' dims dims' leaf leaf' hd ih v
    rw [coerce_cons, coerce_cons, funext ih]

section Conforms

variable {accepts accepts' : LeafType → Atom → Prop} {σ : Nat → Nat}

theorem Dimension.Loosens.admits {d d' : Dimension} (h : d.Loosens d') {slot length : Nat}
    {isLazy : Bool} (hadmits : d'.Admits σ slot isLazy length) :
    d.Admits σ slot isLazy length := by
  rcases h with rfl | ⟨rfl, n, rfl⟩
  · exact hadmits
  · trivial

/-- **A value whose lengths are as the second type wants them conforms to both or to neither.** -/
theorem ArrayType.Loosens.conforms_iff (h : t.Loosens t') :
    ∀ (free : Nat) (v : Value), t'.Conforms accepts' σ free v →
      (t.Conforms accepts σ free v ↔ t'.Conforms accepts σ free v) := by
  refine h.elim ?scalar ?string ?struct ?dim
  case scalar => exact fun _ _ _ _ => Iff.rfl
  case string => exact fun _ _ _ _ => Iff.rfl
  case struct =>
    intro fields fields' hfields
    have hconform : ∀ {free : Nat} {values : List Value},
        Struct.Conform accepts' σ fields' free values →
          (Struct.Conform accepts σ fields free values ↔
            Struct.Conform accepts σ fields' free values) := by
      induction hfields with
      | nil => exact fun _ => Iff.rfl
      | @cons f g _ _ hfg _ ih =>
        intro free values hv
        cases values with
        | nil => cases f; cases g; exact Iff.rfl
        | cons v vs =>
          rw [Struct.conform_cons] at hv ⊢
          rw [Struct.conform_cons, hfg.2.2 free v hv.1, hfg.2.1.strides, ih hv.2]
    rintro free v ⟨values, hvalues, hconf⟩
    show (∃ values, v.record? fields = some values ∧ _) ↔
      ∃ values, v.record? fields' = some values ∧ _
    rw [Value.record?_of_names (Struct.names_of_forall₂ hfields), hvalues]
    refine exists_congr fun values' => and_congr_right fun hsame => ?_
    obtain rfl := Option.some.inj hsame
    exact hconform hconf
  case dim =>
    rintro d d' dims dims' leaf leaf' hd ih free v ⟨xs, hxs, hadmits, hall⟩
    rw [conforms_cons, conforms_cons, hxs, hd.slots]
    refine exists_congr fun xs' => and_congr_right fun hsame => ?_
    obtain rfl := Option.some.inj hsame
    -- both dimensions take a length that the second one takes
    refine and_congr (iff_of_true (hd.admits hadmits) hadmits) ?_
    exact forall₂_congr fun x hx => ih _ x (hall x hx)

end Conforms

end Loosens

end Ragged
