import Ragged.Proofs.Layout.Writing
import Ragged.Proofs.Leaf.Restored
import Ragged.Proofs.Type.Conformance
import Ragged.Proofs.Value.Paths

/-!
# What was coerced fits

A value coerced to a type has lists for all dimensions and mappings in declared order for all records,
and its scalars come from leaves. Nothing is left to be changed:

> coerced again it stays as it is, it conforms to the type wherever the first value did, and it
> reaches the same strided dimensions.

All three go by induction over the two values (`ArrayType.coerce_induct`). Records are where the names
must be distinct, or a mapping would not say which field each value belongs to.
-/

set_option autoImplicit false

namespace Ragged

/-! ## Records -/

/-- The values of distinct names are found under these. -/
theorem Entries.mapM_get?_zip {α : Type} {names : List String} :
    ∀ {ws : List α}, names.Nodup → ws.length = names.length →
      names.mapM (get? (names.zip ws)) = some ws := by
  induction names with
  | nil =>
    intro ws _ hlen
    rw [List.eq_nil_of_length_eq_zero hlen]
    rfl
  | cons name names ih =>
    intro ws hnodup hlen
    obtain ⟨hnew, hnodup⟩ := List.nodup_cons.mp hnodup
    cases ws with
    | nil => exact absurd hlen (by simp)
    | cons w ws =>
      have hfirst : get? ((name :: names).zip (w :: ws)) name = some w := by
        rw [get?, List.zip_cons_cons, List.lookup_cons_self]
      have hothers : names.mapM (get? ((name :: names).zip (w :: ws))) =
          names.mapM (get? (names.zip ws)) := by
        apply mapM_congr
        intro other hother
        have hne : (other == name) = false := beq_false_of_ne fun h => hnew (h ▸ hother)
        rw [get?, List.zip_cons_cons, List.lookup_cons, hne]
        rfl
      rw [mapM_cons_eq_some]
      exact ⟨w, ws, hfirst, hothers.trans (ih hnodup (Nat.succ.inj hlen)), rfl⟩

/-- A mapping of the field names is a record, with these values. -/
theorem Value.record?_zip {fields : Struct} {ws : List Value} (hnodup : (Struct.names fields).Nodup)
    (hlen : ws.length = fields.length) :
    (Value.dict ((Struct.names fields).zip ws)).record? fields = some ws := by
  have hlen : ws.length = (Struct.names fields).length := by
    rw [hlen, Struct.names, List.length_map]
  have hkeys : ∀ key ∈ Entries.keys ((Struct.names fields).zip ws), key ∈ Struct.names fields := by
    rw [Entries.keys_zip hlen]
    exact fun _ h => h
  exact (if_pos ⟨hnodup, hkeys⟩).trans (Entries.mapM_get?_zip hnodup hlen)

namespace ArrayType

variable {t : ArrayType} {v w : Value}

/-- **What was coerced stays as it is.** -/
theorem coerce_again {free : Nat} (hnames : ¬t.MeetsRepeat free v) (h : t.coerce v = some w) :
    t.coerce w = some w := by
  refine coerce_induct (motive := fun t _ w => t.coerce w = some w) ?atom ?record ?dim hnames h
  case atom =>
    intro leaf a b hb
    have hstays := LeafType.readBack?_of_readBack? hb
    cases leaf with
    | scalar k | string s =>
      show (LeafType.readBack? _ b).map Value.atom = _
      rw [hstays]
      rfl
    | struct fields => exact absurd hb (by simp [LeafType.readBack?, LeafType.store])
  case record =>
    rintro fields v values ws hnodup - heach
    have hws : Struct.coerce fields ws = some ws := by
      clear hnodup
      induction heach with
      | nil => rfl
      | cons hw _ ih => rw [Struct.coerce_cons, hw, Option.bind_some, ih, Option.map_some]
    show (Value.record? fields _).bind _ = _
    rw [Value.record?_zip hnodup heach.length, Option.bind_some, hws]
    rfl
  case dim =>
    rintro d dims leaf v xs ws - heach
    have hws : ws.mapM (coerce ⟨dims, leaf⟩) = some ws := by
      refine mapM_of_forall₂ (List.forall₂_same.mpr fun w hw => ?_)
      obtain ⟨v, -, hstays⟩ := exists_of_forall₂ heach.flip w hw
      exact hstays
    show (ws.mapM (coerce ⟨dims, leaf⟩)).map Value.list = _
    rw [hws]
    rfl

/-- **What was coerced conforms** to the type if the value did, with the same extents. -/
theorem conforms_again {free : Nat} (hnames : ¬t.MeetsRepeat free v) (h : t.coerce v = some w) :
    ∀ {σ : Nat → Nat} {free : Nat}, t.Conforms LeafType.Accepts σ free v →
      t.Conforms LeafType.Accepts σ free w := by
  refine coerce_induct (motive := fun t v w => ∀ {σ : Nat → Nat} {free : Nat},
    t.Conforms LeafType.Accepts σ free v → t.Conforms LeafType.Accepts σ free w)
    ?atom ?record ?dim hnames h
  case atom =>
    intro leaf a b hb σ free hconf
    have hstays := LeafType.readBack?_of_readBack? hb
    have haccepts : leaf.Accepts b := by
      cases hs : leaf.store b with
      | ok s => exact ⟨s, hs⟩
      | error e => simp [LeafType.readBack?, hs] at hstays
    cases leaf with
    | scalar k | string s => exact ⟨b, rfl, haccepts⟩
    | struct fields => exact absurd hb (by simp [LeafType.readBack?, LeafType.store])
  case record =>
    rintro fields v values ws hnodup hvalues heach σ free ⟨values', hvalues', hconf⟩
    obtain rfl := Option.some.inj (hvalues.symm.trans hvalues')
    refine ⟨ws, Value.record?_zip hnodup heach.length, ?_⟩
    clear hnodup hvalues hvalues'
    induction heach generalizing free with
    | nil => trivial
    | cons hw _ ih =>
      obtain ⟨hv, hvs⟩ := Struct.conform_cons.mp hconf
      exact Struct.conform_cons.mpr ⟨hw hv, ih hvs⟩
  case dim =>
    rintro d dims leaf v xs ws hxs heach σ free ⟨xs', hxs', hadmits, hall⟩
    obtain rfl := Option.some.inj (hxs.symm.trans hxs')
    refine ⟨ws, rfl, ?_, ?_⟩
    · rw [← heach.length_eq]
      cases d with
      | strided => exact ⟨rfl, hadmits.2⟩
      | _ => exact hadmits
    · clear hxs hxs' hadmits
      induction heach with
      | nil => exact fun _ h => absurd h List.not_mem_nil
      | cons hw _ ih =>
        obtain ⟨hx, hxs⟩ := List.forall_mem_cons.mp hall
        exact List.forall_mem_cons.mpr ⟨hw hx, ih hxs⟩

end ArrayType

end Ragged
