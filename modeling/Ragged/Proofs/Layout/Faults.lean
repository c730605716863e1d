import Ragged.Proofs.Layout.Arrays

/-!
# Why writing ends

An open block takes what is written to it: regions have room for it, blocks are of the form that the
layout wants, and the extents found are at hand. So where writing ends with an error, the value is to
blame.

> An error of the write pass is the fault of some instance that the value meets at its type: of its
> number of elements, of its keys, of a scalar that a leaf does not store.

`ArrayType.Fault` says which error is whose fault, and none of these errors is about storage.
-/

set_option autoImplicit false

namespace Ragged

/-! ## Faults of an instance -/

/-- What a leaf that is not a struct stores of a value. -/
def LeafType.take (leaf : LeafType) : Value → Except BuildError Scalar
  | .atom a => leaf.store a
  | .dict _ => .error (.type (.mappingAsScalar leaf.render))
  | v => .error (.shape (.elementsAsScalar leaf.render v.category.render))

/-- The instance itself is the reason for the error, taken as one of the type. -/
inductive ArrayType.Fault (e : BuildError) : ArrayType → Value → Prop where
  | noElements {d : Dimension} {dims : List Dimension} {leaf : LeafType} {v : Value} {depth : Nat}
      (h : v.childrenAt depth = .error e) : Fault e ⟨d :: dims, leaf⟩ v
  /-- A fixed dimension wants its extent, and a strided one that of the first instance. -/
  | tooFew {d : Dimension} {dims : List Dimension} {leaf : LeafType} {v : Value} {xs : List Value}
      {depth n : Nat} (hd : d.isVar = false) (hfixed : ∀ m, d = .fixed m → n = m)
      (hxs : v.items? = some xs) (hlt : xs.length < n) (he : e = .tooFew depth n xs.length) :
      Fault e ⟨d :: dims, leaf⟩ v
  | tooMany {d : Dimension} {dims : List Dimension} {leaf : LeafType} {v : Value} {xs : List Value}
      {depth n : Nat} {found : Count} (hd : d.isVar = false) (hfixed : ∀ m, d = .fixed m → n = m)
      (hxs : v.items? = some xs) (hlt : n < xs.length) (he : e = .tooMany depth n found) :
      Fault e ⟨d :: dims, leaf⟩ v
  | lazySource {dims : List Dimension} {leaf : LeafType} {v : Value} {depth : Nat}
      (hv : v.isIterator = true) (he : e = .source (.stridedIterator depth)) :
      Fault e ⟨.strided :: dims, leaf⟩ v
  | noRecord {fields : List Field} {v : Value} (h : (v.recordFields fields).2 = .error e) :
      Fault e ⟨[], .struct fields⟩ v
  | notTaken {leaf : LeafType} {v : Value} (hleaf : leaf.isStruct = false)
      (h : leaf.take v = .error e) : Fault e ⟨[], leaf⟩ v

/-- Some instance that the value meets at the type is the reason for the error. -/
def ArrayType.Faults (t : ArrayType) (e : BuildError) (free : Nat) (v : Value) : Prop :=
  t.Meets (fun t _ v => t.Fault e v) free v

/-! ## No fault is about storage -/

theorem LeafType.category_of_take {leaf : LeafType} {v : Value} {e : BuildError}
    (h : leaf.take v = .error e) : e.category = .typeUnification ∨ e.category = .shapeMismatch := by
  cases v with
  | atom a => exact .inl (category_of_store h)
  | dict entries =>
    rw [← Except.error.inj h]
    exact .inl rfl
  | list items | tuple items | iter source =>
    rw [← Except.error.inj h]
    exact .inr rfl

theorem Value.category_of_childrenAt {v : Value} {depth : Nat} {e : BuildError}
    (h : v.childrenAt depth = .error e) : e.category = .shapeMismatch := by
  cases v with
  | atom a | dict entries =>
    rw [← Except.error.inj h]
    rfl
  | _ => exact absurd h (by simp [childrenAt])

theorem Value.category_of_namedFields {fields : Struct} {entries : List (String × Value)}
    {rest : List Field} {e : BuildError} :
    ∀ {i : Nat}, namedFields fields entries i rest = .error e → e.category = .fieldMismatch := by
  induction rest with
  | nil => intro i h; exact absurd h (by simp [namedFields])
  | cons f rest ih =>
    intro i h
    rw [namedFields] at h
    split at h
    · split at h
      · exact ih (error_of_bind_ok h fun values => ⟨_, rfl⟩)
      · rw [← Except.error.inj h]
        rfl
    · rw [← Except.error.inj h]
      rfl

theorem Value.category_of_recordFields {fields : Struct} {v : Value} {e : BuildError}
    (h : (v.recordFields fields).2 = .error e) :
    e.category = .fieldMismatch ∨ e.category = .typeUnification := by
  cases v with
  | atom a =>
    rw [← Except.error.inj h]
    exact .inr rfl
  | list items | tuple items =>
    simp only [recordFields] at h
    split at h
    · exact absurd h (by simp)
    · rw [← Except.error.inj h]
      exact .inl rfl
  | dict entries =>
    simp only [recordFields] at h
    split at h
    · rw [← Except.error.inj h]
      exact .inl rfl
    · exact .inl (category_of_namedFields h)
  | iter source =>
    simp only [recordFields] at h
    split at h
    · rw [← Except.error.inj h]
      exact .inl rfl
    · split at h
      · rw [← Except.error.inj h]
        exact .inl rfl
      · exact absurd h (by simp)

theorem ArrayType.Fault.category {e : BuildError} {t : ArrayType} {v : Value} (h : t.Fault e v) :
    e.category ≠ .storage := by
  cases h with
  | noElements h => simp [Value.category_of_childrenAt h]
  | tooFew _ _ _ _ he => simp [he, BuildError.category]
  | tooMany _ _ _ _ he => simp [he, BuildError.category]
  | lazySource _ he => simp [he, BuildError.category]
  | noRecord h => rcases Value.category_of_recordFields h with h | h <;> simp [h]
  | notTaken _ h => rcases LeafType.category_of_take h with h | h <;> simp [h]

/-! ## Passes that end early -/

namespace Layout

section Passes

variable {writeOne : WriteOne} {depth n : Nat} {s : Store} {b : Block} {e : BuildError}

/-- A pass for which a number of elements is wanted ends at one of the first so many, or because
there are fewer, or because there are more. -/
theorem writeItems_eq_error (xs : Supply Value) :
    ∀ {count : Nat} {done : List Value} {s : Store} {b : Block}, count ≤ n →
      (writeItems writeOne depth (some n) count done xs s b).outcome = .error e →
      writeAll writeOne (xs.toList.take (n - count)) s b = .error e ∨
        (count + xs.toList.length < n ∧ e = .tooFew depth n (count + xs.toList.length)) ∨
        (n < count + xs.toList.length ∧ ∃ found, e = .tooMany depth n found) := by
  induction xs with
  | nil =>
    intro count done s b hle h
    by_cases hlt : count < n
    · simp only [writeItems, if_pos hlt] at h
      exact .inr (.inl ⟨hlt, (Except.error.inj h).symm⟩)
    · simp only [writeItems, if_neg hlt] at h
      exact absurd h (by simp)
  | cons x rest ih =>
    intro count done s b hle h
    rw [Supply.toList_cons, List.length_cons]
    by_cases hlast : n = count
    · rw [writeItems, if_pos (congrArg some hlast)] at h
      rw [hlast]
      exact .inr (.inr ⟨by omega, _, (Except.error.inj h).symm⟩)
    · rw [writeItems, if_neg fun heq => hlast (Option.some.inj heq)] at h
      have htake : n - count = n - (count + 1) + 1 := by omega
      rw [htake, List.take_succ_cons, writeAll]
      cases hw : writeOne x s b with
      | mk w outcome =>
        rw [hw] at h
        cases outcome with
        | error e' => exact .inl h
        | ok r =>
          have hrest := ih ⟨⟩ (by omega) h
          rw [Nat.add_assoc, Nat.add_comm 1] at hrest
          exact hrest

theorem writeRegular_eq_error {c : Children} {v : Value}
    (hhint : ∀ m, c.lengthHint? = some m → m = c.elements.toList.length)
    (h : (writeRegular writeOne depth n c v s b).2 = .error e) :
    writeAll writeOne (c.elements.toList.take n) s b = .error e ∧
        (c.lengthHint?.isSome → c.elements.toList.length = n) ∨
      (c.elements.toList.length < n ∧ e = .tooFew depth n c.elements.toList.length) ∨
      (n < c.elements.toList.length ∧ ∃ found, e = .tooMany depth n found) := by
  simp only [writeRegular] at h
  split at h
  · rename_i hlt
    cases hc : c.lengthHint? with
    | none => rw [hc, Option.getD_none] at hlt; exact absurd hlt (Nat.lt_irrefl n)
    | some m =>
      rw [hc, Option.getD_some, hhint m hc] at hlt h
      exact .inr (.inl ⟨hlt, (Except.error.inj h).symm⟩)
  · rename_i hle
    split at h
    · rename_i hlt
      cases hc : c.lengthHint? with
      | none => rw [hc, Option.getD_none] at hlt; exact absurd hlt (Nat.lt_irrefl n)
      | some m =>
        rw [hc, Option.getD_some, hhint m hc] at hlt h
        exact .inr (.inr ⟨hlt, _, (Except.error.inj h).symm⟩)
    · rename_i hge
      rcases writeItems_eq_error c.elements (Nat.zero_le n) h with h | h | h
      · refine .inl ⟨h, fun hsome => ?_⟩
        obtain ⟨m, hm⟩ := Option.isSome_iff_exists.mp hsome
        rw [hm, Option.getD_some, hhint m hm] at hle hge
        omega
      · rw [Nat.zero_add] at h
        exact .inr (.inl h)
      · rw [Nat.zero_add] at h
        exact .inr (.inr h)

end Passes

/-! ## Instances that are not written -/

section Dims

variable {dims : List LayoutDim} {leaf : LayoutLeaf} {depth : Nat} {v : Value} {s : Store}
  {b : Block} {e : BuildError}

/-- What has no elements is an instance of no dimension, and at each the error is the same. -/
theorem childrenAt_of_writeFrom {d : LayoutDim} (hv : v.items? = none)
    (h : (writeFrom ⟨d :: dims, leaf⟩ depth v s b).2 = .error e)
    (hb : d = .var → ∃ rows, b = .var rows) : v.childrenAt depth = .error e := by
  obtain ⟨e', he'⟩ := Value.childrenAt_of_none hv depth
  rw [he']
  cases d with
  | fixed n | strided slot =>
    simp only [writeFrom, writeDims, he'] at h
    exact congrArg Except.error (Except.error.inj h)
  | var =>
    obtain ⟨rows, rfl⟩ := hb rfl
    simp only [writeFrom, writeDims, he'] at h
    exact congrArg Except.error (Except.error.inj h)

/-- At a fixed dimension. -/
theorem writeFrom_fixed_eq_error {n : Nat}
    (h : (writeFrom ⟨.fixed n :: dims, leaf⟩ depth v s b).2 = .error e) :
    v.childrenAt depth = .error e ∨ ∃ xs, v.items? = some xs ∧
      (writeAll (writeFrom ⟨dims, leaf⟩ (depth + 1)) (xs.take n) s b = .error e ∨
        (xs.length < n ∧ e = .tooFew depth n xs.length) ∨
        (n < xs.length ∧ ∃ found, e = .tooMany depth n found)) := by
  cases hxs : v.items? with
  | none => exact .inl (childrenAt_of_writeFrom hxs h (by simp))
  | some xs =>
    obtain ⟨c, hc, -, hels, -, hhint, -⟩ := Value.childrenAt_of_items? hxs depth
    simp only [writeFrom, writeDims, hc] at h
    rw [← hels] at hhint
    have hend := writeRegular_eq_error hhint h
    rw [hels] at hend
    exact .inr ⟨xs, rfl, hend.imp_left And.left⟩

/-- At a strided dimension, where the number of elements is compared before the first is written. -/
theorem writeFrom_strided_eq_error {slot : Nat}
    (h : (writeFrom ⟨.strided slot :: dims, leaf⟩ depth v s b).2 = .error e) :
    v.childrenAt depth = .error e ∨
      (v.isIterator = true ∧ e = .source (.stridedIterator depth)) ∨
      ∃ xs n, v.items? = some xs ∧ (s.settle slot xs.length).2 = n ∧
        (xs.length = n ∧ writeAll (writeFrom ⟨dims, leaf⟩ (depth + 1)) xs
            (s.settle slot xs.length).1 b = .error e ∨
          (xs.length < n ∧ e = .tooFew depth n xs.length) ∨
          (n < xs.length ∧ ∃ found, e = .tooMany depth n found)) := by
  cases hxs : v.items? with
  | none => exact .inl (childrenAt_of_writeFrom hxs h (by simp))
  | some xs =>
    obtain ⟨c, hc, -, hels, hiter, hhint, hknown⟩ := Value.childrenAt_of_items? hxs depth
    simp only [writeFrom, writeDims, hc, hiter] at h
    cases hv : v.isIterator with
    | true =>
      rw [hv] at h
      exact .inr (.inl ⟨rfl, (Except.error.inj h).symm⟩)
    | false =>
      have hlen := hknown hv
      simp only [hv, hlen, Bool.false_eq_true, if_false, Option.getD_some] at h
      rw [← hels] at hhint
      have hend := writeRegular_eq_error hhint h
      rw [hels, hlen] at hend
      refine .inr (.inr ⟨xs, _, rfl, rfl, ?_⟩)
      rcases hend with ⟨hall, hn⟩ | hend
      · have hn := hn rfl
        rw [← hn, List.take_length] at hall
        exact .inl ⟨hn, hall⟩
      · exact .inr hend

/-- At a var dimension. -/
theorem writeFrom_var_eq_error {rows : Array Row}
    (h : (writeFrom ⟨.var :: dims, leaf⟩ depth v s (.var rows)).2 = .error e) :
    v.childrenAt depth = .error e ∨ ∃ xs capacity, v.items? = some xs ∧
      writeAllAsRow (writeFrom ⟨dims, leaf⟩ (depth + 1)) ⟨dims, leaf⟩ capacity xs s rows
        = .error e := by
  cases hxs : v.items? with
  | none => exact .inl (childrenAt_of_writeFrom hxs h fun _ => ⟨rows, rfl⟩)
  | some xs =>
    rw [writeFrom_var hxs] at h
    exact .inr ⟨xs, _, rfl, h⟩

end Dims

/-- A record ends at its fields, or at one of their values. -/
theorem writeLeaf_struct_eq_error {type : List Field} {layouts : List Layout} {blocks : List Block}
    {v : Value} {s : Store} {e : BuildError}
    (h : (writeLeaf (.struct type layouts) v s (.struct blocks)).2 = .error e) :
    (v.recordFields type).2 = .error e ∨ ∃ values, v.record? type = some values ∧
      (writeFields layouts values blocks s).2 = .error e := by
  cases hr : (v.recordFields type).2 with
  | error e' =>
    simp only [writeLeaf] at h
    cases hv : v.recordFields type with
    | mk w outcome =>
      rw [hv] at hr h
      obtain rfl : outcome = .error e' := hr
      exact .inl (congrArg Except.error (Except.error.inj h))
  | ok values =>
    have hvalues := (Value.recordFields_eq_ok_iff type v values).mp hr
    rw [writeLeaf_struct hvalues] at h
    exact .inr ⟨values, hvalues, map_eq_error.mp h⟩

/-- Of a leaf, an open block takes what can be stored. -/
theorem take_of_writeElement {kind : ElementKind} {leaf : LeafType} {v : Value} {s : Store}
    {b : Block} {left : Option Nat} {vs : List Value} {e : BuildError}
    (hkind : ∀ a stored, leaf.store a = .ok stored → stored.kind = kind)
    (hopen : Open ⟨[], .element kind leaf⟩ s b (left.map (· + 1)) vs)
    (h : (writeElement leaf v s b).2 = .error e) : leaf.take v = .error e := by
  obtain ⟨id, r, rfl, hr, htakes⟩ := hopen.ready
  simp only [writeElement] at h
  cases v with
  | atom a =>
    cases hstore : leaf.store a with
    | error e' =>
      simp only [hstore] at h
      exact hstore.trans (congrArg Except.error (Except.error.inj h))
    | ok stored =>
      obtain rfl := hkind a stored hstore
      -- the region has room and is of that kind, so there is no error
      obtain ⟨arena, r', happend, -⟩ := Arena.append_of_takes hr htakes
      simp only [hstore, happend] at h
      exact absurd h (by simp)
  | _ => exact congrArg Except.error (Except.error.inj h)

end Layout

/-! ## Whose fault it is -/

/-- Where writing an instance of the type into an open block ends, some instance is at fault. -/
def ArrayType.Blames (t : ArrayType) : Prop :=
  ∀ {free depth : Nat} {s : Store} {b : Block} {left : Option Nat} {vs : List Value} {v : Value}
    {e : BuildError}, (t.layoutFrom free).Open s b (left.map (· + 1)) vs →
    free + t.strides ≤ s.extents.size →
    ((t.layoutFrom free).writeFrom depth v s b).2 = .error e → t.Faults e free v

namespace ArrayType

/-- A pass ends at one of its values. Induction on the values; those before it were written. -/
theorem Blames.writeAll {t : ArrayType} (ht : t.Blames) {free depth : Nat} {left : Option Nat}
    {e : BuildError} {xs : List Value} :
    ∀ {s : Store} {b : Block} {vs : List Value},
      (t.layoutFrom free).Open s b (left.map (· + xs.length)) vs →
      free + t.strides ≤ s.extents.size →
      Layout.writeAll ((t.layoutFrom free).writeFrom depth) xs s b = .error e →
      ∃ x ∈ xs, t.Faults e free x := by
  induction xs with
  | nil => intro s b vs _ _ h; exact absurd h (by simp [Layout.writeAll])
  | cons x xs ih =>
    intro s b vs hopen hslots h
    have hleft : left.map (· + (x :: xs).length) = (left.map (· + xs.length)).map (· + 1) := by
      cases left <;> rfl
    rw [hleft] at hopen
    unfold Layout.writeAll at h
    cases hw : ((t.layoutFrom free).writeFrom depth x s b).2 with
    | error e' =>
      rw [hw] at h
      obtain rfl := Except.error.inj h
      exact ⟨x, List.mem_cons_self, ht hopen hslots hw⟩
    | ok r =>
      rw [hw] at h
      -- one element less is to come
      have hwrote := t.advances hopen hslots hw
      obtain ⟨ws, -, hopen'⟩ := hwrote.coerced
      obtain ⟨y, hy, hfault⟩ := ih hopen' (by rw [hwrote.step.slots]; exact hslots) h
      exact ⟨y, List.mem_cons_of_mem x hy, hfault⟩

/-- A row is allocated and frozen without fail, so it ends at one of its elements. -/
theorem Blames.row {t : ArrayType} (ht : t.Blames) {free depth capacity : Nat} {xs : List Value}
    {s : Store} {rows : Array Row} {e : BuildError} (hslots : free + t.strides ≤ s.extents.size)
    (h : Layout.writeAllAsRow ((t.layoutFrom free).writeFrom depth) (t.layoutFrom free) capacity xs
      s rows = .error e) : ∃ x ∈ xs, t.Faults e free x := by
  have hfresh := (t.layoutFrom free).fresh_allocate s (.growable capacity)
    fun n hn => absurd hn (by simp)
  simp only [Layout.writeAllAsRow] at h
  cases halloc : (t.layoutFrom free).allocate s (.growable capacity) with
  | mk s₁ row =>
    rw [halloc] at hfresh h
    have hslots₁ : free + t.strides ≤ s₁.extents.size := by rw [hfresh.extents]; exact hslots
    have hrow : (t.layoutFrom free).Open s₁ row ((none : Option Nat).map (· + xs.length)) [] :=
      hfresh.isOpen
    cases hw : Layout.writeAll ((t.layoutFrom free).writeFrom depth) xs s₁ row with
    | error e' =>
      simp only [hw] at h
      obtain rfl := Except.error.inj h
      exact ht.writeAll hrow hslots₁ hw
    | ok r =>
      obtain ⟨s₂, row₂⟩ := r
      -- what is written can be frozen, so there is no error
      obtain ⟨ws, -, hopen⟩ := (ArrayType.Advances.wrote t.advances hrow hslots₁ hw).coerced
      obtain ⟨s₃, hfreeze, -⟩ :=
        Layout.freezes_of_ready _ hopen.ready (fun n hn => absurd hn (by simp)) hopen.nodup
      simp only [hw, hfreeze] at h
      exact absurd h (by simp)

theorem blames_element {leaf : LeafType} {kind : ElementKind} (hstruct : leaf.isStruct = false)
    (hlayout : ∀ free, layoutFrom free ⟨[], leaf⟩ = ⟨[], .element kind leaf⟩)
    (hkind : ∀ a stored, leaf.store a = .ok stored → stored.kind = kind)
    (hmeets : ∀ e free v, Fault e ⟨[], leaf⟩ v → Faults ⟨[], leaf⟩ e free v) :
    Blames ⟨[], leaf⟩ := by
  intro free depth s b left vs v e hopen _ h
  rw [hlayout] at hopen h
  exact hmeets e free v (.notTaken hstruct (Layout.take_of_writeElement hkind hopen h))

end ArrayType

/-- The fields of a record, one after the other. -/
theorem Struct.blames_fields {fields : List Field} (hf : ∀ f ∈ fields, f.type.Blames) :
    ∀ {free : Nat} {left : Option Nat} {records : List (List Value)} {values : List Value}
      {s : Store} {blocks : List Block} {e : BuildError},
      Open fields free s blocks (left.map (· + 1)) records →
      free + strides fields ≤ s.extents.size →
      (Layout.writeFields (layoutsFrom free fields) values blocks s).2 = .error e →
      Struct.Meet (fun t _ v => t.Fault e v) fields free values := by
  induction fields with
  | nil =>
    intro free left records values s blocks e _ _ h
    cases values <;> cases blocks <;> exact absurd h (by simp [layoutsFrom, Layout.numberFields,
      Layout.writeFields])
  | cons f fields ih =>
    intro free left records values s blocks e hopen hslots h
    obtain ⟨hfirst, hothers⟩ := List.forall_mem_cons.mp hf
    obtain ⟨b, bs, rfl, hfield, hbehind⟩ := hopen.cons
    rw [layoutsFrom_cons] at h
    rw [strides_cons] at hslots
    cases values with
    | nil => exact absurd h (by simp [Layout.writeFields])
    | cons v vs =>
      rw [Layout.writeFields_cons] at h
      rw [meet_cons]
      rcases bind_eq_error.mp h with hv | ⟨⟨s₁, b₁⟩, hv, h⟩
      · exact .inl (hfirst hfield (by omega) hv)
      · have hwrote := f.type.advances hfield (by omega) hv
        exact .inr (ih hothers (hbehind hwrote.step) (by rw [hwrote.step.slots]; omega)
          (map_eq_error.mp h))

namespace ArrayType

/-- **Where writing ends, the value is to blame.** The induction is on the type, as in the write pass
itself. -/
theorem blames (t : ArrayType) : t.Blames := by
  induction t using ArrayType.induction with
  | scalar k =>
    exact blames_element rfl (fun _ => rfl) (fun _ _ => ScalarKind.kind_of_store) fun _ _ _ h => h
  | string t =>
    exact blames_element rfl (fun _ => rfl) (fun _ _ => StringType.kind_of_store) fun _ _ _ h => h
  | struct fields ih =>
    intro free depth s b left vs v e hopen hslots h
    rw [strides_struct] at hslots
    obtain ⟨blocks, records, rfl, -, -, hfields⟩ := open_struct hopen
    rcases Layout.writeLeaf_struct_eq_error h with h | ⟨values, hvalues, h⟩
    · exact .inl (.noRecord h)
    · exact .inr ⟨values, hvalues, Struct.blames_fields ih hfields hslots h⟩
  | dim d dims leaf ih =>
    intro free depth s b left vs v e hopen hslots h
    rw [strides_cons] at hslots
    rw [layoutFrom_cons] at h
    cases d with
    | fixed n =>
      rcases Layout.writeFrom_fixed_eq_error h with h | ⟨xs, hxs, h | ⟨hlt, rfl⟩ | ⟨hlt, found, rfl⟩⟩
      · exact .inl (.noElements h)
      · -- of the elements that the instance has room for, as many as there are
        have hlen : (List.replicate n (default : Value)).length = n := List.length_replicate
        obtain ⟨kids, -, -, hinner⟩ := open_fixed hlen hopen
        have hroom : ((left.map (· * n)).map (· + (List.replicate n (default : Value)).length)) =
            (left.map fun k => k * n + (n - (xs.take n).length)).map (· + (xs.take n).length) := by
          cases left with
          | none => rfl
          | some k =>
            simp only [Option.map_some, List.length_replicate, List.length_take]
            congr 1
            omega
        rw [hroom] at hinner
        obtain ⟨x, hx, hfault⟩ := ih.writeAll hinner
          (by simp only [Dimension.slots] at hslots ⊢; omega) h
        exact .inr ⟨xs, hxs, x, List.mem_of_mem_take hx, hfault⟩
      · exact .inl (.tooFew rfl (fun m hm => Dimension.fixed.inj hm) hxs hlt rfl)
      · exact .inl (.tooMany rfl (fun m hm => Dimension.fixed.inj hm) hxs hlt rfl)
    | strided =>
      rcases Layout.writeFrom_strided_eq_error h with
        h | ⟨hv, rfl⟩ | ⟨xs, n, hxs, hn, ⟨rfl, h⟩ | ⟨hlt, rfl⟩ | ⟨hlt, found, rfl⟩⟩
      · exact .inl (.noElements h)
      · exact .inl (.lazySource hv rfl)
      · simp only [Dimension.slots] at hslots
        have hslot : free < s.extents.size := by omega
        -- the extent is settled before any element is written
        obtain ⟨-, hstep, -⟩ := Store.settle_spec hslot hn
        obtain ⟨kids, -, -, hinner⟩ := open_strided hslot hn hopen
        obtain ⟨x, hx, hfault⟩ := ih.writeAll hinner (by rw [hstep.slots]; omega) h
        exact .inr ⟨xs, hxs, x, hx, hfault⟩
      · exact .inl (.tooFew rfl (fun m hm => absurd hm (by simp)) hxs hlt rfl)
      · exact .inl (.tooMany rfl (fun m hm => absurd hm (by simp)) hxs hlt rfl)
    | var =>
      obtain ⟨rows, rfl⟩ := hopen.ready
      rcases Layout.writeFrom_var_eq_error h with h | ⟨xs, capacity, hxs, h⟩
      · exact .inl (.noElements h)
      · simp only [Dimension.slots, Nat.add_zero] at hslots h ⊢
        obtain ⟨x, hx, hfault⟩ := ih.row (by omega) h
        exact .inr ⟨xs, hxs, x, hx, hfault⟩

/-- **A value that is not written is at fault**: it meets an instance of which the error tells. -/
theorem faults_of_write {t : ArrayType} {growth : GrowthPolicy} {v : Value} {e : BuildError}
    (h : (t.write growth v).2 = .error e) : t.Faults e 0 v := by
  obtain ⟨s, b, hopen, hsize, -, hwrite⟩ := t.write_eq growth
  rw [hwrite] at h
  have hslots : 0 + t.strides ≤ s.extents.size := by omega
  cases hw : ((t.layoutFrom 0).writeFrom 0 v s b).2 with
  | error e' =>
    simp only [hw] at h
    obtain rfl := Except.error.inj h
    exact t.blames hopen hslots hw
  | ok r =>
    obtain ⟨s₁, b₁⟩ := r
    -- the one instance is there, so the root can be frozen and there is no error
    obtain ⟨ws, -, hopen₁⟩ := (t.advances hopen hslots hw).coerced
    obtain ⟨s₂, hfreeze, -⟩ := Layout.freezes_of_ready _ hopen₁.ready
      (fun n hn => (Option.some.inj hn).symm) hopen₁.nodup
    simp only [hw, hfreeze] at h
    exact absurd h (by simp)

end ArrayType

end Ragged
