import Ragged.Proofs.Shape.Peeking
import Ragged.Proofs.Shape.Samples
import Ragged.Proofs.Shape.Summing
import Ragged.Proofs.Value.Contained

/-!
# The leaf for some scalars

Without mappings a leaf type is inferred from nothing but the scalars there are. `ChosenFor` tells
which it is in terms of these: complex if some is, float if some is and none is complex, and so on
down to truth values. Between integers and truth values it takes an integer kind that holds all of the
integers, the least from the configured width on.

> What is inferred is what is chosen for the scalars of the value (`chosenFor_of_sums`), wherever they
> are and however often; and for integers it is the same with truth values among them as without.

That truth values do not matter is not plain from the range that is kept, as they widen it to 0 and 1.
But no range of the kinds is without these.
-/

set_option autoImplicit false

namespace Ragged

/-- Integers and truth values, and at least one integer. -/
def AreIntegers (A : Set Atom) : Prop :=
  (∃ i, .int i ∈ A) ∧ ∀ a ∈ A, (∃ b, a = .bool b) ∨ ∃ i, a = .int i

/-- All the integers are from the first bound on and below the second. -/
def IntegersWithin (A : Set Atom) (lo hi : Int) : Prop := ∀ i, .int i ∈ A → lo ≤ i ∧ i < hi

/-- The leaf type for some scalars, or that there is none. -/
inductive ChosenFor (config : Config) (A : Set Atom) : Except BuildError LeafType → Prop
  | default (hnone : A = ∅) : ChosenFor config A (.ok config.defaultLeaf)
  | bool (hsome : A.Nonempty) (hall : ∀ a ∈ A, ∃ b, a = .bool b) :
      ChosenFor config A (.ok (.scalar .bool))
  | complex (hsome : ∃ x y, .complex x y ∈ A) : ChosenFor config A (.ok (.scalar .cfloat64))
  | float (hsome : ∃ x, .float x ∈ A) (hnone : ∀ x y, .complex x y ∉ A) :
      ChosenFor config A (.ok (.scalar .float64))
  | text (hsome : A.Nonempty) (hall : ∀ a ∈ A, ∃ s, a = .text s) :
      ChosenFor config A (.ok (.string ⟨.utf8, none⟩))
  | int32 (hints : AreIntegers A) (hwidth : config.integerWidth = .int32)
      (hfit : IntegersWithin A (-2 ^ 31) (2 ^ 31)) : ChosenFor config A (.ok (.scalar .int32))
  | int64 (hints : AreIntegers A)
      (hnot : ¬(config.integerWidth = .int32 ∧ IntegersWithin A (-2 ^ 31) (2 ^ 31)))
      (hfit : IntegersWithin A (-2 ^ 63) (2 ^ 63)) : ChosenFor config A (.ok (.scalar .int64))
  | uint64 (hints : AreIntegers A) (hnot : ¬IntegersWithin A (-2 ^ 63) (2 ^ 63))
      (hfit : IntegersWithin A 0 (2 ^ 64)) : ChosenFor config A (.ok (.scalar .uint64))
  | tooWide {e : BuildError} (hints : AreIntegers A) (hsigned : ¬IntegersWithin A (-2 ^ 63) (2 ^ 63))
      (hunsigned : ¬IntegersWithin A 0 (2 ^ 64)) (he : e.category = .typeUnification) :
      ChosenFor config A (.error e)

/-! ## Integer kinds -/

section Integers

variable {A A' : Set Atom} {lo hi lo' hi' : Int}

/-- A range that has 0 and 1 holds what is counted just if it holds the integers. -/
theorem integersWithin_iff (h : (LeafSample.int lo hi).Sums A) {l u : Int} (hl : l ≤ 0) (hu : 1 < u) :
    IntegersWithin A l u ↔ l ≤ lo ∧ hi < u := by
  obtain ⟨-, -, ⟨hlo, hleast⟩, ⟨hhi, hgreatest⟩⟩ := h
  constructor
  · intro hfit
    have hcounted : ∀ i ∈ counted A, l ≤ i ∧ i < u := by
      rintro i (hi | ⟨-, hi⟩)
      · exact hfit i hi
      · omega
    exact ⟨(hcounted lo hlo).1, (hcounted hi hhi).2⟩
  · intro hfit i hi
    have hbelow := hleast (.inl hi : i ∈ counted A)
    have habove := hgreatest (.inl hi : i ∈ counted A)
    omega

theorem chosenFor_integerKind (config : Config) (h : (LeafSample.int lo hi).Sums A) :
    ChosenFor config A ((integerKind config.integerWidth lo hi).map .scalar) := by
  have hints : AreIntegers A := ⟨h.1, h.2.1⟩
  have h32 : IntegersWithin A (-2 ^ 31) (2 ^ 31) ↔ -2 ^ 31 ≤ lo ∧ hi < 2 ^ 31 :=
    integersWithin_iff h (by decide) (by decide)
  have h64 : IntegersWithin A (-2 ^ 63) (2 ^ 63) ↔ -2 ^ 63 ≤ lo ∧ hi < 2 ^ 63 :=
    integersWithin_iff h (by decide) (by decide)
  have hu64 : IntegersWithin A 0 (2 ^ 64) ↔ 0 ≤ lo ∧ hi < 2 ^ 64 :=
    integersWithin_iff h (by decide) (by decide)
  simp only [integerKind, Bool.and_eq_true, decide_eq_true_eq]
  split
  · rename_i hfit
    exact .int32 hints hfit.1 (h32.mpr hfit.2)
  · rename_i hnot32
    split
    · rename_i hfit
      exact .int64 hints (fun hfit => hnot32 ⟨hfit.1, h32.mp hfit.2⟩) (h64.mpr hfit)
    · rename_i hnot64
      have hnot64 : ¬IntegersWithin A (-2 ^ 63) (2 ^ 63) := fun hfit => hnot64 (h64.mp hfit)
      split
      · rename_i hfit
        exact .uint64 hints hnot64 (hu64.mpr hfit)
      · rename_i hnotu64
        exact .tooWide hints hnot64 (fun hfit => hnotu64 (hu64.mp hfit)) rfl

/-- So far as a range goes below 0 and above 1, truth values have no part in it. -/
theorem span_of_sums (h : (LeafSample.int lo hi).Sums A) :
    IsLeast (insert 0 (insert 1 {i | Atom.int i ∈ A})) (min lo 0) ∧
      IsGreatest (insert 0 (insert 1 {i | Atom.int i ∈ A})) (max hi 1) := by
  obtain ⟨-, -, hlo, hhi⟩ := h
  have hsame : insert 0 (insert 1 {i | Atom.int i ∈ A}) = insert 0 (insert 1 (counted A)) := by
    ext j
    simp only [counted, Set.mem_insert_iff, Set.mem_ofPred_eq]
    grind
  rw [hsame, show min lo 0 = min 0 (min 1 lo) by omega, show max hi 1 = max 0 (max 1 hi) by omega]
  exact ⟨(hlo.insert 1).insert 0, (hhi.insert 1).insert 0⟩

/-- **The kind is one for the integers**, with or without truth values. -/
theorem integerKind_congr (h : (LeafSample.int lo hi).Sums A)
    (h' : (LeafSample.int lo' hi').Sums A') (hints : ∀ i, Atom.int i ∈ A ↔ .int i ∈ A')
    {width : IntegerWidth} {k : ScalarKind} :
    integerKind width lo hi = .ok k ↔ integerKind width lo' hi' = .ok k := by
  have hsame : {i | Atom.int i ∈ A} = {i | Atom.int i ∈ A'} := Set.ext hints
  obtain ⟨hleast, hgreatest⟩ := span_of_sums h
  obtain ⟨hleast', hgreatest'⟩ := span_of_sums h'
  rw [hsame] at hleast hgreatest
  have hlo := hleast.unique hleast'
  have hhi := hgreatest.unique hgreatest'
  exact ⟨integerKind_of_span hlo hhi, integerKind_of_span hlo.symm hhi.symm⟩

end Integers

/-! ## Samples -/

theorem Shape.inferLeaf_int (config : Config) (lo hi : Int) :
    inferLeaf config (.int lo hi) = (integerKind config.integerWidth lo hi).map .scalar := by
  rw [inferLeaf]
  cases integerKind config.integerWidth lo hi <;> rfl

/-- Integers are sampled by their range. -/
theorem LeafSample.Sums.exists_int {A : Set Atom} {s : LeafSample} (h : s.Sums A)
    (hints : AreIntegers A) : ∃ lo hi, s = .int lo hi := by
  obtain ⟨⟨i, hi⟩, hall⟩ := hints
  cases s with
  | int lo hi => exact ⟨lo, hi, rfl⟩
  | _ => grind [LeafSample.Sums]

/-- **What is inferred from a sample is chosen for the scalars sampled.** -/
theorem chosenFor_of_sums {config : Config} {A : Set Atom} {s : LeafSample} (h : s.Sums A) :
    ChosenFor config A (Shape.inferLeaf config s) := by
  cases s with
  | struct fields => exact h.elim
  | nothing => exact .default h
  | bool => exact .bool ⟨_, h.1.choose_spec⟩ h.2
  | text => exact .text ⟨_, h.1.choose_spec⟩ h.2
  | complex => exact .complex h.1
  | float =>
    refine .float h.1 fun x y hxy => ?_
    rcases h.2 _ hxy with ⟨b, heq⟩ | ⟨i, heq⟩ | ⟨z, heq⟩ <;> exact absurd heq (by simp)
  | int lo hi =>
    rw [Shape.inferLeaf_int]
    exact chosenFor_integerKind config h

/-! ## The scalars of a value -/

theorem Layers.mem_below_iff {w : Value} (k : Nat) :
    ∀ {vs : List Value}, w ∈ below k vs ↔ ∃ v ∈ vs, v.Has k w := by
  induction k with
  | zero =>
    intro vs
    constructor
    · exact fun hw => ⟨w, hw, .here w⟩
    · rintro ⟨v, hv, h⟩
      cases h with
      | here => exact hv
  | succ k ih =>
    intro vs
    rw [below, ih]
    constructor
    · rintro ⟨x, hx, h⟩
      obtain ⟨v, hv, hx⟩ := List.mem_flatMap.mp hx
      cases hxs : v.items? with
      | none => simp [hxs] at hx
      | some xs =>
        rw [hxs] at hx
        exact ⟨v, hv, .inside hxs hx h⟩
    · rintro ⟨v, hv, h⟩
      cases h with
      | @inside _ x _ xs _ hxs hx h =>
        exact ⟨x, List.mem_flatMap.mpr ⟨v, hv, by rwa [hxs]⟩, h⟩

section Scalars

variable {config : Config} {v w : Value} {S T : Shape}

/-- The scalars inside a value. -/
def Value.scalars (v : Value) : Set Atom := {a | v.Contains (.atom a)}

theorem Value.Has.contains {k : Nat} (h : v.Has k w) : v.Contains w := by
  induction h with
  | here v => exact .here v
  | inside hxs hx _ ih => exact .element hxs hx ih

/-- Without mappings all that is inside is at some depth. -/
theorem Value.NoMappings.exists_has (hv : v.NoMappings) (h : v.Contains w) : ∃ k, v.Has k w := by
  induction h with
  | here v => exact ⟨0, .here v⟩
  | element hxs hx h ih =>
    obtain ⟨k, hk⟩ := ih (hv.element hxs _ hx)
    exact ⟨k + 1, .inside hxs hx hk⟩
  | @entry entries => exact absurd (.here _) (hv entries)

theorem Value.scalars_atom (a : Atom) : (atom a).scalars = {a} := by
  ext b
  simp [scalars, contains_atom_iff]

theorem Value.mem_scalars_iff_of_items? {xs : List Value} (hxs : v.items? = some xs) {a : Atom} :
    a ∈ v.scalars ↔ ∃ x ∈ xs, a ∈ x.scalars := by
  refine (contains_iff_of_items? hxs).trans (or_iff_right ?_)
  rintro rfl
  exact absurd hxs (by simp [items?])

/-- **The sample that is found is of the scalars inside.** -/
theorem Value.sums_scalars (hv : v.NoMappings) (hS : (v.shape .infer).2 = .ok S) :
    S.leaf.Sums v.scalars := by
  have hsums := Value.sums_of_shape hv.distinctKeys hS
  have hmem : ∀ k w, w ∈ Layers.of [v] k ↔ v.Has k w := by
    intro k w
    rw [Layers.of, Layers.mem_below_iff, List.exists_mem_cons_iff]
    simp
  rcases hsums.cases_leaf with ⟨-, hsample⟩ | ⟨fields, first, -, hfirst, -⟩
  · have hsame : v.scalars = {a | .atom a ∈ Layers.of [v] S.levels.length} := by
      ext a
      refine ⟨fun ha => ?_, fun ha => ((hmem _ _).mp ha).contains⟩
      obtain ⟨k, hk⟩ := hv.exists_has ha
      have hleaf := (hmem k _).mpr hk
      obtain rfl := hsums.leavesAt.leaves k _ hleaf rfl
      exact hleaf
    exact hsame ▸ hsample
  · have hhas := (hmem _ _).mp (List.mem_of_head? hfirst)
    exact absurd hhas.contains (hv first)

theorem Shape.leaf_of_resolve (S : Shape) (config : Config) :
    (S.resolve .infer config).map ArrayType.leaf = inferLeaf config S.leaf := by
  obtain ⟨levels, leafDepth, leaf⟩ := S
  rw [resolve, infer]
  cases inferLeaf config leaf <;> rfl

/-- **A leaf is inferred from the scalars alone.** Where a value without mappings has a shape, the leaf
type is chosen for the scalars inside. So it is the same for the same scalars, however they are nested
and ordered; and integers get the same kind with and without truth values among them. -/
theorem leaf_chosenFor_scalars (hv : v.NoMappings) (hS : (v.shape .infer).2 = .ok S) :
    ChosenFor config v.scalars ((S.resolve .infer config).map ArrayType.leaf) ∧
      ∀ (w : Value) (T : Shape), w.NoMappings → (w.shape .infer).2 = .ok T →
        (w.scalars = v.scalars → (T.resolve .infer config).map ArrayType.leaf =
          (S.resolve .infer config).map ArrayType.leaf) ∧
        (AreIntegers v.scalars → AreIntegers w.scalars →
          (∀ i, Atom.int i ∈ v.scalars ↔ .int i ∈ w.scalars) →
          ∀ k, (S.resolve .infer config).map ArrayType.leaf = .ok (.scalar k) ↔
            (T.resolve .infer config).map ArrayType.leaf = .ok (.scalar k)) := by
  have hsums := Value.sums_scalars hv hS
  rw [S.leaf_of_resolve]
  refine ⟨chosenFor_of_sums hsums, fun w T hw hT => ?_⟩
  have hsums' := Value.sums_scalars hw hT
  rw [T.leaf_of_resolve]
  refine ⟨fun hsame => ?_, fun hints hints' hsame k => ?_⟩
  · rw [hsums'.unique (hsame ▸ hsums)]
  · obtain ⟨lo, hi, hleaf⟩ := hsums.exists_int hints
    obtain ⟨lo', hi', hleaf'⟩ := hsums'.exists_int hints'
    rw [hleaf] at hsums ⊢
    rw [hleaf'] at hsums' ⊢
    rw [Shape.inferLeaf_int, Shape.inferLeaf_int, map_eq_ok, map_eq_ok]
    simp only [LeafType.scalar.injEq, exists_eq_right]
    exact integerKind_congr hsums hsums' hsame

/-- Two integers, one of them beyond the signed kinds, once deep in lists beside a truth value and
once by themselves. -/
theorem leaf_chosenFor_scalars_integers :
    ∃ (v w : Value) (S T : Shape), v = .list [.tuple [.ofBool true, .ofInt (2 ^ 63)],
        .iter (.ofSupply 0 (.ofList [.ofInt 5]))] ∧
      w = .tuple [.ofInt 5, .ofInt (2 ^ 63)] ∧
      v.NoMappings ∧ w.NoMappings ∧ (v.shape .infer).2 = .ok S ∧ (w.shape .infer).2 = .ok T ∧
      ChosenFor {} v.scalars (.ok (.scalar .uint64)) ∧ AreIntegers v.scalars ∧
      AreIntegers w.scalars ∧ (∀ i, Atom.int i ∈ v.scalars ↔ .int i ∈ w.scalars) ∧
      (T.resolve .infer {}).map ArrayType.leaf = .ok (.scalar .uint64) := by
  let pair := Value.tuple [.ofBool true, .ofInt (2 ^ 63)]
  let source := Value.iter (.ofSupply 0 (.ofList [.ofInt 5]))
  let v := Value.list [pair, source]
  let w := Value.tuple [.ofInt 5, .ofInt (2 ^ 63)]
  have hpair : ∀ a b, (Value.tuple [.atom a, .atom b]).NoMappings := fun a b =>
    Value.noMappings_of_items? rfl (List.forall_mem_cons.mpr
      ⟨Value.noMappings_atom a, List.forall_mem_singleton.mpr (Value.noMappings_atom b)⟩)
  have hsource : source.NoMappings :=
    Value.noMappings_of_items? rfl (List.forall_mem_singleton.mpr (Value.noMappings_atom _))
  have hv : v.NoMappings := Value.noMappings_of_items? rfl
    (List.forall_mem_cons.mpr ⟨hpair _ _, List.forall_mem_singleton.mpr hsource⟩)
  have hscalars : ∀ a b c, c ∈ (Value.tuple [.atom a, .atom b]).scalars ↔ c = a ∨ c = b := by
    intro a b c
    rw [Value.mem_scalars_iff_of_items? rfl]
    simp [Value.scalars_atom]
  have hmem : ∀ a, a ∈ v.scalars ↔ (a = .bool true ∨ a = .int (2 ^ 63)) ∨ a = .int 5 := by
    intro a
    have hfirst : a ∈ pair.scalars ↔ a = .bool true ∨ a = .int (2 ^ 63) := hscalars _ _ a
    have hfive : a ∈ source.scalars ↔ a = .int 5 := by
      rw [Value.mem_scalars_iff_of_items? (show source.items? = some [.ofInt 5] from rfl)]
      simp [Value.ofInt, Value.scalars_atom]
    rw [Value.mem_scalars_iff_of_items? (show v.items? = some [pair, source] from rfl),
      List.exists_mem_cons_iff, List.exists_mem_cons_iff, hfirst, hfive]
    simp
  have hfound : ((v.shape .infer).2.bind fun S => (S.resolve .infer {}).map ArrayType.leaf) =
      .ok (.scalar .uint64) := by
    rfl
  have hfound' : (w.shape .infer).2.map (·.levels.length) = .ok 1 := by
    rfl
  obtain ⟨S, hS, hleaf⟩ := bind_eq_ok.mp hfound
  obtain ⟨T, hT, -⟩ := map_eq_ok.mp hfound'
  have hints : AreIntegers v.scalars := by
    refine ⟨⟨5, (hmem _).mpr (.inr rfl)⟩, fun a ha => ?_⟩
    rcases (hmem a).mp ha with (rfl | rfl) | rfl
    · exact .inl ⟨true, rfl⟩
    · exact .inr ⟨_, rfl⟩
    · exact .inr ⟨5, rfl⟩
  have hints' : AreIntegers w.scalars := by
    refine ⟨⟨5, (hscalars _ _ _).mpr (.inl rfl)⟩, fun a ha => ?_⟩
    rcases (hscalars _ _ a).mp ha with rfl | rfl
    · exact .inr ⟨5, rfl⟩
    · exact .inr ⟨_, rfl⟩
  have hsame : ∀ i, Atom.int i ∈ v.scalars ↔ .int i ∈ w.scalars := by
    intro i
    have hi : .int i ∈ w.scalars ↔ Atom.int i = .int 5 ∨ Atom.int i = .int (2 ^ 63) := hscalars _ _ _
    rw [hmem, hi]
    simp [or_comm]
  obtain ⟨hchosen, hothers⟩ := @leaf_chosenFor_scalars {} v S hv hS
  rw [hleaf] at hchosen
  exact ⟨v, w, S, T, rfl, rfl, hv, hpair _ _, hS, hT, hchosen, hints, hints', hsame,
    ((hothers w T (hpair _ _) hT).2 hints hints' hsame _).mp hleaf⟩

end Scalars

end Ragged
