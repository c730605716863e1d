import Ragged.Build
import Ragged.Proofs.Shape.Resampling
import Ragged.Proofs.Value.Contained

/-!
# Looking at everything and at first elements

With a hint for the leaf a survey looks at less: leaves are not sampled, and of a lazy source only the
first element is seen. Without lazy sources the latter is no difference, and

> both surveys see the same containers and the same depth of leaves (`Value.survey_parallel`). The one
> that looks at less also finds a shape wherever the other does.

So the leaf type that was inferred from a value, given as a hint, leads to the array that was inferred.
A struct as a hint is another matter, as tuples and short lists are records then.
-/

set_option autoImplicit false

namespace Ragged

/-! ## Without sources there is nothing to drain -/

namespace Value

variable {v w : Value}

theorem drained_of_noIterators (v : Value) (h : v.NoIterators) : v.drained = v := by
  induction v using Value.induction with
  | atom a => rfl
  | list items ih =>
    rw [drained_list, List.map_congr_left fun x hx => ih x hx (h.element rfl x hx), List.map_id']
  | tuple items ih =>
    rw [drained_tuple, List.map_congr_left fun x hx => ih x hx (h.element rfl x hx), List.map_id']
  | dict entries ih =>
    rw [drained_dict, List.map_congr_left (g := id) fun e he => by rw [ih e he (h.entry e he)]; rfl,
      List.map_id]
  | iter source => exact absurd h.isIterator (by simp [isIterator])

theorem NoIterators.of_drained_eq (h : v.NoIterators) (hdrained : v.drained = w.drained) :
    w.NoIterators := by
  intro u hu
  have hu' := hu.map preserves_drained
  rw [← hdrained, drained_of_noIterators v h] at hu'
  rw [← isIterator_drained]
  exact h _ hu'

/-- What is surveyed comes back as it was. -/
theorem shape_fst_of_noIterators (h : v.NoIterators) (hint : Hint) : (v.shape hint).1 = v := by
  have hdrained := drained_shape hint v
  have hw := h.of_drained_eq hdrained.symm
  rwa [drained_of_noIterators _ hw, drained_of_noIterators v h] at hdrained

end Value

/-! ## Shapes but for the leaves -/

namespace Shape

variable {S S' T : Shape} {depth : Nat}

/-- The shapes tell the same of containers and of the depth of leaves. -/
structure Parallel (S T : Shape) : Prop where
  levels : T.levels = S.levels
  leafDepth : T.leafDepth = S.leafDepth

theorem Parallel.dimensions (h : S.Parallel T) : T.dimensions = S.dimensions := by
  rw [Shape.dimensions, Shape.dimensions, rank, rank, h.levels, h.leafDepth]

theorem Parallel.enterContainer {f : Level → Level} (h : S.Parallel T)
    (henter : S.enterContainer depth f = .ok S') :
    ∃ T', T.enterContainer depth f = .ok T' ∧ S'.Parallel T' := by
  obtain ⟨hleaf, rfl⟩ := enterContainer_eq_ok henter
  refine ⟨{ T with levels := updateLevel f depth T.levels }, if_neg ?_, ?_, h.leafDepth⟩
  · rwa [h.leafDepth]
  · rw [h.levels]

theorem Parallel.enterLeaf (h : S.Parallel T) (henter : S.enterLeaf depth = .ok S') :
    ∃ T', T.enterLeaf depth = .ok T' ∧ S'.Parallel T' := by
  obtain ⟨levels, leafDepth, s⟩ := S
  obtain ⟨levels', leafDepth', s'⟩ := T
  obtain rfl : levels' = levels := h.levels
  obtain rfl : leafDepth' = leafDepth := h.leafDepth
  obtain ⟨rfl, henter'⟩ := enterLeaf_of_leaf henter s'
  exact ⟨_, henter', rfl, rfl⟩

/-- Another sample makes no difference. -/
theorem Parallel.of_leaf (h : S.Parallel T) (leaf : LeafSample) : Parallel { S with leaf } T :=
  ⟨h.levels, h.leafDepth⟩

end Shape

/-! ## Both surveys -/

namespace Value

/-- Where looking at everything finds a shape, looking at first elements finds a parallel one. -/
def Parallel (v : Value) : Prop :=
  ∀ (depth : Nat) (S S' T : Shape), S.Parallel T →
    (survey .everything depth false S v).2 = .ok S' →
      ∃ T', (survey (.firstOnly false) depth false T v).2 = .ok T' ∧ S'.Parallel T'

theorem parallel_foldlM {xs : List Value} (h : ∀ x ∈ xs, x.Parallel) {depth : Nat} :
    ∀ {S S' T : Shape}, S.Parallel T →
      xs.foldlM (fun S x => (survey .everything depth false S x).2) S = .ok S' →
        ∃ T', xs.foldlM (fun T x => (survey (.firstOnly false) depth false T x).2) T = .ok T' ∧
          S'.Parallel T' := by
  induction xs with
  | nil =>
    intro S S' T hST hok
    obtain rfl := Except.ok.inj hok
    exact ⟨T, rfl, hST⟩
  | cons x rest ih =>
    intro S S' T hST hok
    obtain ⟨hx, hrest⟩ := List.forall_mem_cons.mp h
    obtain ⟨S₁, hfirst, hok⟩ := foldlM_cons_eq_ok.mp hok
    obtain ⟨T₁, hfirst', hST₁⟩ := hx depth S S₁ T hST hfirst
    obtain ⟨T', hok', hST'⟩ := ih hrest hST₁ hok
    exact ⟨T', foldlM_cons_eq_ok.mpr ⟨T₁, hfirst', hok'⟩, hST'⟩

/-- **Without lazy sources both surveys see the same nesting.** -/
theorem survey_parallel (v : Value) (h : v.NoIterators) : v.Parallel := by
  induction v using Value.inductElements with
  | atom a =>
    intro depth S S' T hST hok
    rw [survey_atom] at hok
    obtain ⟨S₁, henter, hok⟩ := bind_eq_ok.mp hok
    obtain ⟨leaf, -, rfl⟩ := map_eq_ok.mp hok
    obtain ⟨T', henter', hST'⟩ := hST.enterLeaf henter
    rw [survey_leaf_firstOnly rfl]
    exact ⟨T', henter', hST'.of_leaf leaf⟩
  | dict entries =>
    intro depth S S' T hST hok
    rw [survey_dict] at hok
    obtain ⟨S₁, henter, hok⟩ := bind_eq_ok.mp hok
    obtain ⟨fields, -, hok⟩ := bind_eq_ok.mp hok
    obtain ⟨fields', -, rfl⟩ := map_eq_ok.mp hok
    obtain ⟨T', henter', hST'⟩ := hST.enterLeaf henter
    rw [survey_leaf_firstOnly rfl]
    exact ⟨T', henter', hST'.of_leaf (.struct fields')⟩
  | elements v xs hxs ih =>
    intro depth S S' T hST hok
    have hv := h.isIterator
    rw [survey_of_items? hxs, hv] at hok
    obtain ⟨S₁, henter, hok⟩ := bind_eq_ok.mp hok
    obtain ⟨T₁, henter', hST₁⟩ := hST.enterContainer henter
    obtain ⟨T', hok', hST'⟩ :=
      parallel_foldlM (fun x hx => ih x hx (h.element hxs x hx)) hST₁ hok
    obtain ⟨isTuple, hsurvey⟩ := survey_sequence (.firstOnly false) depth false T hv hxs
    rw [hsurvey, if_neg (by exact Bool.false_ne_true)]
    exact ⟨T', bind_eq_ok.mpr ⟨T₁, henter', hok'⟩, hST'⟩

end Value

/-! ## Inferred and given leaves -/

section Leaves

variable {config : Config} {v : Value} {a : PackedArray}

theorem exists_shape_uniform (h : v.NoIterators) {leaf : LeafType} (hleaf : leaf.isStruct = false)
    {S : Shape} (hS : (v.shape .infer).2 = .ok S) :
    ∃ T, (v.shape (.uniform leaf)).2 = .ok T ∧ S.Parallel T := by
  rw [Value.shape, hleaf]
  exact v.survey_parallel h 0 .empty S .empty ⟨rfl, rfl⟩ hS

/-- **Without lazy sources an inferred leaf can as well be given.** The array is the same if the leaf
type that was inferred, no struct, is a hint; and whatever such leaf type is a hint, the dimensions are
those that are inferred without one. -/
theorem build_uniform_of_infer (h : v.NoIterators) :
    (∀ a, (build config .infer v).2 = .ok a → a.type.leaf.isStruct = false →
      (build config (.uniform a.type.leaf) v).2 = .ok a) ∧
      ∀ leaf : LeafType, leaf.isStruct = false → ∀ S, (v.shape .infer).2 = .ok S →
        ∃ T, (v.shape (.uniform leaf)).2 = .ok T ∧
          T.resolve (.uniform leaf) config = .ok ⟨S.dimensions, leaf⟩ ∧
          ∀ t, S.resolve .infer config = .ok t → t.dims = S.dimensions := by
  have hdims : ∀ {S : Shape} {t : ArrayType}, S.resolve .infer config = .ok t →
      t.dims = S.dimensions := by
    intro S t ht
    obtain ⟨levels, leafDepth, s⟩ := S
    rw [Shape.resolve, Shape.infer] at ht
    obtain ⟨leaf, -, rfl⟩ := map_eq_ok.mp ht
    rfl
  refine ⟨fun a ha hleaf => ?_, fun leaf hleaf S hS => ?_⟩
  · obtain ⟨S, hS, htype, hwrite⟩ := build_eq_ok_iff.mp ha
    obtain ⟨T, hT, hST⟩ := exists_shape_uniform h hleaf hS
    refine build_eq_ok_iff.mpr ⟨T, hT, ?_, ?_⟩
    · rw [Shape.resolve, hST.dimensions, ← hdims htype]
      cases a.type
      rfl
    · rw [Value.shape_fst_of_noIterators h] at hwrite ⊢
      exact hwrite
  · obtain ⟨T, hT, hST⟩ := exists_shape_uniform h hleaf hS
    refine ⟨T, hT, ?_, fun t ht => hdims ht⟩
    rw [Shape.resolve, hST.dimensions]

/-- A tuple beside a list of no elements. -/
theorem build_uniform_of_infer_pairs :
    ∃ (v : Value) (S : Shape) (a : PackedArray),
      v = .list [.list [], .tuple [.ofInt 1, .ofBool true]] ∧ v.NoIterators ∧
      (v.shape .infer).2 = .ok S ∧ (build {} .infer v).2 = .ok a ∧
      a.type = ⟨[.fixed 2, .var], .scalar .int32⟩ ∧
      (build {} (.uniform (.scalar .int32)) v).2 = .ok a ∧
      (LeafType.string {}).isStruct = false ∧
      ∃ T, (v.shape (.uniform (.string {}))).2 = .ok T ∧
        T.resolve (.uniform (.string {})) {} = .ok ⟨[.fixed 2, .var], .string {}⟩ := by
  let pair := Value.tuple [.ofInt 1, .ofBool true]
  let v := Value.list [.list [], pair]
  have hnil : (Value.list []).NoIterators :=
    Value.noIterators_of_items? rfl rfl fun _ hx => absurd hx List.not_mem_nil
  have hpair : pair.NoIterators := Value.noIterators_of_items? rfl rfl (List.forall_mem_cons.mpr
    ⟨Value.noIterators_atom _, List.forall_mem_singleton.mpr (Value.noIterators_atom _)⟩)
  have hv : v.NoIterators := Value.noIterators_of_items? rfl rfl
    (List.forall_mem_cons.mpr ⟨hnil, List.forall_mem_singleton.mpr hpair⟩)
  have hfound : (v.shape .infer).2.map (·.dimensions) = .ok [.fixed 2, .var] := by
    rfl
  have hbuilt : (build {} .infer v).2.map PackedArray.type =
      .ok ⟨[.fixed 2, .var], .scalar .int32⟩ := by
    rfl
  obtain ⟨S, hS, hdims⟩ := map_eq_ok.mp hfound
  obtain ⟨a, ha, htype⟩ := map_eq_ok.mp hbuilt
  obtain ⟨hsame, hall⟩ := @build_uniform_of_infer {} v hv
  have ha' := hsame a ha (by rw [htype]; rfl)
  rw [htype] at ha'
  obtain ⟨T, hT, hresolve, -⟩ := hall (.string {}) rfl S hS
  rw [hdims] at hresolve
  exact ⟨v, S, a, rfl, hv, hS, ha, htype, ha', rfl, T, hT, hresolve⟩

end Leaves

end Ragged
