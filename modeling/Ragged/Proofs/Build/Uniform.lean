import Ragged.Build
import Ragged.Proofs.Layout.Faults
import Ragged.Proofs.Shape.Failures
import Ragged.Proofs.Shape.Peeking

/-!
# Inferred extents and the data

With a hint for the leaf only, the dimensions are inferred before all of the data was seen, and what
is written afterwards may have other lengths. It has not, where the first elements of sources show
all levels:

> then no error of building is about a number of elements.

Where they do not, a list beside a source can fix an extent that an element of the source, not looked
at before, does not have. The last theorem is about such a value.
-/

set_option autoImplicit false

namespace Ragged

/-- The error is about a number of elements that a dimension does not have. -/
def BuildError.IsLength : BuildError → Prop
  | .tooFew .. | .tooMany .. => True
  | _ => False

/-! ## What is met is inside -/

/-- Without records, what is met at a type is inside the value, and is taken as one of the type behind
the dimensions passed. -/
theorem ArrayType.Meets.has {here : ArrayType → Nat → Value → Prop} {leaf : LeafType}
    (hleaf : leaf.isStruct = false) {dims : List Dimension} :
    ∀ {free : Nat} {v : Value}, Meets here ⟨dims, leaf⟩ free v →
      ∃ k free' w, v.Has k w ∧ here ⟨dims.drop k, leaf⟩ free' w := by
  induction dims with
  | nil =>
    intro free v h
    have hhere : here ⟨[], leaf⟩ free v := by
      cases leaf with
      | struct fields => exact absurd hleaf (by simp [LeafType.isStruct])
      | _ => exact h
    exact ⟨0, free, v, .here v, hhere⟩
  | cons d dims ih =>
    intro free v h
    rcases meets_cons.mp h with hhere | ⟨xs, hxs, x, hx, hmeets⟩
    · exact ⟨0, free, v, .here v, hhere⟩
    · obtain ⟨k, free', w, hw, hhere⟩ := ih hmeets
      exact ⟨k + 1, free', w, .inside hxs hx hw, hhere⟩

theorem Value.Has.map {f : Value → Value} (hf : Preserves f) {v w : Value} {k : Nat}
    (h : v.Has k w) : (f v).Has k (f w) := by
  induction h with
  | here v => exact .here _
  | inside hxs hx _ ih =>
    exact .inside (by rw [hf.items?, hxs]; rfl) (List.mem_map_of_mem hx) ih

theorem Value.Has.of_map {f : Value → Value} (hf : Preserves f) {v' u : Value} {k : Nat}
    (h : v'.Has k u) : ∀ {v : Value}, f v = v' → ∃ w, v.Has k w ∧ f w = u := by
  induction h with
  | here v' =>
    intro v hv
    exact ⟨v, .here v, hv⟩
  | inside hxs hx _ ih =>
    intro v hv
    rw [← hv, hf.items?] at hxs
    obtain ⟨ys, hys, rfl⟩ := Option.map_eq_some_iff.mp hxs
    obtain ⟨y, hy, rfl⟩ := List.mem_map.mp hx
    obtain ⟨w, hw, hu⟩ := ih rfl
    exact ⟨w, .inside hys hy hw, hu⟩

/-- However far sources were looked into, the same lengths are inside. -/
theorem Value.Has.of_drained_eq {v v' w' : Value} (h : v'.drained = v.drained) {k : Nat}
    (hw : v'.Has k w') {xs : List Value} (hxs : w'.items? = some xs) :
    ∃ w ys, v.Has k w ∧ w.items? = some ys ∧ ys.length = xs.length := by
  obtain ⟨w, hw, hdrained⟩ := (hw.map preserves_drained).of_map preserves_drained h.symm
  have hitems := congrArg Value.items? hdrained
  rw [items?_drained, items?_drained, hxs] at hitems
  obtain ⟨ys, hys, hmap⟩ := Option.map_eq_some_iff.mp hitems
  exact ⟨w, ys, hw, hys, by simpa using congrArg List.length hmap⟩

/-! ## Errors that are not about lengths -/

theorem BuildError.IsNesting.not_isLength {e : BuildError} (h : e.IsNesting) : ¬e.IsLength := by
  cases e with
  | tooFew depth expected found | tooMany depth expected found => exact h.elim
  | _ => exact id

theorem Value.not_isLength_of_childrenAt {v : Value} {depth : Nat} {e : BuildError}
    (h : v.childrenAt depth = .error e) : ¬e.IsLength := by
  cases v with
  | atom a | dict entries =>
    rw [← Except.error.inj h]
    exact id
  | _ => exact absurd h (by simp [childrenAt])

theorem not_isLength_of_category {e : BuildError} (h : e.category ≠ .shapeMismatch) :
    ¬e.IsLength := by
  cases e with
  | tooFew depth expected found | tooMany depth expected found => exact absurd rfl h
  | _ => exact id

theorem LeafType.not_isLength_of_take {leaf : LeafType} {v : Value} {e : BuildError}
    (h : leaf.take v = .error e) : ¬e.IsLength := by
  cases v with
  | atom a =>
    apply not_isLength_of_category
    rw [category_of_store h]
    simp
  | dict entries | list items | tuple items | iter source =>
    rw [← Except.error.inj h]
    exact id

/-- What is inferred is a fixed extent or any lengths. -/
theorem Shape.isVar_or_fixed {S : Shape} {depth : Nat} {d : Dimension}
    (h : S.dimensions[depth]? = some d) : d.isVar = true ∨ ∃ n, d = .fixed n := by
  rw [dimensions, List.getElem?_map] at h
  obtain ⟨l, -, rfl⟩ := Option.map_eq_some_iff.mp h
  unfold Level.dimension
  split
  · exact .inl rfl
  · split
    · exact .inr ⟨_, rfl⟩
    · exact .inl rfl
    · exact .inr ⟨_, rfl⟩

/-- No fault is about a length where the level allows for the length that is there. -/
theorem ArrayType.Fault.not_isLength {S : Shape} {leaf : LeafType} {k : Nat} {w : Value}
    {e : BuildError} (h : Fault e ⟨S.dimensions.drop k, leaf⟩ w)
    (hallows : ∀ xs, w.items? = some xs → S.Allows k xs.length) : ¬e.IsLength := by
  have hextent : ∀ {d dims n} {xs : List Value}, S.dimensions.drop k = d :: dims →
      d.isVar = false → (∀ m, d = .fixed m → n = m) → w.items? = some xs → xs.length = n := by
    intro d dims n xs hdims hd hfixed hxs
    have hdim : S.dimensions[k]? = some d := by
      rw [← List.head?_drop, hdims]
      rfl
    rcases Shape.isVar_or_fixed hdim with hvar | ⟨m, rfl⟩
    · exact absurd (hvar.symm.trans hd) (by simp)
    · rw [hfixed m rfl]
      exact Shape.length_of_allows (hallows xs hxs) hdim
  generalize hdims : S.dimensions.drop k = dims at h
  cases h with
  | noElements h => exact Value.not_isLength_of_childrenAt h
  | tooFew hd hfixed hxs hlt => exact absurd (hextent hdims hd hfixed hxs) (Nat.ne_of_lt hlt)
  | tooMany hd hfixed hxs hlt => exact absurd (hextent hdims hd hfixed hxs) (Nat.ne_of_gt hlt)
  | lazySource _ he => rw [he]; exact id
  | noRecord h =>
    apply not_isLength_of_category
    rcases Value.category_of_recordFields h with hc | hc
    · rw [hc]
      simp
    · rw [hc]
      simp
  | notTaken _ h => exact LeafType.not_isLength_of_take h

/-! ## Building with a hint for the leaf -/

/-- **Where first elements show all levels, inferred extents are those of the data**, also of the data
that was not looked at, and so no error is about a length. -/
theorem lengths_of_uniform {leaf : LeafType} (hleaf : leaf.isStruct = false) {v : Value}
    (hv : v.FirstDeepest) (config : Config) :
    (∀ S, (v.shape (.uniform leaf)).2 = .ok S → ∀ depth n,
        S.dimensions[depth]? = some (.fixed n) → ∀ w xs, v.Has depth w → w.items? = some xs →
          xs.length = n) ∧
      FailsOnly (fun e => ¬e.IsLength) (build config (.uniform leaf) v).2 := by
  have hallows : ∀ S, (v.shape (.uniform leaf)).2 = .ok S → ∀ k w xs, v.Has k w →
      w.items? = some xs → S.Allows k xs.length := by
    intro S hS k w xs hw hxs
    rw [Value.shape, hleaf] at hS
    exact hv.allows hS hw hxs
  refine ⟨fun S hS depth n hn w xs hw hxs => Shape.length_of_allows (hallows S hS _ w xs hw hxs) hn,
    ?_⟩
  have hdrained : (v.shape (.uniform leaf)).1.drained = v.drained := v.drained_shape _
  have hnesting : FailsOnly BuildError.IsNesting (v.shape (.uniform leaf)).2 :=
    v.nesting_survey 0 false .empty
  unfold build
  cases hshape : v.shape (.uniform leaf) with
  | mk v' outcome =>
    rw [hshape] at hallows hdrained hnesting
    cases outcome with
    | error e => exact FailsOnly.error (hnesting e rfl).not_isLength
    | ok S =>
      -- what is at fault is inside the value, and its length is one that the level allows
      have hwrite : FailsOnly (fun e => ¬e.IsLength)
          (ArrayType.write ⟨S.dimensions, leaf⟩ config.growth v').2 := by
        intro e he
        obtain ⟨k, free, w', hw', hfault⟩ := (ArrayType.faults_of_write he).has hleaf
        apply hfault.not_isLength
        intro xs hxs
        obtain ⟨w, ys, hw, hys, hlength⟩ := hw'.of_drained_eq hdrained hxs
        rw [← hlength]
        exact hallows S rfl k w ys hw hys
      exact hwrite.map _

/-- The source shows rows of numbers at once, and the list beside it has a row of another length. -/
theorem lengths_of_uniform_rows :
    ∃ v, v = Value.list [.iter (.ofSupply 0 (.ofList [.list [.ofInt 1], .list []])),
        .list [.tuple [.ofInt 2, .ofInt 3]]] ∧ v.FirstDeepest ∧
      (∀ S, (v.shape (.uniform (.scalar .int32))).2 = .ok S → ∀ depth n,
          S.dimensions[depth]? = some (.fixed n) → ∀ w xs, v.Has depth w → w.items? = some xs →
            xs.length = n) ∧
        FailsOnly (fun e => ¬e.IsLength) (build {} (.uniform (.scalar .int32)) v).2 := by
  have hrow : ∀ i : Int, (Value.list [.ofInt i]).FirstDeepest := fun i =>
    .of_elements rfl rfl (by simpa using .of_none rfl)
  have hsource : (Value.iter (.ofSupply 0 (.ofList [.list [.ofInt 1], .list []]))).FirstDeepest := by
    refine .of_first rfl rfl (hrow 1) fun y hy k w ys hw _ => ?_
    obtain rfl := List.mem_singleton.mp hy
    cases hw with
    | here => exact ⟨false, _, _, .here _, rfl⟩
    | inside hxs hx => exact absurd (Option.some.inj hxs ▸ hx) List.not_mem_nil
  have hrows : (Value.list [.tuple [.ofInt 2, .ofInt 3]]).FirstDeepest := by
    refine .of_elements rfl rfl ?_
    simp only [List.forall_mem_singleton]
    refine .of_elements rfl rfl ?_
    simpa using ⟨.of_none rfl, .of_none rfl⟩
  have hdeepest : (Value.list [.iter (.ofSupply 0 (.ofList [.list [.ofInt 1], .list []])),
      .list [.tuple [.ofInt 2, .ofInt 3]]]).FirstDeepest :=
    .of_elements rfl rfl (List.forall_mem_cons.mpr ⟨hsource, List.forall_mem_singleton.mpr hrows⟩)
  exact ⟨_, rfl, hdeepest, lengths_of_uniform rfl hdeepest {}⟩

/-- The first element of the source is empty, and so it does not show that there are lists of numbers
further on. The list beside it has only one of two numbers there. -/
theorem tooMany_of_uniform :
    (build {} (.uniform (.scalar .int32)) (.list [
        .iter (.ofSupply 0 (.ofList [.list [], .list [.list [.ofInt 1, .ofInt 2, .ofInt 3]]])),
        .list [.list [.list [.ofInt 1, .ofInt 2]]]])).2.map PackedArray.type =
      .error (.tooMany 3 2 (.exactly 3)) := by decide +kernel

end Ragged
