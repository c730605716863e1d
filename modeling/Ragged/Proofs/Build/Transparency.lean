import Ragged.Proofs.Build.Containers

/-!
# Looking ahead changes nothing

Without a hint every source is gone through before a type is settled, with a hint for the leaf its
first element is asked for, and with a full hint nothing is asked at all. What is written afterwards
is a value whose sources have elements waiting in their queues, at any depth. That none of them is
lost, comes twice or changes its place shows in two runs on one value:

> whatever was built with some hint is built again from its type alone, with the same extents and
> the same data.

The value looked ahead into is the one that came in, `drained`; and drained values conform alike,
reach alike and are coerced alike. So the second run succeeds because the first one did, and not
because its check, which looks at other things, would find the lengths that were inferred.
-/

set_option autoImplicit false

namespace Ragged

variable {config : Config} {hint : Hint} {v : Value} {a : PackedArray}

/-- What was built is written at its type from the value that came in, with the same extents. -/
theorem write_of_build (h : (build config hint v).2 = .ok a) (growth : GrowthPolicy) :
    ∃ c, (a.type.write growth v).2 = .ok c ∧ c.extents = a.contents.extents := by
  obtain ⟨shape, -, -, hwrite⟩ := build_eq_ok_iff.mp h
  have hdrained : (v.shape hint).1.drained = v.drained := v.drained_shape hint
  obtain ⟨σ, hσ⟩ := ArrayType.exists_write_iff.mp ⟨_, hwrite⟩
  obtain ⟨c, hc⟩ := @ArrayType.exists_write_iff a.type growth v |>.mpr
    ⟨σ, ArrayType.conforms_of_drained_eq hdrained hσ⟩
  refine ⟨c, hc, ArrayType.extents_eq_of_write hc hwrite (fun σ hσ => ?_) fun slot => ?_⟩
  · exact ArrayType.conforms_of_drained_eq hdrained.symm hσ
  · exact ArrayType.reaches_of_drained_eq hdrained

/-- **What was built with some hint is built again from its type alone**, by any configuration. -/
theorem build_full_of_build (h : (build config hint v).2 = .ok a) (config' : Config) :
    (v.shape hint).1.drained = v.drained ∧
      ∃ b, (build config' (.full a.type) v).2 = .ok b ∧ b.type = a.type ∧ b.extents = a.extents ∧
        ∃ w, a.toValue = .ok w ∧ b.toValue = .ok w := by
  obtain ⟨c, hc, hextents⟩ := write_of_build h config'.growth
  have hb : (build config' (.full a.type) v).2 = .ok ⟨a.type, c⟩ := build_full_of_write hc
  obtain ⟨w, hw, hread⟩ := exists_toValue_of_build h
  obtain ⟨w', hw', hread'⟩ := exists_toValue_of_build hb
  obtain rfl : w = w' := Option.some.inj (hw.symm.trans hw')
  have hextent : c.extent = a.contents.extent := by
    funext d
    cases d with
    | strided slot => simp only [Contents.extent, hextents]
    | _ => rfl
  refine ⟨v.drained_shape hint, _, hb, rfl, ?_, _, hread, hread'⟩
  rw [PackedArray.extents, PackedArray.extents, hextent]

/-- A source of a source and a list. The outer one is asked for its first element before the array is
written, and the inner one for its own. -/
theorem build_full_of_build_sources :
    ∃ v a, v = Value.iter (.ofSupply 0 (.ofList [
          .iter (.ofSupply 1 (.ofList [.ofInt 1, .ofInt 2])), .list [.ofInt 3]])) ∧
      (build {} (.uniform (.scalar .int8)) v).2 = .ok a ∧
      (v.shape (.uniform (.scalar .int8))).1.drained = v.drained ∧
      ∃ b, (build {} (.full a.type) v).2 = .ok b ∧ b.type = a.type ∧ b.extents = a.extents ∧
        ∃ w, a.toValue = .ok w ∧ b.toValue = .ok w := by
  have hrank : (build {} (.uniform (.scalar .int8)) (.iter (.ofSupply 0 (.ofList [
      .iter (.ofSupply 1 (.ofList [.ofInt 1, .ofInt 2])), .list [.ofInt 3]])))).2.map
        PackedArray.rank = .ok 2 := by
    decide +kernel
  cases hbuild : (build {} (.uniform (.scalar .int8)) (.iter (.ofSupply 0 (.ofList [
      .iter (.ofSupply 1 (.ofList [.ofInt 1, .ofInt 2])), .list [.ofInt 3]])))).2 with
  | error e => rw [hbuild] at hrank; exact absurd hrank (by simp [Except.map])
  | ok a => exact ⟨_, a, rfl, hbuild, build_full_of_build hbuild {}⟩

end Ragged
