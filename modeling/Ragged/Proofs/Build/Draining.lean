import Ragged.Proofs.Build.Precheck
import Ragged.Proofs.Layout.Draining

/-!
# How lazy sources are gone through

Building asks of the sources in a value one element after the other, and what it has asked for is
gone. So the value comes back with what was asked, and that is told here for every value, whether it
was built into an array or not.

> No source is asked after its end. If an array was built, every source has come to its end, with all
> it had to yield, in order. And if the type was given, no source was asked for more than it takes to
> see whether it has as many elements as the type wants.
-/

set_option autoImplicit false

namespace Ragged

variable {v : Value}

/-- What comes before the type is settled is a run, and leaves the value that is written. -/
theorem build_fst_cases (config : Config) (hint : Hint) (v : Value) :
    ((∃ e, (build config hint v).2 = .error e) ∧ (build config hint v).1 = (v.shape hint).1) ∨
      ∃ shape t, (v.shape hint).2 = .ok shape ∧ shape.resolve hint config = .ok t ∧
        (build config hint v).1 = (t.write config.growth (v.shape hint).1).1 ∧
        ∀ a, (build config hint v).2 = .ok a →
          (t.write config.growth (v.shape hint).1).2 = .ok a.contents := by
  unfold build
  cases hshape : v.shape hint with
  | mk w outcome =>
    cases outcome with
    | error e => exact .inl ⟨⟨e, rfl⟩, rfl⟩
    | ok shape =>
      simp only []
      cases htype : shape.resolve hint config with
      | error e => exact .inl ⟨⟨e, rfl⟩, rfl⟩
      | ok t =>
        refine .inr ⟨shape, t, rfl, htype, rfl, fun a ha => ?_⟩
        obtain ⟨c, hc, rfl⟩ := map_eq_ok.mp ha
        exact hc

/-- **Each source is drained once, in order, and never past need.** What is done to the value is a
run, in which a source that has ended is not asked again; if it is built into an array, every source
in it has yielded all its elements and was asked once more; and if the type was given, what has become
of the value is told by the type, whether or not there was an error. -/
theorem build_drains (config : Config) (hint : Hint) (hkeys : v.DistinctKeys) :
    v.Runs (build config hint v).1 ∧
      (∀ a, (build config hint v).2 = .ok a → v.Finishes (build config hint v).1) ∧
      ∀ t, hint = .full t → t.Draws v (build config hint v).1 := by
  have hshape := v.runs_shape hint
  have hdrained := v.drained_shape hint
  rcases build_fst_cases config hint v with ⟨⟨e, he⟩, hfst⟩ | ⟨S, t, hS, ht, hfst, hok⟩
  · rw [hfst]
    refine ⟨hshape, fun a ha => absurd (he.symm.trans ha) (by simp), ?_⟩
    rintro t rfl
    exact t.draws_refl v
  · -- what is written has the same keys, since only its sources were looked into
    have hkeys' : (v.shape hint).1.DistinctKeys := hkeys.of_drained_eq hdrained.symm
    obtain ⟨hruns, hdraws, hfinishes⟩ := t.draws_write config.growth hkeys'
    rw [hfst]
    refine ⟨hshape.trans hruns, fun a ha => ?_, ?_⟩
    · exact (hfinishes _ (hok a ha)).of_drained_eq hdrained
    · rintro t' rfl
      obtain rfl : t = t' := type_of_resolve_full ht
      exact hdraws

/-- A source of records, one of them with a source for a field. Inferred, all of it is an array; and
with a type at which the rows must have one element the first record already fails. -/
theorem build_drains_records :
    ∃ v t, v = Value.iter (.ofSupply 0 (.ofList
        [.dict [("id", .ofInt 1), ("row", .iter (.ofSupply 1 (.ofList [.ofInt 2, .ofInt 3])))],
          .dict [("row", .list [.ofInt 4]), ("id", .ofInt 5)]])) ∧
      t = (⟨[.var], .struct [⟨"id", ⟨[], .scalar .int32⟩⟩,
        ⟨"row", ⟨[.fixed 1], .scalar .int32⟩⟩]⟩ : ArrayType) ∧
      v.DistinctKeys ∧
      (∃ a, (build {} .infer v).2 = .ok a ∧ v.Runs (build {} .infer v).1 ∧
        v.Finishes (build {} .infer v).1) ∧
      (build {} (.full t) v).2.isOk = false ∧ v.Runs (build {} (.full t) v).1 ∧
        t.Draws v (build {} (.full t) v).1 := by
  let row := Value.iter (.ofSupply 1 (.ofList [.ofInt 2, .ofInt 3]))
  let v := Value.iter (.ofSupply 0 (.ofList [.dict [("id", .ofInt 1), ("row", row)],
    .dict [("row", .list [.ofInt 4]), ("id", .ofInt 5)]]))
  let t : ArrayType := ⟨[.var], .struct [⟨"id", ⟨[], .scalar .int32⟩⟩,
    ⟨"row", ⟨[.fixed 1], .scalar .int32⟩⟩]⟩
  have hkeys : v.DistinctKeys := by simp [v, row, Entries.keys]
  have hbuilt : (build {} .infer v).2.map PackedArray.rank = .ok 1 := by
    decide +kernel
  obtain ⟨a, ha, -⟩ := map_eq_ok.mp hbuilt
  obtain ⟨hruns, hfinishes, -⟩ := build_drains {} .infer hkeys
  obtain ⟨hruns', -, hdraws⟩ := build_drains {} (.full t) hkeys
  exact ⟨v, t, rfl, rfl, hkeys, ⟨a, ha, hruns, hfinishes a ha⟩, by decide +kernel, hruns',
    hdraws t rfl⟩

/-- Of five elements three are asked for where two are wanted, and the end is never seen. -/
example :
    (match (build {} (.full ⟨[.fixed 2], .scalar .int32⟩) (.iter (.ofSupply 0
        (.ofList [.ofInt 1, .ofInt 2, .ofInt 3, .ofInt 4, .ofInt 5])))).1 with
      | .iter p => (p.pulled, p.ended)
      | _ => (0, false)) = (3, false) := by
  decide

end Ragged
