import Ragged.Proofs.Build.Containers
import Ragged.Proofs.Shape.Resampling

/-!
# What is read back has the type it was read at

Without a hint the type of an array is made up from the value, and what the array reads back as is not
that value: among integers truth values have become integers and among floats integers have become
floats, records have their keys in one order, and sources are gone through. All the same

> the value read back is built into an array of the type it was read at, from which it is read back
> again.

Only if there was a lazy source in the first value may dimensions differ. A source makes its dimension
var, and the list in its place makes it fixed if all its neighbours are as long; so that case is led
back to the one of the value with lists for sources (`Value.listed`), whose type the type loosens.
-/

set_option autoImplicit false

namespace Ragged

variable {config : Config} {v : Value} {a : PackedArray}

/-- Without sources the type stays exactly as it is. -/
theorem build_infer_of_noIterators (h : (build config .infer v).2 = .ok a)
    (hdistinct : v.DistinctKeys) (hlists : v.NoIterators) :
    ∃ w b, a.toValue = .ok w ∧ (build config .infer w).2 = .ok b ∧ b.toValue = .ok w ∧
      b.type = a.type := by
  obtain ⟨S, hS, htype⟩ := Value.inferredType_eq_ok_iff.mp (inferredType_of_build h)
  have hgrows := v.gathered 0 false .empty S Shape.consistent_empty (Nat.zero_le _) hS
  have hcovers : S.Covers 0 v := hgrows.covers v (List.mem_singleton_self v)
  obtain ⟨w, hw, hread⟩ := exists_toValue_of_build h
  -- no record is met where names repeat, so reading gives what the type makes of the value
  have hnames : ¬a.type.MeetsRepeat 0 v := by
    rw [← Shape.inner_zero a.type]
    exact not_meetsRepeat_of_covers hcovers hgrows.consistent htype
  have halong : w.along [] = w := ArrayType.along_of_coerce hnames hw
  rw [halong] at hread
  have hinferred : w.inferredType config = .ok a.type := by
    have hstep : Value.Resurveyed a.type.leaf 0 v w :=
      resurveyed_of_covers hcovers hgrows.consistent htype hlists hdistinct
        (by rw [Shape.inner_zero]; exact hw)
    obtain ⟨S', hS', hsame⟩ := hstep false .empty .empty S (Shape.resampled_empty _) hS
    exact Value.inferredType_eq_ok_iff.mpr ⟨S', hS', hsame.infer rfl htype⟩
  obtain ⟨t, ht, σ, hσ⟩ := exists_build_infer_iff.mp ⟨a, h⟩
  obtain rfl : a.type = t := Except.ok.inj ((inferredType_of_build h).symm.trans ht)
  obtain ⟨b, hb⟩ := exists_build_infer_iff.mpr
    ⟨a.type, hinferred, σ, ArrayType.conforms_again hnames hw hσ⟩
  have hbtype : b.type = a.type :=
    Except.ok.inj ((inferredType_of_build hb).symm.trans hinferred)
  refine ⟨w, b, hread, hb, ?_, hbtype⟩
  obtain ⟨w', hw', hread'⟩ := exists_toValue_of_build hb
  rw [hbtype, ArrayType.coerce_again hnames hw] at hw'
  obtain rfl := Option.some.inj hw'
  rwa [halong] at hread'

/-- **Inferring again from what was read back changes nothing**, except that dimensions left open for
lazy sources may be fixed: the value read back is built into an array of as many dimensions, at a type
that the first one loosens, and reads back as itself. Without sources it is the first type. -/
theorem build_infer_of_toValue (h : (build config .infer v).2 = .ok a)
    (hdistinct : v.DistinctKeys) :
    ∃ w b, a.toValue = .ok w ∧ (build config .infer w).2 = .ok b ∧ b.toValue = .ok w ∧
      b.rank = a.rank ∧ a.type.Loosens b.type ∧ (v.NoIterators → b.type = a.type) := by
  obtain ⟨a', h'⟩ := exists_build_infer_listed_iff.mp ⟨a, h⟩
  have hloosens : a.type.Loosens a'.type := by
    have hinferred := inferredType_listed config v
    rw [inferredType_of_build h, inferredType_of_build h'] at hinferred
    exact hinferred
  obtain ⟨w, hread, hread'⟩ := (sameData_of_loosens h h' hloosens).value
  obtain ⟨w', b, hw', hb, hbread, hbtype⟩ := build_infer_of_noIterators h'
    (hdistinct.map Value.preserves_listed) (Value.noIterators_listed v)
  obtain rfl : w = w' := Except.ok.inj (hread'.symm.trans hw')
  refine ⟨w, b, hread, hb, hbread, ?_, hbtype ▸ hloosens, fun hlists => ?_⟩
  · rw [PackedArray.rank, hbtype]
    exact hloosens.rank.symm
  · obtain ⟨u, c, hu, hc, -, hctype⟩ := build_infer_of_noIterators h hdistinct hlists
    obtain rfl : w = u := Except.ok.inj (hread.symm.trans hu)
    obtain rfl : b = c := Except.ok.inj (hb.symm.trans hc)
    exact hctype

/-- Records in a source and in a list, where a truth value is kept as an integer and an integer as a
float; and the same with a list for the source. -/
theorem build_infer_of_toValue_records :
    ∃ v, v = Value.list [
        .dict [("n", .ofBool true), ("at", .iter (.ofSupply 0 (.ofList
          [.dict [("x", .ofInt 1), ("y", .list [.ofBool true])]])))],
        .dict [("at", .tuple [.dict [("y", .list []), ("x", .atom (.float ⟨0x4004000000000000⟩))]]),
          ("n", .ofInt 5)]] ∧
      v.DistinctKeys ∧
      (∃ a, (build {} .infer v).2 = .ok a ∧ ∃ w b, a.toValue = .ok w ∧
        (build {} .infer w).2 = .ok b ∧ b.toValue = .ok w ∧ b.rank = a.rank ∧
          a.type.Loosens b.type ∧ (v.NoIterators → b.type = a.type)) ∧
      v.listed.NoIterators ∧
      ∃ a, (build {} .infer v.listed).2 = .ok a ∧ ∃ w b, a.toValue = .ok w ∧
        (build {} .infer w).2 = .ok b ∧ b.toValue = .ok w ∧ b.rank = a.rank ∧
          a.type.Loosens b.type ∧ b.type = a.type := by
  let inner := [("x", Value.ofInt 1), ("y", .list [.ofBool true])]
  let inner' := [("y", Value.list []), ("x", .atom (.float ⟨0x4004000000000000⟩))]
  let source := Value.iter (.ofSupply 0 (.ofList [.dict inner]))
  let v := Value.list [.dict [("n", .ofBool true), ("at", source)],
    .dict [("at", .tuple [.dict inner']), ("n", .ofInt 5)]]
  have hkeys : v.DistinctKeys := by simp [v, source, inner, inner', Entries.keys]
  have hbuilt : (build {} .infer v).2.map PackedArray.rank = .ok 1 := by
    decide +kernel
  obtain ⟨a, ha, -⟩ := map_eq_ok.mp hbuilt
  obtain ⟨a', ha'⟩ := exists_build_infer_listed_iff.mp ⟨a, ha⟩
  have hkeys' : v.listed.DistinctKeys := hkeys.map Value.preserves_listed
  obtain ⟨w, b, hw, hb, hread, hrank, hloosens, htype⟩ := build_infer_of_toValue ha' hkeys'
  exact ⟨v, rfl, hkeys, ⟨a, ha, build_infer_of_toValue ha hkeys⟩, v.noIterators_listed, a', ha',
    w, b, hw, hb, hread, hrank, hloosens, htype v.noIterators_listed⟩

/-- A dimension left open for a source is fixed by what the source gave. -/
example :
    let rows := (build {} .infer (.iter (.ofSupply 0 (.ofList [.ofInt 1, .ofBool true])))).2
    rows.map (·.type) = .ok ⟨[.var], .scalar .int32⟩ ∧
      ((rows.bind (·.toValue)).bind fun w => (build {} .infer w).2).map (·.type) =
        .ok ⟨[.fixed 2], .scalar .int32⟩ := by
  decide

end Ragged
