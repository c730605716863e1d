import Ragged.Proofs.Build.Rebuilding
import Ragged.Proofs.Value.Reordered

/-!
# Records whatever the order of their entries

A record given by keys is checked in the order in which its entries come and written in the order in
which its fields are declared. Along the way lazy sources are gone through and strided extents settle
at whichever instance is written first. None of it shows:

> at a known type or a known leaf, values that are one but for the order of entries are both built or
> both refused, and what is built has the same type, the same extents and reads back as the same
> value.

The write pass is not gone through for this. Whether a value is written, which extents are found and
what is read back are all told by the type (`exists_build_iff`, `extents_eq_of_write`,
`exists_toValue_of_build`), and going down a type does not tell the two values apart. With a known
leaf the type is settled by first elements alone.
-/

set_option autoImplicit false

namespace Ragged

variable {config : Config} {hint : Hint} {v w : Value}

/-- The type is settled alike where the hint gives the leaf. -/
theorem shape_of_reordered {leaf : LeafType} (h : v.Reordered w) :
    (v.shape (.uniform leaf)).2 = (w.shape (.uniform leaf)).2 :=
  Value.survey_of_reordered 0 false .empty h

theorem exists_build_of_sameRecords (h : v.SameRecords w) (hhint : hint ≠ .infer) :
    (∃ a, (build config hint v).2 = .ok a) ↔ ∃ b, (build config hint w).2 = .ok b := by
  cases hint with
  | infer => exact absurd rfl hhint
  | full t =>
    rw [exists_build_full_iff, exists_build_full_iff]
    exact exists_congr fun σ => t.conforms_of_sameRecords h
  | uniform leaf =>
    rw [exists_build_iff, exists_build_iff, shape_of_reordered h.2]
    exact exists_congr fun S => exists_congr fun t => and_congr_right fun _ =>
      and_congr_right fun _ => exists_congr fun σ => t.conforms_of_sameRecords h

theorem type_of_sameRecords {a b : PackedArray} (h : v.Reordered w) (hhint : hint ≠ .infer)
    (ha : (build config hint v).2 = .ok a) (hb : (build config hint w).2 = .ok b) :
    a.type = b.type := by
  cases hint with
  | infer => exact absurd rfl hhint
  | full t => exact (write_of_build_full ha).1.trans (write_of_build_full hb).1.symm
  | uniform leaf =>
    obtain ⟨S, hS, htype, -⟩ := build_eq_ok_iff.mp ha
    obtain ⟨S', hS', htype', -⟩ := build_eq_ok_iff.mp hb
    rw [shape_of_reordered h] at hS
    obtain rfl := Except.ok.inj (hS.symm.trans hS')
    exact Except.ok.inj (htype.symm.trans htype')

/-- **The order of entries does not matter** where the hint gives the leaf. -/
theorem build_of_reordered (h : v.Reordered w) (hkeys : v.DistinctKeys) (hhint : hint ≠ .infer)
    (config : Config) :
    ((∃ a, (build config hint v).2 = .ok a) ↔ ∃ b, (build config hint w).2 = .ok b) ∧
      ∀ a b, (build config hint v).2 = .ok a → (build config hint w).2 = .ok b →
        a.type = b.type ∧ a.contents.extents = b.contents.extents ∧ a.extents = b.extents ∧
          ∃ u, a.toValue = .ok u ∧ b.toValue = .ok u := by
  have hsame : v.SameRecords w := ⟨hkeys, h⟩
  refine ⟨exists_build_of_sameRecords hsame hhint, fun a b ha hb => ?_⟩
  have htype : a.type = b.type := type_of_sameRecords h hhint ha hb
  have hextents : a.contents.extents = b.contents.extents := by
    obtain ⟨c, hc, hslots⟩ := write_of_build ha config.growth
    obtain ⟨c', hc', hslots'⟩ := write_of_build hb config.growth
    rw [← htype] at hc'
    rw [← hslots, ← hslots']
    exact ArrayType.extents_eq_of_write hc hc'
      (fun σ hσ => (a.type.conforms_of_sameRecords hsame).mp hσ)
      fun slot => (a.type.reaches_of_sameRecords hsame).symm
  obtain ⟨u, hu, hread⟩ := exists_toValue_of_build ha
  obtain ⟨u', hu', hread'⟩ := exists_toValue_of_build hb
  rw [← htype, ← a.type.coerce_of_sameRecords hsame, hu] at hu'
  obtain rfl := Option.some.inj hu'
  exact ⟨htype, hextents, PackedArray.extents_eq_of_contents htype hextents, _, hread, hread'⟩

/-- A record with a field of records that a lazy source yields, each with its entries in two orders.
-/
theorem build_of_reordered_records :
    ∃ v w leaf, v = Value.tuple [.dict [("id", .ofInt 1), ("at", .iter (.ofSupply 0
        (.ofList [.dict [("x", .ofInt 1), ("y", .ofBool true)]])))]] ∧
      w = Value.tuple [.dict [("at", .iter (.ofSupply 0
        (.ofList [.dict [("y", .ofBool true), ("x", .ofInt 1)]]))), ("id", .ofInt 1)]] ∧
      leaf = LeafType.struct [⟨"rows", ⟨[], .struct [⟨"at", ⟨[.var], .struct [
        ⟨"x", ⟨[], .scalar .int8⟩⟩, ⟨"y", ⟨[], .scalar .float64⟩⟩]⟩⟩,
        ⟨"id", ⟨[], .scalar .int32⟩⟩]⟩⟩] ∧
      v.Reordered w ∧ v.DistinctKeys ∧ Hint.uniform leaf ≠ .infer ∧
      ∃ a b, (build {} (.uniform leaf) v).2 = .ok a ∧ (build {} (.uniform leaf) w).2 = .ok b ∧
        a.type = b.type ∧ a.contents.extents = b.contents.extents ∧ a.extents = b.extents ∧
        ∃ u, a.toValue = .ok u ∧ b.toValue = .ok u := by
  let inner := [("x", Value.ofInt 1), ("y", .ofBool true)]
  let inner' := [("y", Value.ofBool true), ("x", .ofInt 1)]
  let source := Value.iter (.ofSupply 0 (.ofList [.dict inner]))
  let source' := Value.iter (.ofSupply 0 (.ofList [.dict inner']))
  let v := Value.tuple [.dict [("id", .ofInt 1), ("at", source)]]
  let w := Value.tuple [.dict [("at", source'), ("id", .ofInt 1)]]
  let leaf := LeafType.struct [⟨"rows", ⟨[], .struct [⟨"at", ⟨[.var], .struct [
    ⟨"x", ⟨[], .scalar .int8⟩⟩, ⟨"y", ⟨[], .scalar .float64⟩⟩]⟩⟩, ⟨"id", ⟨[], .scalar .int32⟩⟩]⟩⟩]
  have hinner : Value.Reordered (.dict inner) (.dict inner') :=
    @Value.Reordered.dict _ inner _ rfl (.cons (.atom _) (.cons (.atom _) .nil)) (.swap _ _ _)
  have hsource : source.Reordered source' :=
    .iter rfl rfl rfl .nil .nil (.cons hinner .nil)
  have hreordered : v.Reordered w :=
    .tuple (.cons (@Value.Reordered.dict _ [("id", .ofInt 1), ("at", source')] _ rfl
      (.cons (.atom _) (.cons hsource .nil)) (.swap _ _ _)) .nil)
  have hkeys : v.DistinctKeys := by simp [v, source, inner, Entries.keys]
  have hbuilt : (build {} (.uniform leaf) v).2.map PackedArray.extents = .ok [] := by
    decide +kernel
  obtain ⟨a, ha, -⟩ := map_eq_ok.mp hbuilt
  obtain ⟨hiff, hall⟩ := build_of_reordered hreordered hkeys (by simp : Hint.uniform leaf ≠ .infer) {}
  obtain ⟨b, hb⟩ := hiff.mp ⟨a, ha⟩
  exact ⟨v, w, leaf, rfl, rfl, rfl, hreordered, hkeys, by simp, a, b, ha, hb, hall a b ha hb⟩

/-- Without a hint the first mapping decides in what order the fields are declared. -/
example :
    let names (a : PackedArray) := a.type.leaf.fields?.map Struct.names
    (build {} .infer (.dict [("x", .ofInt 1), ("y", .ofBool true)])).2.map names =
        .ok (some ["x", "y"]) ∧
      (build {} .infer (.dict [("y", .ofBool true), ("x", .ofInt 1)])).2.map names =
        .ok (some ["y", "x"]) := by
  decide

end Ragged
