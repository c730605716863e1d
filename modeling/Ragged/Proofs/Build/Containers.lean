import Ragged.Proofs.Build.Precheck
import Ragged.Proofs.Build.RoundTrip
import Ragged.Proofs.Shape.Containers
import Ragged.Proofs.Shape.Inference

/-!
# The kind of container does not change the data

Lists are looked over before anything is written and lazy sources are not; sources are kept in
queues, their lengths come late, and rows grow where a list would have told its length. None of this
shows in the array. Two runs are compared, one on a value and one on its listed form:

> without a hint both succeed or neither does, and then with the same data, at types that differ at
> most in that a dimension of the first is var where that of the second is fixed; with a full hint
> the arrays are the same, and the first run succeeds just if the second does and no lazy source
> stands at a strided dimension.

Each run succeeds just if its value conforms to its type. So what is compared are not the runs but
the types (`Alike`) and what conforms to them.
-/

set_option autoImplicit false

namespace Ragged

/-- The two arrays hold the same data. -/
structure PackedArray.SameData (a a' : PackedArray) : Prop where
  rank : a.rank = a'.rank
  value : ∃ w, a.toValue = .ok w ∧ a'.toValue = .ok w

section Listed

variable {config : Config} {v : Value}

/-- What an array reads back as is decided by what its type makes of the value. -/
theorem exists_toValue_of_build {hint : Hint} {a : PackedArray}
    (h : (build config hint v).2 = .ok a) :
    ∃ w, a.type.coerce v = some w ∧ a.toValue = .ok (w.along []) := by
  obtain ⟨shape, -, -, hwrite⟩ := build_eq_ok_iff.mp h
  obtain ⟨w, hread, hcoerce⟩ :=
    @ArrayType.Written.read _ _ _ (ArrayType.written_of_write hwrite) [] trivial
  rw [ArrayType.coerce_eq_of_drained_eq (Value.drained_shape hint v)] at hcoerce
  exact ⟨w, hcoerce, hread⟩

/-- Arrays of a value and of its listed form hold the same data if one type loosens the other. -/
theorem sameData_of_loosens {hint : Hint} {a a' : PackedArray}
    (h : (build config hint v).2 = .ok a) (h' : (build config hint v.listed).2 = .ok a')
    (hloosens : a.type.Loosens a'.type) : a.SameData a' := by
  obtain ⟨w, hw, hread⟩ := exists_toValue_of_build h
  obtain ⟨w', hw', hread'⟩ := exists_toValue_of_build h'
  rw [hloosens.coerce, ← ArrayType.coerce_of_preserves Value.preserves_listed, hw'] at hw
  obtain rfl := Option.some.inj hw
  exact ⟨hloosens.rank, _, hread, hread'⟩

/-- An array is built just if a type is settled and the value conforms to it. -/
theorem exists_build_iff {hint : Hint} : (∃ a, (build config hint v).2 = .ok a) ↔
    ∃ S t, (v.shape hint).2 = .ok S ∧ S.resolve hint config = .ok t ∧
      ∃ σ, t.Conforms LeafType.Accepts σ 0 v := by
  have hdrained : (v.shape hint).1.drained = v.drained := v.drained_shape hint
  constructor
  · rintro ⟨a, ha⟩
    obtain ⟨S, hS, htype, hwrite⟩ := build_eq_ok_iff.mp ha
    obtain ⟨σ, hσ⟩ := ArrayType.exists_write_iff.mp ⟨a.contents, hwrite⟩
    exact ⟨S, a.type, hS, htype, σ, ArrayType.conforms_of_drained_eq hdrained hσ⟩
  · rintro ⟨S, t, hS, htype, σ, hσ⟩
    obtain ⟨c, hc⟩ := @ArrayType.exists_write_iff t config.growth _ |>.mpr
      ⟨σ, ArrayType.conforms_of_drained_eq hdrained.symm hσ⟩
    exact ⟨⟨t, c⟩, build_eq_ok_iff.mpr ⟨S, hS, htype, hc⟩⟩

/-! ## Without a hint -/

/-- The type inferred from a value. -/
def Value.inferredType (config : Config) (v : Value) : Except BuildError ArrayType :=
  (v.shape .infer).2 >>= (·.infer config)

theorem Value.inferredType_eq_ok_iff {t : ArrayType} : v.inferredType config = .ok t ↔
    ∃ S, (v.shape .infer).2 = .ok S ∧ S.infer config = .ok t := by
  unfold inferredType
  cases (v.shape .infer).2 with
  | error e => simp [bind, Except.bind]
  | ok S => simp [bind, Except.bind]

theorem inferredType_of_build {a : PackedArray} (h : (build config .infer v).2 = .ok a) :
    v.inferredType config = .ok a.type := by
  obtain ⟨S, hS, htype, -⟩ := build_eq_ok_iff.mp h
  exact Value.inferredType_eq_ok_iff.mpr ⟨S, hS, htype⟩

/-- An array is built just if the value conforms to the type inferred from it. -/
theorem exists_build_infer_iff : (∃ a, (build config .infer v).2 = .ok a) ↔
    ∃ t, v.inferredType config = .ok t ∧ ∃ σ, t.Conforms LeafType.Accepts σ 0 v := by
  rw [exists_build_iff]
  constructor
  · rintro ⟨S, t, hS, htype, hσ⟩
    exact ⟨t, Value.inferredType_eq_ok_iff.mpr ⟨S, hS, htype⟩, hσ⟩
  · rintro ⟨t, ht, hσ⟩
    obtain ⟨S, hS, htype⟩ := Value.inferredType_eq_ok_iff.mp ht
    exact ⟨S, t, hS, htype, hσ⟩

/-- **The type inferred from a value loosens the one inferred from its listed form.** -/
theorem inferredType_listed (config : Config) (v : Value) :
    Alike ArrayType.Loosens (v.inferredType config) (v.listed.inferredType config) := by
  have hshape : (v.shape .infer).2.map Shape.listed = (v.listed.shape .infer).2 :=
    v.survey_listed 0 false .empty
  unfold Value.inferredType
  rw [← hshape]
  cases (v.shape .infer).2 with
  | error e => exact rfl
  | ok S => exact S.infer_listed config

/-- The value conforms to its type just if the listed one conforms to its own. Both do so as far as
the lengths go, and no lazy source stands at a strided dimension, as a type was inferred. -/
theorem conforms_inferred_iff {t t' : ArrayType} (ht : v.inferredType config = .ok t)
    (ht' : v.listed.inferredType config = .ok t') (hloosens : t.Loosens t') (σ : Nat → Nat) :
    t.Conforms LeafType.Accepts σ 0 v ↔ t'.Conforms LeafType.Accepts σ 0 v.listed := by
  obtain ⟨S, hS, htype⟩ := Value.inferredType_eq_ok_iff.mp ht
  obtain ⟨S', hS', htype'⟩ := Value.inferredType_eq_ok_iff.mp ht'
  have hlazy : ¬t.LazyStride 0 v := (conforms_of_infer (σ := σ) hS htype).not_lazyStride
  have hlengths : t'.Conforms (Sampled config) σ 0 v.listed := conforms_of_infer hS' htype'
  rw [ArrayType.conforms_listed_iff, and_iff_left hlazy, hloosens.conforms_iff 0 _ hlengths]

theorem exists_build_infer_listed_iff : (∃ a, (build config .infer v).2 = .ok a) ↔
    ∃ a, (build config .infer v.listed).2 = .ok a := by
  have hinferred := inferredType_listed config v
  rw [exists_build_infer_iff, exists_build_infer_iff]
  -- no type is inferred for either, or one for each
  cases ht : v.inferredType config with
  | error e =>
    cases ht' : v.listed.inferredType config with
    | error e' => simp
    | ok t' => rw [ht, ht'] at hinferred; exact hinferred.elim
  | ok t =>
    cases ht' : v.listed.inferredType config with
    | error e' => rw [ht, ht'] at hinferred; exact hinferred.elim
    | ok t' =>
      rw [ht, ht'] at hinferred
      simp only [Except.ok.injEq, exists_eq_left']
      exact exists_congr (conforms_inferred_iff ht ht' hinferred)

/-! ## With a full hint -/

theorem exists_build_full_iff {t : ArrayType} : (∃ a, (build config (.full t) v).2 = .ok a) ↔
    ∃ σ, t.Conforms LeafType.Accepts σ 0 v := by
  rw [← @ArrayType.exists_write_iff t config.growth]
  constructor
  · rintro ⟨a, ha⟩
    exact ⟨a.contents, (write_of_build_full ha).2⟩
  · rintro ⟨c, hc⟩
    exact ⟨⟨t, c⟩, build_full_of_write hc⟩

/-- The extents found are those of the dimensions reached, so they are found in both runs. -/
theorem extents_listed {t : ArrayType} {growth : GrowthPolicy} {c c' : Contents}
    (h : (t.write growth v).2 = .ok c) (h' : (t.write growth v.listed).2 = .ok c') :
    c.extents = c'.extents :=
  ArrayType.extents_eq_of_write h h' (fun _ hσ => (ArrayType.conforms_listed_iff.mp hσ).1)
    fun _ => ArrayType.reaches_listed

/-! ## Both hints -/

/-- **The kind of container does not change the data.** -/
theorem build_listed (config : Config) (v : Value) :
    ((∃ a, (build config .infer v).2 = .ok a) ↔
        ∃ a, (build config .infer v.listed).2 = .ok a) ∧
      (∀ a a', (build config .infer v).2 = .ok a → (build config .infer v.listed).2 = .ok a' →
        a.SameData a' ∧ a.type.Loosens a'.type) ∧
      ∀ t, ((∃ a, (build config (.full t) v).2 = .ok a) ↔
          (∃ a, (build config (.full t) v.listed).2 = .ok a) ∧ ¬t.LazyStride 0 v) ∧
        ∀ a a', (build config (.full t) v).2 = .ok a →
          (build config (.full t) v.listed).2 = .ok a' →
            a.SameData a' ∧ a.type = a'.type ∧ a.extents = a'.extents := by
  refine ⟨exists_build_infer_listed_iff, fun a a' h h' => ?_, fun t => ⟨?_, fun a a' h h' => ?_⟩⟩
  · have hloosens := inferredType_listed config v
    rw [inferredType_of_build h, inferredType_of_build h'] at hloosens
    exact ⟨sameData_of_loosens h h' hloosens, hloosens⟩
  -- with a full hint both runs are about one type, and only lazy sources make a difference
  · rw [exists_build_full_iff, exists_build_full_iff, ← exists_and_right]
    exact exists_congr fun σ => ArrayType.conforms_listed_iff
  · obtain ⟨htype, hwrite⟩ := write_of_build_full h
    obtain ⟨htype', hwrite'⟩ := write_of_build_full h'
    have hsame : a.type = a'.type := htype.trans htype'.symm
    refine ⟨sameData_of_loosens h h' (hsame ▸ .refl _), hsame, ?_⟩
    have hextents : a.contents.extents = a'.contents.extents := extents_listed hwrite hwrite'
    have hextent : a.contents.extent = a'.contents.extent := by
      funext d
      cases d with
      | strided slot => simp only [Contents.extent, hextents]
      | _ => rfl
    rw [PackedArray.extents, PackedArray.extents, hsame, hextent]

end Listed

/-- A lazy source is not taken at a strided dimension, and its listed form is. -/
example (v : Value) (hv : v = .iter (.ofSupply 0
      (.ofList [.tuple [.ofInt 1, .ofInt 2], .list [.ofInt 3]]))) :
    (build {} (.full ⟨[.strided, .var], .scalar .int32⟩) v).2.map PackedArray.extents =
        .error (.source (.stridedIterator 0)) ∧
      (build {} (.full ⟨[.strided, .var], .scalar .int32⟩) v.listed).2.map PackedArray.extents =
        .ok [some 2, none] := by
  subst hv
  decide

end Ragged
