import Ragged.Proofs.Leaf.Exact
import Ragged.Proofs.Shape.Inference

/-!
# Samples of what was read

A leaf type is inferred from a sample, and the scalars come back from such a leaf as others than went
in: among integers truth values are integers, among floats integers are floats. The sample of these
is another one, a single sort of scalars for most leaves and for integers a range that may have lost
the 0 or the 1 that a truth value had counted as. `LeafType.Resamples` says which samples correspond.

> Joins keep it up, and from the second sample the same leaf type is inferred.
-/

set_option autoImplicit false

namespace Ragged

namespace LeafSample

/-- The least range in which the integers of a sample lie together with 0 and 1. -/
def span? : LeafSample → Option (Int × Int)
  | .bool => some (0, 1)
  | .int lo hi => some (min lo 0, max hi 1)
  | _ => none

variable {s s' : LeafSample} {a : Atom}

/-- One more scalar of the same sort as before. -/
theorem join_ofAtom (a : Atom) : (ofAtom a).join a = .ok (ofAtom a) := by
  cases a with
  | int i =>
    show Except.ok (int (min i i) (max i i)) = _
    rw [min_self, max_self]
    rfl
  | _ => rfl

theorem join_ne_nothing (h : s.join a = .ok s') : s' ≠ .nothing := by
  rintro rfl
  cases s with
  | nothing => cases a <;> exact absurd h (by simp [join, ofAtom])
  | _ => cases a <;> exact absurd h (by simp [join, ofAtom, rank?])

theorem span?_join {p q p' q' : Int} (h : s.join a = .ok s') (hs : s.span? = some (p, q))
    (ha : (ofAtom a).span? = some (p', q')) : s'.span? = some (min p p', max q q') := by
  cases s with
  | bool | int lo hi =>
    cases a with
    | bool b | int i =>
      obtain rfl := Except.ok.inj h
      obtain ⟨rfl, rfl⟩ := Prod.mk.inj (Option.some.inj hs)
      obtain ⟨rfl, rfl⟩ := Prod.mk.inj (Option.some.inj ha)
      exact congrArg some (Prod.ext_iff.mpr ⟨by omega, by omega⟩)
    | _ => exact absurd ha (by simp [ofAtom, span?])
  | _ => exact absurd hs (by simp [span?])

end LeafSample

/-! ## What leaves read -/

/-- The sample of what the leaf reads, where that is of one sort and has no range. -/
def LeafType.sample? : LeafType → Option LeafSample
  | .scalar .bool => some .bool
  | .scalar .float64 => some .float
  | .scalar .cfloat64 => some .complex
  | .string _ => some .text
  | _ => none

section Read

variable {config : Config} {leaf : LeafType} {a b : Atom}

theorem LeafType.exists_load_of_readBack? (h : leaf.readBack? a = some b) :
    ∃ s, leaf.store a = .ok s ∧ leaf.load s = .ok b := by
  cases hs : leaf.store a with
  | error e => simp [readBack?, hs] at h
  | ok s =>
    obtain ⟨b', hload, hb⟩ := load_of_store hs
    obtain rfl := Option.some.inj (h.symm.trans hb)
    exact ⟨s, rfl, hload⟩

theorem LeafType.ofAtom_of_readBack? {r : LeafSample} (h : leaf.readBack? a = some b)
    (hr : leaf.sample? = some r) : LeafSample.ofAtom b = r := by
  obtain ⟨s, hs, hload⟩ := exists_load_of_readBack? h
  cases leaf with
  | struct fields => exact absurd hr (by simp [sample?])
  | string t =>
    obtain rfl := Option.some.inj hr
    cases a with
    | text text =>
      obtain rfl := Except.ok.inj (hload.symm.trans (StringType.load_of_encode hs))
      rfl
    | _ => exact absurd hs (by simp [store])
  | scalar k =>
    have hrepresent := ScalarKind.represent?_of_store hs
    cases k with
    | bool =>
      obtain rfl := Option.some.inj hr
      simp only [ScalarKind.represent?] at hrepresent
      split at hrepresent
      all_goals cases hrepresent
      all_goals (obtain rfl := Except.ok.inj hload; rfl)
    | float64 | cfloat64 =>
      obtain rfl := Option.some.inj hr
      obtain ⟨x, -, rfl⟩ := Option.map_eq_some_iff.mp hrepresent
      obtain rfl := Except.ok.inj hload
      rfl
    | _ => exact absurd hr (by simp [sample?])

/-- What is read of the integers chosen for a range is the integer that was stored. -/
theorem LeafType.readBack?_integer {k : ScalarKind} {i : Int}
    (hk : k = .int32 ∨ k = .int64 ∨ k = .uint64) (h : (scalar k).readBack? a = some b)
    (ha : a.integer? = some i) : b = .int i := by
  obtain ⟨s, hs, hload⟩ := exists_load_of_readBack? h
  obtain ⟨signed, bits, hword⟩ : ∃ signed bits, k.word? = some (signed, bits) := by
    rcases hk with rfl | rfl | rfl <;> exact ⟨_, _, rfl⟩
  obtain ⟨-, hload'⟩ := ScalarKind.load_of_isInteger hword (Atom.integer?_eq_some_iff.mp ha) hs
  exact Except.ok.inj (hload.symm.trans hload')

/-- A leaf that was inferred reads scalars of one sort, or integers in place of integers and truth
values. -/
theorem Sampled.readBack?_cases (ha : Sampled config leaf a) (h : leaf.readBack? a = some b) :
    leaf.sample? = some (LeafSample.ofAtom b) ∨
      leaf.sample? = none ∧
        ∃ i, b = .int i ∧ (LeafSample.ofAtom a).span? = some (min i 0, max i 1) := by
  obtain ⟨s, hleaf, ha⟩ := ha
  cases s with
  | nothing | struct fields => exact absurd ha id
  | int lo hi =>
    obtain ⟨k, hk, rfl⟩ := map_eq_ok.mp hleaf
    obtain ⟨hkind, -, -⟩ := integerKind_eq_ok hk
    refine .inr ⟨by rcases hkind with rfl | rfl | rfl <;> rfl, ?_⟩
    cases a with
    | bool x =>
      exact ⟨_, LeafType.readBack?_integer hkind h rfl, by cases x <;> rfl⟩
    | int i => exact ⟨i, LeafType.readBack?_integer hkind h rfl, rfl⟩
    | _ => exact absurd ha id
  | bool | float | complex | text =>
    obtain rfl := Except.ok.inj hleaf
    exact .inl (congrArg some (LeafType.ofAtom_of_readBack? h rfl)).symm

end Read

/-! ## Corresponding samples -/

/-- The second sample may be one of what the leaf reads in place of the scalars of the first. -/
inductive LeafType.Resamples (leaf : LeafType) : LeafSample → LeafSample → Prop
  | nothing : Resamples leaf .nothing .nothing
  | sort {s r : LeafSample} (hs : s ≠ .nothing) (hr : leaf.sample? = some r) : Resamples leaf s r
  | integers {s : LeafSample} {lo hi : Int} (hleaf : leaf.sample? = none)
      (hspan : s.span? = some (min lo 0, max hi 1)) : Resamples leaf s (.int lo hi)

section Resamples

variable {config : Config} {leaf : LeafType} {s s' s₁ : LeafSample} {a b : Atom}

/-- **Joins keep samples in correspondence.** -/
theorem LeafType.Resamples.join (h : leaf.Resamples s s') (ha : Sampled config leaf a)
    (hb : leaf.readBack? a = some b) (hjoin : s.join a = .ok s₁) :
    ∃ s₁', s'.join b = .ok s₁' ∧ leaf.Resamples s₁ s₁' := by
  have hs₁ := LeafSample.join_ne_nothing hjoin
  rcases ha.readBack?_cases hb with hsort | ⟨hnone, i, rfl, hspan⟩
  · refine ⟨LeafSample.ofAtom b, ?_, .sort hs₁ hsort⟩
    cases h with
    | nothing => rfl
    | sort _ hr =>
      obtain rfl := Option.some.inj (hsort.symm.trans hr)
      exact LeafSample.join_ofAtom b
    | integers hleaf => exact absurd (hsort.symm.trans hleaf) (by simp)
  · cases h with
    | nothing =>
      obtain rfl := Except.ok.inj hjoin
      exact ⟨.int i i, rfl, .integers hnone hspan⟩
    | sort _ hr => exact absurd (hr.symm.trans hnone) (by simp)
    | @integers _ lo hi _ hs =>
      refine ⟨.int (min lo i) (max hi i), rfl, .integers hnone ?_⟩
      rw [LeafSample.span?_join hjoin hs hspan, Option.some.injEq, Prod.mk.injEq]
      omega

/-- Which kind is chosen for a range only depends on how far it goes below 0 and above 1. -/
theorem integerKind_of_span {width : IntegerWidth} {lo hi lo' hi' : Int} {k : ScalarKind}
    (hlo : min lo 0 = min lo' 0) (hhi : max hi 1 = max hi' 1)
    (h : integerKind width lo hi = .ok k) : integerKind width lo' hi' = .ok k := by
  have hfits : ∀ k : ScalarKind, k.bounds.1 ≤ 0 → 1 < k.bounds.2 →
      (decide (k.bounds.1 ≤ lo') && decide (hi' < k.bounds.2)) =
        (decide (k.bounds.1 ≤ lo) && decide (hi < k.bounds.2)) := by
    intro k hlow hhigh
    have hle : k.bounds.1 ≤ lo' ↔ k.bounds.1 ≤ lo := by omega
    have hlt : hi' < k.bounds.2 ↔ hi < k.bounds.2 := by omega
    rw [decide_eq_decide.mpr hle, decide_eq_decide.mpr hlt]
  simp only [integerKind] at h ⊢
  simp only [hfits .int32 (by decide) (by decide), hfits .int64 (by decide) (by decide),
    hfits .uint64 (by decide) (by decide)]
  split at h
  · rename_i h32
    rwa [if_pos h32]
  · rename_i h32
    rw [if_neg h32]
    split at h
    · rename_i h64
      rwa [if_pos h64]
    · rename_i h64
      rw [if_neg h64]
      split at h
      · rename_i hu64
        rwa [if_pos hu64]
      · exact absurd h (by simp)

/-- **The leaf type inferred from a sample is inferred from a corresponding one too.** -/
theorem LeafType.Resamples.inferLeaf (h : leaf.Resamples s s')
    (hleaf : Shape.inferLeaf config s = .ok leaf) : Shape.inferLeaf config s' = .ok leaf := by
  cases s with
  | nothing =>
    cases h with
    | nothing => exact hleaf
    | sort hs => exact absurd rfl hs
    | integers _ hspan => exact absurd hspan (by simp [LeafSample.span?])
  | int lo hi =>
    obtain ⟨k, hk, rfl⟩ := map_eq_ok.mp hleaf
    have hnone : (LeafType.scalar k).sample? = none := by
      rcases (integerKind_eq_ok hk).1 with rfl | rfl | rfl <;> rfl
    cases h with
    | sort _ hr => exact absurd (hr.symm.trans hnone) (by simp)
    | @integers _ lo' hi' _ hspan =>
      obtain ⟨hlo, hhi⟩ := Prod.mk.inj (Option.some.inj hspan)
      exact map_eq_ok.mpr ⟨k, integerKind_of_span hlo hhi hk, rfl⟩
  | struct fields =>
    obtain ⟨fields, rfl, -⟩ := fields_of_inferLeaf hleaf
    cases h with
    | sort _ hr => exact absurd hr (by simp [sample?])
    | integers _ hspan => exact absurd hspan (by simp [LeafSample.span?])
  | bool | float | complex | text =>
    obtain rfl := Except.ok.inj hleaf
    cases h with
    | sort _ hr =>
      obtain rfl := Option.some.inj hr
      rfl
    | integers hnone => exact absurd hnone (by simp [sample?])

end Resamples

end Ragged
