import Ragged.Proofs.Shape.Sampling
import Ragged.Proofs.Shape.Survey
import Ragged.Proofs.Value.Shuffled

/-!
# The summary of layers

What a survey that looks at everything finds can be said without saying how it goes about it. Given
the layers of what it looks at, `Shape.Sums` tells which shape that is, and `Layers.Agree` whether
there is one:

> all leaves are at one depth, above which all containers are, and are all numbers, or all texts, or
> all mappings of the same keys such that what is under each key agrees again.

Neither has regard for the order in which values come, except that the fields of a shape come as the
keys of the first mapping. So layers that have the same values, each of them shuffled for its part,
agree or do not agree together (`Agree.of_within`), and their shapes are the same but for the order of
fields (`Sums.reordered`).
-/

set_option autoImplicit false

namespace Ragged

/-! ## Levels -/

/-- The lengths of the containers among some values. -/
def Layers.lengths (vs : List Value) : Set Nat :=
  {n | ∃ v ∈ vs, ∃ xs, v.items? = some xs ∧ xs.length = n}

/-- The level is what there is to tell of the containers among some values. -/
structure Level.Sums (vs : List Value) (l : Level) : Prop where
  lengths : l.lengths.Sums (Layers.lengths vs)
  fromIterator : l.fromIterator = true ↔ ∃ v ∈ vs, v.isIterator = true
  partly : l.partly = false

/-- There is a level for each depth at which there are containers. -/
structure Layers.Levels (L : Layers) (levels : List Level) : Prop where
  depths : ∀ k, k < levels.length ↔ ∃ v ∈ L k, v.items? ≠ none
  level : ∀ k (l : Level), levels[k]? = some l → l.Sums (L k)

/-- Leaves are at that depth only, and containers above it only. -/
structure Layers.LeavesAt (L : Layers) (depth : Nat) : Prop where
  leaves : ∀ k, ∀ v ∈ L k, v.items? = none → k = depth
  containers : ∀ k, ∀ v ∈ L k, v.items? ≠ none → k < depth

/-- The shape is what there is to tell of the layers: with no leaves, with scalars, or with
mappings. -/
inductive Shape.Sums : Layers → Shape → Prop where
  | bare {L : Layers} {levels : List Level} (hlevels : L.Levels levels)
      (hbare : ∀ k, ∀ v ∈ L k, v.items? ≠ none) : Sums L ⟨levels, none, .nothing⟩
  | scalars {L : Layers} {levels : List Level} {depth : Nat} {s : LeafSample}
      (hlevels : L.Levels levels) (hdepth : depth = levels.length) (hleaves : L.LeavesAt depth)
      (hsome : L depth ≠ []) (hall : ∀ v ∈ L depth, ∃ a, v = .atom a)
      (hsample : s.Sums {a | .atom a ∈ L depth}) : Sums L ⟨levels, some depth, s⟩
  | records {L : Layers} {levels : List Level} {depth : Nat} {fields : List (String × Shape)}
      {first : List (String × Value)} (hlevels : L.Levels levels) (hdepth : depth = levels.length)
      (hleaves : L.LeavesAt depth) (hfirst : (L depth).head? = some (.dict first))
      (hkeys : Entries.keys fields = Entries.keys first)
      (hall : ∀ v ∈ L depth, ∃ entries, v = .dict entries ∧
        ∀ key, key ∈ Entries.keys entries ↔ key ∈ Entries.keys first)
      (hfields : ∀ key S, Entries.get? fields key = some S →
        Sums (.of (Layers.column key (L depth))) S) : Sums L ⟨levels, some depth, .struct fields⟩

/-- The leaves of the layers go together. -/
inductive Layers.Agree : Layers → Prop where
  | bare {L : Layers} (hbare : ∀ k, ∀ v ∈ L k, v.items? ≠ none) : Agree L
  | numbers {L : Layers} {depth : Nat} (hleaves : L.LeavesAt depth)
      (hall : ∀ v ∈ L depth, ∃ a, v = .atom a ∧ a.isText = false) : Agree L
  | texts {L : Layers} {depth : Nat} (hleaves : L.LeavesAt depth)
      (hall : ∀ v ∈ L depth, ∃ a, v = .atom a ∧ a.isText = true) : Agree L
  | records {L : Layers} {depth : Nat} {names : List String} (hleaves : L.LeavesAt depth)
      (hall : ∀ v ∈ L depth, ∃ entries, v = .dict entries ∧
        ∀ key, key ∈ Entries.keys entries ↔ key ∈ names)
      (hfields : ∀ key ∈ names, Agree (.of (column key (L depth)))) : Agree L

/-- The shapes are one but for the order of fields. -/
inductive Shape.Reordered : Shape → Shape → Prop where
  | refl (S : Shape) : Reordered S S
  | records {levels : List Level} {leafDepth : Option Nat} {fields fields' : List (String × Shape)}
      (hkeys : ∀ key, key ∈ Entries.keys fields ↔ key ∈ Entries.keys fields')
      (hfields : ∀ key S S', Entries.get? fields key = some S → Entries.get? fields' key = some S' →
        Reordered S S') :
      Reordered ⟨levels, leafDepth, .struct fields⟩ ⟨levels, leafDepth, .struct fields'⟩

/-! ## Levels step by step -/

section Levels

variable {L L' : Layers} {levels levels' : List Level} {v : Value} {vs : List Value} {l : Level}
  {depth : Nat}

theorem Layers.lengths_concat {xs : List Value} (hxs : v.items? = some xs) :
    lengths (vs ++ [v]) = insert xs.length (lengths vs) := by
  ext n
  constructor
  · rintro ⟨w, hw, ys, hys, hn⟩
    rcases List.mem_append.mp hw with hw | hw
    · exact .inr ⟨w, hw, ys, hys, hn⟩
    · obtain rfl := List.mem_singleton.mp hw
      obtain rfl := Option.some.inj (hys.symm.trans hxs)
      exact .inl hn.symm
  · rintro (rfl | ⟨w, hw, h⟩)
    · exact ⟨v, List.mem_append_right _ (List.mem_singleton_self v), xs, hxs, rfl⟩
    · exact ⟨w, List.mem_append_left _ hw, h⟩

theorem Layers.lengths_eq_empty (h : ∀ v ∈ vs, v.items? = none) : lengths vs = ∅ := by
  refine Set.eq_empty_iff_forall_notMem.mpr ?_
  rintro n ⟨v, hv, xs, hxs, -⟩
  exact absurd (hxs.symm.trans (h v hv)) (by simp)

theorem Value.items?_ne_none_of_isIterator (hv : v.isIterator = true) : v.items? ≠ none := by
  obtain ⟨source, rfl⟩ := exists_source hv
  simp [items?]

/-- Levels at other depths stay, and none comes in if none is missing above. -/
theorem Shape.getElem?_updateLevel_other {f : Level → Level} {k : Nat} (hk : k ≠ depth)
    (hdepth : depth ≤ levels.length) : (updateLevel f depth levels)[k]? = levels[k]? := by
  cases hl : levels[k]? with
  | some l => exact getElem?_updateLevel_of_ne hk hl
  | none =>
    rw [List.getElem?_eq_none_iff] at hl ⊢
    rw [length_updateLevel]
    omega

/-- Where there is no container, there is nothing to tell. -/
theorem Level.sums_default (h : ∀ v ∈ vs, v.items? = none) : Level.Sums vs {} where
  lengths := Layers.lengths_eq_empty h
  fromIterator := by
    refine ⟨fun h => absurd h (by simp), ?_⟩
    rintro ⟨v, hv, hiter⟩
    exact absurd (h v hv) (Value.items?_ne_none_of_isIterator hiter)
  partly := rfl

/-- **One more container.** -/
theorem Level.Sums.note {xs : List Value} (h : l.Sums vs) (hxs : v.items? = some xs) :
    (Value.noteContainer v.isIterator xs.length false l).Sums (vs ++ [v]) := by
  have hlengths := h.lengths.observe xs.length
  rw [← Layers.lengths_concat hxs] at hlengths
  have hiter : (∃ w ∈ vs ++ [v], w.isIterator = true) ↔
      l.fromIterator = true ∨ v.isIterator = true := by
    simp only [List.mem_append, List.mem_singleton, or_and_right, exists_or, exists_eq_left,
      h.fromIterator]
  have hpartly : (l.partly || false) = false := (Bool.or_false _).trans h.partly
  cases hv : v.isIterator with
  | true =>
    rw [hv] at hiter
    exact ⟨hlengths, iff_of_true rfl (hiter.mpr (.inr rfl)), hpartly⟩
  | false =>
    rw [hv, or_iff_left Bool.false_ne_true] at hiter
    exact ⟨hlengths, hiter.symm, hpartly⟩

/-- A leaf is nothing to a level. -/
theorem Level.Sums.note_leaf (h : l.Sums vs) (hv : v.items? = none) : l.Sums (vs ++ [v]) where
  lengths := by
    have hlengths : Layers.lengths (vs ++ [v]) = Layers.lengths vs := by
      ext n
      simp only [Layers.lengths, List.mem_append, List.mem_singleton, Set.mem_ofPred_eq, or_and_right,
        exists_or, exists_eq_left, hv]
      simp
    exact hlengths ▸ h.lengths
  fromIterator := by
    have hiter : v.isIterator = false := by
      refine Bool.eq_false_iff.mpr fun hiter => ?_
      exact Value.items?_ne_none_of_isIterator hiter hv
    rw [h.fromIterator]
    simp [or_and_right, exists_or, hiter]
  partly := h.partly

namespace Layers.Levels

/-- A depth without a level is one without containers. -/
theorem sums_getD (h : L.Levels levels) (k : Nat) : Level.Sums (L k) (levels[k]?.getD {}) := by
  cases hl : levels[k]? with
  | some l => exact h.level k l hl
  | none =>
    refine Level.sums_default fun v hv => ?_
    refine Decidable.byContradiction fun hne => ?_
    have hlt := (h.depths k).mpr ⟨v, hv, hne⟩
    exact absurd hl (by simpa using hlt)

/-- **One more container changes the level at its depth.** -/
theorem note {xs : List Value} (h : L.Levels levels) (hdepth : depth ≤ levels.length)
    (hxs : v.items? = some xs) :
    (L.note depth v).Levels (Shape.updateLevel
      (Value.noteContainer v.isIterator xs.length false) depth levels) where
  depths := by
    intro k
    rw [Shape.length_updateLevel]
    by_cases hk : k = depth
    · subst hk
      refine iff_of_true (by omega) ⟨v, mem_note.mpr (.inr ⟨rfl, rfl⟩), by simp [hxs]⟩
    · rw [note_of_ne hk, ← h.depths k]
      omega
  level := by
    intro k l hl
    by_cases hk : k = depth
    · subst hk
      rw [Shape.getElem?_updateLevel_self] at hl
      obtain rfl := Option.some.inj hl
      rw [note_self]
      exact (h.sums_getD k).note hxs
    · rw [Shape.getElem?_updateLevel_other hk hdepth] at hl
      rw [note_of_ne hk]
      exact h.level k l hl

/-- A leaf changes none. -/
theorem note_leaf (h : L.Levels levels) (hv : v.items? = none) : (L.note depth v).Levels levels where
  depths := by
    intro k
    rw [h.depths k]
    constructor
    · rintro ⟨w, hw, hne⟩
      exact ⟨w, mem_note.mpr (.inl hw), hne⟩
    · rintro ⟨w, hw, hne⟩
      rcases mem_note.mp hw with hw | ⟨-, rfl⟩
      · exact ⟨w, hw, hne⟩
      · exact absurd hv hne
  level := by
    intro k l hl
    by_cases hk : k = depth
    · subst hk
      rw [note_self]
      exact (h.level k l hl).note_leaf hv
    · rw [note_of_ne hk]
      exact h.level k l hl

end Layers.Levels

end Levels

/-! ## The same values -/

section Same

variable {L L' : Layers} {levels levels' : List Level} {k : Nat}

theorem Layers.Within.lengths_subset (h : L.Within L') (k : Nat) :
    lengths (L k) ⊆ lengths (L' k) := by
  rintro n ⟨v, hv, xs, hxs, rfl⟩
  obtain ⟨w, hw, hvw⟩ := h k v hv
  obtain ⟨ys, hys, hlength⟩ := hvw.length_items hxs
  exact ⟨w, hw, ys, hys, hlength⟩

theorem Layers.Within.isIterator (h : L.Within L') (k : Nat)
    (hiter : ∃ v ∈ L k, v.isIterator = true) : ∃ v ∈ L' k, v.isIterator = true := by
  obtain ⟨v, hv, hiter⟩ := hiter
  obtain ⟨w, hw, hvw⟩ := h k v hv
  exact ⟨w, hw, hvw.isIterator.symm.trans hiter⟩

theorem Layers.Within.container (h : L.Within L') (k : Nat)
    (hcontainer : ∃ v ∈ L k, v.items? ≠ none) : ∃ v ∈ L' k, v.items? ≠ none := by
  obtain ⟨v, hv, hne⟩ := hcontainer
  obtain ⟨w, hw, hvw⟩ := h k v hv
  exact ⟨w, hw, mt hvw.items?_eq_none_iff.mpr hne⟩

theorem Layers.Within.atoms_subset (h : L.Within L') (k : Nat) :
    {a | Value.atom a ∈ L k} ⊆ {a | Value.atom a ∈ L' k} := by
  intro a ha
  obtain ⟨w, hw, hvw⟩ := h k _ ha
  obtain rfl := hvw.of_atom
  exact hw

theorem Level.Sums.unique {l l' : Level} (h : l.Sums (L k)) (h' : l'.Sums (L' k))
    (hL : L.Within L') (hL' : L'.Within L) : l = l' := by
  have hlengths := h.lengths
  rw [Set.Subset.antisymm (hL.lengths_subset k) (hL'.lengths_subset k)] at hlengths
  have hiter : l.fromIterator = l'.fromIterator := by
    rw [Bool.eq_iff_iff, h.fromIterator, h'.fromIterator]
    exact ⟨hL.isIterator k, hL'.isIterator k⟩
  obtain ⟨lengths, fromIterator, partly⟩ := l
  obtain ⟨lengths', fromIterator', partly'⟩ := l'
  obtain rfl := hlengths.unique h'.lengths
  obtain rfl : fromIterator = fromIterator' := hiter
  obtain rfl : partly = false := h.partly
  obtain rfl : partly' = false := h'.partly
  rfl

theorem Layers.Levels.length_le (h : L.Levels levels) (h' : L'.Levels levels')
    (hL : L.Within L') : levels.length ≤ levels'.length := by
  refine Nat.le_of_not_lt fun hlt => ?_
  exact absurd ((h'.depths _).mpr (hL.container _ ((h.depths _).mp hlt))) (Nat.lt_irrefl _)

theorem Layers.Levels.unique (h : L.Levels levels) (h' : L'.Levels levels') (hL : L.Within L')
    (hL' : L'.Within L) : levels = levels' := by
  have hlength := Nat.le_antisymm (h.length_le h' hL) (h'.length_le h hL')
  refine List.ext_getElem hlength fun k hk hk' => ?_
  exact (h.level k _ (List.getElem?_eq_getElem hk)).unique
    (h'.level k _ (List.getElem?_eq_getElem hk')) hL hL'

end Same

/-! ## Leaves that agree -/

namespace Layers

variable {L L' : Layers} {k depth : Nat} {v w : Value}

/-- Leaves stay where they are when a container comes in above them. -/
theorem LeavesAt.note (h : L.LeavesAt depth) (hv : v.items? ≠ none) (hk : k < depth) :
    (L.note k v).LeavesAt depth where
  leaves := by
    intro i w hw hleaf
    rcases mem_note.mp hw with hw | ⟨-, rfl⟩
    · exact h.leaves i w hw hleaf
    · exact absurd hleaf hv
  containers := by
    intro i w hw hne
    rcases mem_note.mp hw with hw | ⟨rfl, -⟩
    · exact h.containers i w hw hne
    · exact hk

theorem LeavesAt.note_leaf (h : L.LeavesAt depth) (hv : v.items? = none) :
    (L.note depth v).LeavesAt depth where
  leaves := by
    intro i w hw hleaf
    rcases mem_note.mp hw with hw | ⟨rfl, -⟩
    · exact h.leaves i w hw hleaf
    · rfl
  containers := by
    intro i w hw hne
    rcases mem_note.mp hw with hw | ⟨-, rfl⟩
    · exact h.containers i w hw hne
    · exact absurd hv hne

theorem LeavesAt.of_within (h : L'.LeavesAt depth) (hL : L.Within L') : L.LeavesAt depth where
  leaves := by
    intro k v hv hleaf
    obtain ⟨w, hw, hvw⟩ := hL k v hv
    exact h.leaves k w hw (hvw.items?_eq_none_iff.mp hleaf)
  containers := by
    intro k v hv hne
    obtain ⟨w, hw, hvw⟩ := hL k v hv
    exact h.containers k w hw (mt hvw.items?_eq_none_iff.mpr hne)

/-- **Less agrees if more does**, and in any order. -/
theorem Agree.of_within (h : L'.Agree) : ∀ {L : Layers}, L.Within L' → L.Agree := by
  induction h with
  | bare hbare =>
    intro L hL
    refine .bare fun k v hv => ?_
    obtain ⟨w, hw, hvw⟩ := hL k v hv
    exact mt hvw.items?_eq_none_iff.mp (hbare k w hw)
  | numbers hleaves hall =>
    intro L hL
    refine .numbers (hleaves.of_within hL) fun v hv => ?_
    obtain ⟨w, hw, hvw⟩ := hL _ v hv
    obtain ⟨a, rfl, ha⟩ := hall w hw
    exact ⟨a, hvw.symm.of_atom, ha⟩
  | texts hleaves hall =>
    intro L hL
    refine .texts (hleaves.of_within hL) fun v hv => ?_
    obtain ⟨w, hw, hvw⟩ := hL _ v hv
    obtain ⟨a, rfl, ha⟩ := hall w hw
    exact ⟨a, hvw.symm.of_atom, ha⟩
  | records hleaves hall _ ih =>
    intro L hL
    refine .records (hleaves.of_within hL) (fun v hv => ?_) fun key hkey =>
      ih key hkey (within_column hL key _)
    obtain ⟨w, hw, hvw⟩ := hL _ v hv
    obtain ⟨entries, rfl, hnames⟩ := hall w hw
    obtain ⟨entries', rfl, hkeys, -⟩ := hvw.symm.of_dict
    exact ⟨entries', rfl, fun key => (hkeys key).symm.trans (hnames key)⟩

/-- With one leaf the depth of all is settled. -/
theorem Agree.leavesAt (h : L.Agree) (hv : v ∈ L k) (hleaf : v.items? = none) : L.LeavesAt k := by
  cases h with
  | bare hbare => exact absurd hleaf (hbare k v hv)
  | numbers hleaves | texts hleaves | records hleaves =>
    exact hleaves.leaves k v hv hleaf ▸ hleaves

/-- A scalar is among scalars, of the same kind. -/
theorem Agree.of_atom {a : Atom} (h : L.Agree) (ha : .atom a ∈ L k) (hw : w ∈ L k) :
    ∃ b, w = .atom b ∧ b.isText = a.isText := by
  cases h with
  | bare hbare => exact absurd rfl (hbare k _ ha)
  | numbers hleaves hall | texts hleaves hall =>
    obtain rfl := hleaves.leaves k _ ha rfl
    obtain ⟨a', heq, ha'⟩ := hall _ ha
    obtain rfl := Value.atom.inj heq
    obtain ⟨b, rfl, hb⟩ := hall w hw
    exact ⟨b, rfl, hb.trans ha'.symm⟩
  | records hleaves hall =>
    obtain rfl := hleaves.leaves k _ ha rfl
    obtain ⟨entries, heq, -⟩ := hall _ ha
    exact absurd heq (by simp)

/-- A mapping is among mappings of its keys, and what is under each of these agrees. -/
theorem Agree.of_dict {entries : List (String × Value)} (h : L.Agree) (hv : .dict entries ∈ L k) :
    (∀ w ∈ L k, ∃ entries', w = .dict entries' ∧
      ∀ key, key ∈ Entries.keys entries' ↔ key ∈ Entries.keys entries) ∧
      ∀ key ∈ Entries.keys entries, Agree (.of (column key (L k))) := by
  cases h with
  | bare hbare => exact absurd rfl (hbare k _ hv)
  | numbers hleaves hall | texts hleaves hall =>
    obtain rfl := hleaves.leaves k _ hv rfl
    obtain ⟨a, heq, -⟩ := hall _ hv
    exact absurd heq (by simp)
  | records hleaves hall hfields =>
    obtain rfl := hleaves.leaves k _ hv rfl
    obtain ⟨entries', heq, hnames⟩ := hall _ hv
    obtain rfl := Value.dict.inj heq
    refine ⟨fun w hw => ?_, fun key hkey => hfields key ((hnames key).mp hkey)⟩
    obtain ⟨entries', rfl, hnames'⟩ := hall w hw
    exact ⟨entries', rfl, fun key => (hnames' key).trans (hnames key).symm⟩

end Layers

/-! ## Shapes that sum up -/

namespace Shape.Sums

variable {L L' : Layers} {S S' : Shape}

theorem levels (h : S.Sums L) : L.Levels S.levels := by
  cases h with
  | bare hlevels | scalars hlevels | records hlevels => exact hlevels

/-- Leaves are where the shape says, and there are some. -/
theorem exists_leaf (h : S.Sums L) {depth : Nat} (hdepth : S.leafDepth = some depth) :
    depth = S.levels.length ∧ ∃ v ∈ L depth, v.items? = none := by
  cases h with
  | bare => exact absurd hdepth (by simp)
  | scalars _ hlast _ hsome hall =>
    obtain rfl := Option.some.inj hdepth
    obtain ⟨v, hv⟩ := List.exists_mem_of_ne_nil _ hsome
    obtain ⟨a, rfl⟩ := hall v hv
    exact ⟨hlast, _, hv, rfl⟩
  | records _ hlast _ hfirst =>
    obtain rfl := Option.some.inj hdepth
    exact ⟨hlast, _, List.mem_of_head? hfirst, rfl⟩

/-- **What a shape sums up agrees.** -/
theorem agree (h : S.Sums L) : L.Agree := by
  induction h with
  | bare _ hbare => exact .bare hbare
  | scalars _ _ hleaves _ hall hsample =>
    rcases hsample.isText_or with htext | htext
    · refine .numbers hleaves fun v hv => ?_
      obtain ⟨a, rfl⟩ := hall v hv
      exact ⟨a, rfl, htext a hv⟩
    · refine .texts hleaves fun v hv => ?_
      obtain ⟨a, rfl⟩ := hall v hv
      exact ⟨a, rfl, htext a hv⟩
  | records _ _ hleaves _ hkeys hall _ ih =>
    refine .records hleaves hall fun key hkey => ?_
    obtain ⟨S, hS⟩ := Entries.mem_keys_iff.mp (hkeys ▸ hkey)
    exact ih key S hS

/-- **The shape is settled by what it sums up**, but for the order of fields. -/
theorem reordered (h : S.Sums L) : ∀ {L' : Layers} {S' : Shape}, S'.Sums L' → L.Within L' →
    L'.Within L → S.Reordered S' := by
  induction h with
  | bare hlevels hbare =>
    intro L' S' h' hL hL'
    obtain rfl := hlevels.unique h'.levels hL hL'
    cases hdepth : S'.leafDepth with
    | none =>
      cases h' with
      | bare => exact .refl _
      | scalars | records => exact absurd hdepth (by simp)
    | some depth =>
      obtain ⟨-, w, hw, hleaf⟩ := h'.exists_leaf hdepth
      obtain ⟨v, hv, hwv⟩ := hL' depth w hw
      exact absurd (hwv.items?_eq_none_iff.mp hleaf) (hbare depth v hv)
  | scalars hlevels hdepth hleaves hsome hall hsample =>
    intro L' S' h' hL hL'
    obtain ⟨v, hv⟩ := List.exists_mem_of_ne_nil _ hsome
    obtain ⟨a, rfl⟩ := hall v hv
    have ha := hL.atoms_subset _ hv
    obtain rfl := hlevels.unique h'.levels hL hL'
    rw [(hL.atoms_subset _).antisymm (hL'.atoms_subset _)] at hsample
    cases h' with
    | bare _ hbare => exact absurd rfl (hbare _ _ ha)
    | records _ hdepth' _ _ _ hall' =>
      obtain rfl := hdepth.trans hdepth'.symm
      obtain ⟨entries, heq, -⟩ := hall' _ ha
      exact absurd heq (by simp)
    | scalars _ hdepth' _ _ _ hsample' =>
      obtain rfl := hdepth.trans hdepth'.symm
      obtain rfl := hsample.unique hsample'
      exact .refl _
  | records hlevels hdepth hleaves hfirst hkeys hall hfields ih =>
    intro L' S' h' hL hL'
    obtain ⟨w, hw, hvw⟩ := hL _ _ (List.mem_of_head? hfirst)
    obtain ⟨entries, rfl, hsame, -⟩ := hvw.of_dict
    obtain rfl := hlevels.unique h'.levels hL hL'
    cases h' with
    | bare _ hbare => exact absurd rfl (hbare _ _ hw)
    | scalars _ hdepth' _ _ hall' =>
      obtain rfl := hdepth.trans hdepth'.symm
      obtain ⟨a, heq⟩ := hall' _ hw
      exact absurd heq (by simp)
    | records _ hdepth' _ _ hkeys' hall' hfields' =>
      obtain rfl := hdepth.trans hdepth'.symm
      refine .records (fun key => ?_) fun key S S' hS hS' => ?_
      · obtain ⟨entries', heq, hnames⟩ := hall' _ hw
        obtain rfl := Value.dict.inj heq
        rw [hkeys, hkeys', hsame, hnames]
      · exact ih key S hS (hfields' key S' hS') (Layers.within_column hL key _)
          (Layers.within_column hL' key _)

end Shape.Sums

end Ragged
