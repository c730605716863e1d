import Ragged.Proofs.Shape.Covering
import Ragged.Proofs.Shape.Steps

/-!
# A survey covers what it goes through

A survey that looks at everything adds a value to a shape. Where it succeeds,

> the shape it gives covers the value, at the depth where it was found, and all that was covered
> before.

What has to hold of the shape it starts from is that leaves, if there are any, stand right below the
last level, in the shapes of the fields as well (`Shape.Consistent`), and that the levels above the
depth are there. Entering a container or a leaf keeps this, and refuses what would not. So the proof
is one step lemma for each, and an induction on the value that goes from element to element with
`Shape.Grows`.
-/

set_option autoImplicit false

namespace Ragged

namespace Shape

/-- Leaves stand right below the last level, and so do those of each field. -/
inductive Consistent : Shape → Prop where
  | intro {S : Shape} (leafDepth : ∀ depth, S.leafDepth = some depth → depth = S.levels.length)
      (fields : ∀ fields, S.leaf = .struct fields → ∀ key shape,
        Entries.get? fields key = some shape → Consistent shape) : Consistent S

theorem Consistent.leafDepth {S : Shape} (h : S.Consistent) {depth : Nat}
    (hd : S.leafDepth = some depth) : depth = S.levels.length := by
  cases h with
  | intro h _ => exact h depth hd

theorem Consistent.field {S : Shape} (h : S.Consistent) {fields : List (String × Shape)}
    (hf : S.leaf = .struct fields) {key : String} {shape : Shape}
    (hs : Entries.get? fields key = some shape) : shape.Consistent := by
  cases h with
  | intro _ h => exact h fields hf key shape hs

theorem consistent_empty : empty.Consistent := by
  refine .intro (fun depth h => absurd h (by simp [empty])) fun fields h => ?_
  exact absurd h (by simp [empty])

/-- The second shape is the first with some values added at a depth. -/
structure Grows (S S' : Shape) (depth : Nat) (vs : List Value) : Prop where
  consistent : S'.Consistent
  below : S.Below S'
  covers : ∀ v ∈ vs, S'.Covers depth v

theorem Grows.append {S S₁ S₂ : Shape} {depth : Nat} {vs ws : List Value}
    (h : S.Grows S₁ depth vs) (h' : S₁.Grows S₂ depth ws) : S.Grows S₂ depth (vs ++ ws) where
  consistent := h'.consistent
  below := h.below.trans h'.below
  covers := by
    intro v hv
    rcases List.mem_append.mp hv with hv | hv
    · exact h'.below.covers (h.covers v hv)
    · exact h'.covers v hv

/-! ## Levels -/

section Levels

variable {f : Level → Level}

theorem length_updateLevel (depth : Nat) :
    ∀ levels : List Level, (updateLevel f depth levels).length = max levels.length (depth + 1) := by
  induction depth with
  | zero =>
    intro levels
    cases levels with
    | nil => rfl
    | cons l rest => simp [updateLevel]
  | succ depth ih =>
    intro levels
    cases levels with
    | nil => simp [updateLevel, ih]
    | cons l rest => simp [updateLevel, ih]

/-- The level at that depth changes, or comes in. -/
theorem getElem?_updateLevel_self (depth : Nat) :
    ∀ levels : List Level,
      (updateLevel f depth levels)[depth]? = some (f (levels[depth]?.getD {})) := by
  induction depth with
  | zero => intro levels; cases levels <;> rfl
  | succ depth ih =>
    intro levels
    cases levels with
    | nil => exact ih []
    | cons l rest => exact ih rest

/-- The others stay. -/
theorem getElem?_updateLevel_of_ne {depth : Nat} :
    ∀ {levels : List Level} {i : Nat} {l : Level}, i ≠ depth → levels[i]? = some l →
      (updateLevel f depth levels)[i]? = some l := by
  induction depth with
  | zero =>
    intro levels i l hi hl
    cases levels with
    | nil => exact absurd hl (by simp)
    | cons m rest =>
      cases i with
      | zero => exact absurd rfl hi
      | succ i => exact hl
  | succ depth ih =>
    intro levels i l hi hl
    cases levels with
    | nil => exact absurd hl (by simp)
    | cons m rest =>
      cases i with
      | zero => exact hl
      | succ i => exact ih (by omega) hl

variable {S : Shape} {depth : Nat}

/-- A level changes and no length is forgotten. -/
theorem below_updateLevel (hf : ∀ l n, l.lengths.Includes n → (f l).lengths.Includes n) :
    S.Below { S with levels := updateLevel f depth S.levels } where
  levels := by
    rw [length_updateLevel]
    exact Nat.le_max_left _ _
  saw := by
    rintro i n ⟨l, hl, hn⟩
    by_cases hi : i = depth
    · subst hi
      refine ⟨f l, ?_, hf l n hn⟩
      rw [getElem?_updateLevel_self, hl]
      rfl
    · exact ⟨l, getElem?_updateLevel_of_ne hi hl, hn⟩
  leafDepth := fun _ h => h
  scalars := fun _ h => h
  mappings := (Below.refl S).mappings

theorem consistent_updateLevel (hS : S.Consistent) (hdepth : depth ≤ S.levels.length)
    (hleaf : S.leafDepth ≠ some depth) :
    Consistent { S with levels := updateLevel f depth S.levels } := by
  refine .intro (fun d hd => ?_) fun fields hfields key shape => hS.field hfields
  have hlength := hS.leafDepth hd
  have hne : d ≠ depth := fun h => hleaf (h ▸ hd)
  rw [length_updateLevel]
  omega

theorem depth_lt_updateLevel (f : Level → Level) (depth : Nat) (levels : List Level) :
    depth + 1 ≤ (updateLevel f depth levels).length := by
  rw [length_updateLevel]
  exact Nat.le_max_right _ _

/-- A container is covered if its length was noted and its elements came in below. -/
theorem grows_of_items {S' : Shape} {v : Value} {xs : List Value} (hitems : v.items? = some xs)
    (hkeeps : ∀ l n, l.lengths.Includes n → (f l).lengths.Includes n)
    (hnotes : ∀ l, (f l).lengths.Includes xs.length)
    (h : Grows { S with levels := updateLevel f depth S.levels } S' (depth + 1) xs) :
    S.Grows S' depth [v] where
  consistent := h.consistent
  below := (below_updateLevel hkeeps).trans h.below
  covers := by
    intro w hw
    obtain rfl := List.mem_singleton.mp hw
    refine .items hitems (h.below.saw _ _ ?_) h.covers
    exact ⟨_, getElem?_updateLevel_self depth S.levels, hnotes _⟩

end Levels

/-! ## Containers and leaves -/

section Enter

variable {S S' : Shape} {depth : Nat}

theorem enterContainer_eq_ok {f : Level → Level} (h : S.enterContainer depth f = .ok S') :
    S.leafDepth ≠ some depth ∧ S' = { S with levels := updateLevel f depth S.levels } := by
  simp only [enterContainer] at h
  split at h
  · exact absurd h (by simp)
  · exact ⟨‹_›, (Except.ok.inj h).symm⟩

/-- Leaves come right below the last level, as no level below them can be there already. -/
theorem enterLeaf_eq_ok (hdepth : depth ≤ S.levels.length) (h : S.enterLeaf depth = .ok S') :
    (∀ d, S.leafDepth = some d → d = depth) ∧ depth = S.levels.length ∧
      S' = { S with leafDepth := some depth } := by
  have hhere : ∀ {T : Shape},
      (if depth < S.levels.length then .error (.shape (.leafAmongContainers depth))
        else .ok { S with leafDepth := some depth } : Except BuildError Shape) = .ok T →
      depth = S.levels.length ∧ T = { S with leafDepth := some depth } := by
    intro T hT
    split at hT
    · exact absurd hT (by simp)
    · exact ⟨by omega, (Except.ok.inj hT).symm⟩
  simp only [enterLeaf] at h
  split at h
  · rename_i d hd
    split at h
    · rename_i heq
      exact ⟨fun d' hd' => (Option.some.inj (hd'.symm.trans hd)).trans heq, hhere h⟩
    · exact absurd h (by simp)
  · rename_i hnone
    exact ⟨fun d hd => absurd (hd.symm.trans hnone) (by simp), hhere h⟩

/-- A leaf of any sort comes in, and the sample becomes one that holds it. -/
theorem grows_of_leaf {leaf : LeafSample} {v : Value}
    (honly : ∀ d, S.leafDepth = some d → d = depth) (hdepth : depth = S.levels.length)
    (hfields : ∀ fields, leaf = .struct fields → ∀ key shape,
      Entries.get? fields key = some shape → shape.Consistent)
    (hscalars : ∀ a, S.leaf.Includes a → leaf.Includes a)
    (hmappings : ∀ fields, S.leaf = .struct fields → ∃ fields', leaf = .struct fields' ∧
      (∀ key, key ∈ Entries.keys fields' ↔ key ∈ Entries.keys fields) ∧ FieldsBelow fields fields')
    (hcovers : Covers ⟨S.levels, some depth, leaf⟩ depth v) :
    S.Grows ⟨S.levels, some depth, leaf⟩ depth [v] where
  consistent := .intro (fun _ hd => (Option.some.inj hd).symm.trans hdepth) hfields
  below :=
    { levels := Nat.le_refl _
      saw := fun _ _ h => h
      leafDepth := fun d hd => congrArg some (honly d hd).symm
      scalars := hscalars
      mappings := hmappings }
  covers := fun _ hv => List.mem_singleton.mp hv ▸ hcovers

end Enter

end Shape

/-! ## Going through a value -/

namespace Value

/-- Looking at everything, a survey that finds the value grows the shape by it. -/
def Gathered (v : Value) : Prop :=
  ∀ (depth : Nat) (partly : Bool) (S S' : Shape), S.Consistent → depth ≤ S.levels.length →
    (survey .everything depth partly S v).2 = .ok S' → S.Grows S' depth [v]

theorem grows_of_foldlM {items : List Value} (h : ∀ x ∈ items, x.Gathered) {depth : Nat}
    {partly : Bool} :
    ∀ {S S' : Shape}, S.Consistent → depth ≤ S.levels.length →
      items.foldlM (fun S x => (survey .everything depth partly S x).2) S = .ok S' →
        S.Grows S' depth items := by
  induction items with
  | nil =>
    intro S S' hS _ hok
    obtain rfl := Except.ok.inj hok
    exact ⟨hS, .refl S, fun _ hv => absurd hv List.not_mem_nil⟩
  | cons v rest ih =>
    intro S S' hS hdepth hok
    obtain ⟨hv, hrest⟩ := List.forall_mem_cons.mp h
    obtain ⟨S₁, hfirst, hok⟩ := foldlM_cons_eq_ok.mp hok
    have hv₁ := hv depth partly S S₁ hS hdepth hfirst
    exact hv₁.append (ih hrest hv₁.consistent (Nat.le_trans hdepth hv₁.below.levels) hok)

/-- The shapes of the fields after the values of a mapping were added to them. -/
structure FieldsGrow (fields fields' : List (String × Shape)) (entries : List (String × Value)) :
    Prop where
  consistent : ∀ key shape, Entries.get? fields' key = some shape → shape.Consistent
  below : Shape.FieldsBelow fields fields'
  covers : ∀ e ∈ entries, ∀ shape, Entries.get? fields' e.1 = some shape → shape.Covers 0 e.2
  keys : ∀ key,
    key ∈ Entries.keys fields' ↔ key ∈ Entries.keys entries ∨ key ∈ Entries.keys fields

/-- One value goes to the shape of its field, which comes in if it is new. -/
theorem fieldsGrow_put {fields : List (String × Shape)} {key : String} {shape : Shape} {v : Value}
    (hfields : ∀ key shape, Entries.get? fields key = some shape → shape.Consistent)
    (h : ((Entries.get? fields key).getD Shape.empty).Grows shape 0 [v]) :
    FieldsGrow fields (Entries.put fields key shape) [(key, v)] where
  consistent := by
    intro k shape' hk
    rw [Entries.get?_put] at hk
    split at hk
    · exact Option.some.inj hk ▸ h.consistent
    · exact hfields k shape' hk
  below := by
    intro k shape₀ hk
    rw [Entries.get?_put]
    split
    · rename_i heq
      subst heq
      rw [hk] at h
      exact ⟨shape, rfl, fun _ _ hcovers => h.below.covers hcovers⟩
    · exact ⟨shape₀, hk, fun _ _ hcovers => hcovers⟩
  covers := by
    intro e he shape' hshape'
    obtain rfl := List.mem_singleton.mp he
    rw [Entries.get?_put, if_pos rfl] at hshape'
    exact Option.some.inj hshape' ▸ h.covers v (List.mem_singleton_self v)
  keys := by
    intro k
    rw [Entries.mem_keys_put]
    simp [Entries.keys]

theorem FieldsGrow.append {fields fields₁ fields₂ : List (String × Shape)}
    {entries entries' : List (String × Value)} (h : FieldsGrow fields fields₁ entries)
    (h' : FieldsGrow fields₁ fields₂ entries') :
    FieldsGrow fields fields₂ (entries ++ entries') where
  consistent := h'.consistent
  below := h.below.trans h'.below
  covers := by
    intro e he shape hshape
    rcases List.mem_append.mp he with he | he
    · -- the shape of the field had come in by then, and it only covers more now
      have hmem : e.1 ∈ Entries.keys fields₁ := (h.keys e.1).mpr (.inl (List.mem_map_of_mem he))
      obtain ⟨shape₁, hshape₁⟩ := Entries.mem_keys_iff.mp hmem
      obtain ⟨shape₂, hshape₂, hmore⟩ := h'.below e.1 shape₁ hshape₁
      obtain rfl := Option.some.inj (hshape₂.symm.trans hshape)
      exact hmore 0 e.2 (h.covers e he shape₁ hshape₁)
    · exact h'.covers e he shape hshape
  keys := by
    intro key
    rw [h'.keys, h.keys, Entries.keys, Entries.keys, Entries.keys, Entries.keys, List.map_append,
      List.mem_append]
    exact or_left_comm.trans or_assoc.symm

theorem fieldsGrow_of_foldlM {entries : List (String × Value)}
    (h : ∀ e ∈ entries, e.2.Gathered) :
    ∀ {fields fields' : List (String × Shape)},
      (∀ key shape, Entries.get? fields key = some shape → shape.Consistent) →
      entries.foldlM addField fields = .ok fields' → FieldsGrow fields fields' entries := by
  induction entries with
  | nil =>
    intro fields fields' hfields hok
    obtain rfl := Except.ok.inj hok
    refine ⟨hfields, .refl fields, fun _ he => absurd he List.not_mem_nil, fun key => ?_⟩
    simp [Entries.keys]
  | cons e rest ih =>
    obtain ⟨key, v⟩ := e
    intro fields fields' hfields hok
    obtain ⟨hv, hrest⟩ := List.forall_mem_cons.mp h
    have hbase : ((Entries.get? fields key).getD Shape.empty).Consistent := by
      cases hkey : Entries.get? fields key with
      | none => exact Shape.consistent_empty
      | some shape => exact hfields key shape hkey
    obtain ⟨fields₁, hfirst, hok⟩ := foldlM_cons_eq_ok.mp hok
    obtain ⟨shape, hshape, rfl⟩ := map_eq_ok.mp hfirst
    have hput := fieldsGrow_put hfields (hv 0 false _ shape hbase (Nat.zero_le _) hshape)
    exact hput.append (ih hrest hput.consistent hok)

/-- The fields a mapping goes in with are those that were there, if any were. -/
theorem consistent_of_fieldsFor {S : Shape} {keys : List String} {fields : List (String × Shape)}
    (hS : S.Consistent) (hfor : S.leaf.fieldsFor keys = .ok fields) :
    ∀ key shape, Entries.get? fields key = some shape → shape.Consistent := by
  intro key shape hshape
  rcases LeafSample.fieldsFor_eq_ok hfor with ⟨-, rfl⟩ | ⟨hleaf, -⟩
  · exact absurd hshape (by simp [Entries.get?])
  · exact hS.field hleaf hshape

/-- A mapping is covered when its values came in, each under its key. -/
theorem grows_of_fields {S : Shape} {depth : Nat} {entries : List (String × Value)}
    {fields fields' : List (String × Shape)} (honly : ∀ d, S.leafDepth = some d → d = depth)
    (hdepth : depth = S.levels.length)
    (hfor : S.leaf.fieldsFor (Entries.keys entries) = .ok fields)
    (hgrow : FieldsGrow fields fields' entries) :
    S.Grows ⟨S.levels, some depth, .struct fields'⟩ depth [.dict entries] := by
  have hfor := LeafSample.fieldsFor_eq_ok hfor
  -- the keys are those of the mapping, whether or not there were mappings before
  have hsame : ∀ key, key ∈ Entries.keys entries ↔ key ∈ Entries.keys fields' := by
    intro key
    rw [hgrow.keys]
    rcases hfor with ⟨-, rfl⟩ | ⟨-, hkeys⟩
    · simp [Entries.keys]
    · rw [hkeys, or_self]
  refine Shape.grows_of_leaf honly hdepth (fun known hf => ?_) (fun a ha => ?_)
    (fun known hf => ?_) (.record rfl rfl hsame hgrow.covers)
  · obtain rfl := LeafSample.struct.inj hf
    exact hgrow.consistent
  · rcases hfor with ⟨hleaf, -⟩ | ⟨hleaf, -⟩
    · rw [hleaf] at ha
      exact absurd ha id
    · rw [hleaf] at ha
      exact absurd ha id
  · rcases hfor with ⟨hleaf, -⟩ | ⟨hleaf, hkeys⟩
    · exact absurd (hleaf.symm.trans hf) (by simp)
    · obtain rfl := LeafSample.struct.inj (hleaf.symm.trans hf)
      exact ⟨fields', rfl, fun key => (hsame key).symm.trans (hkeys key), hgrow.below⟩

/-- A scalar is covered when it was joined with the sample. -/
theorem grows_of_join {S : Shape} {depth : Nat} {a : Atom} {leaf : LeafSample}
    (honly : ∀ d, S.leafDepth = some d → d = depth) (hdepth : depth = S.levels.length)
    (hjoin : S.leaf.join a = .ok leaf) :
    S.Grows ⟨S.levels, some depth, leaf⟩ depth [.atom a] := by
  refine Shape.grows_of_leaf honly hdepth (fun fields hf => ?_) (fun b hb => ?_)
    (fun fields hf => ?_) (.atom rfl (LeafSample.includes_of_join hjoin (.inl rfl)))
  · exact absurd hf (LeafSample.ne_struct_of_join hjoin fields).2
  · exact LeafSample.includes_of_join hjoin (.inr hb)
  · exact absurd hf (LeafSample.ne_struct_of_join hjoin fields).1

/-- Of a container the length is noted, and none is forgotten. -/
theorem includes_noteContainer {isLazy partly : Bool} {count n : Nat} {l : Level}
    (h : n = count ∨ l.lengths.Includes n) :
    (noteContainer isLazy count partly l).lengths.Includes n := by
  cases isLazy <;> exact Lengths.includes_observe h

/-- **A survey that looks at everything covers what it goes through.** -/
theorem gathered (v : Value) : v.Gathered := by
  induction v using Value.inductElements with
  | atom a =>
    intro depth partly S S' hS hdepth hok
    rw [survey_atom] at hok
    obtain ⟨S₁, henter, hok⟩ := bind_eq_ok.mp hok
    obtain ⟨honly, hlast, rfl⟩ := Shape.enterLeaf_eq_ok hdepth henter
    obtain ⟨leaf, hjoin, rfl⟩ := map_eq_ok.mp hok
    exact grows_of_join honly hlast hjoin
  | dict entries ih =>
    intro depth partly S S' hS hdepth hok
    rw [survey_dict] at hok
    obtain ⟨S₁, henter, hok⟩ := bind_eq_ok.mp hok
    obtain ⟨honly, hlast, rfl⟩ := Shape.enterLeaf_eq_ok hdepth henter
    obtain ⟨fields, hfor, hok⟩ := bind_eq_ok.mp hok
    obtain ⟨fields', hentries, rfl⟩ := map_eq_ok.mp hok
    have hgrow := fieldsGrow_of_foldlM ih (consistent_of_fieldsFor hS hfor) hentries
    exact grows_of_fields honly hlast hfor hgrow
  | elements v xs hxs ih =>
    intro depth partly S S' hS hdepth hok
    rw [survey_of_items? hxs] at hok
    obtain ⟨S₁, henter, hok⟩ := bind_eq_ok.mp hok
    obtain ⟨hleaf, rfl⟩ := Shape.enterContainer_eq_ok henter
    apply Shape.grows_of_items (f := noteContainer v.isIterator xs.length partly) hxs
      (fun l n hn => includes_noteContainer (.inr hn)) (fun l => includes_noteContainer (.inl rfl))
    exact grows_of_foldlM ih (Shape.consistent_updateLevel hS hdepth hleaf)
      (Shape.depth_lt_updateLevel _ _ _) hok

end Value

end Ragged
