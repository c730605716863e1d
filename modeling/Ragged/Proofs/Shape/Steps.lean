import Ragged.Proofs.Except
import Ragged.Proofs.Value.Drained

/-!
# A survey step by step

A survey hands the value back beside the shape, in the order in which it went through it, and so it
keeps what it passed. For the shape alone none of this matters. It is that of a fold:

> a container is noted, and then its elements are gone through from the first to the last. Looking at
> everything, it is the same for those of a sequence and those of a source; otherwise a source has no
> more than its first element.

Each way a survey goes on is one equation here, in terms of `Value.items?` where it does not matter
what the container is.
-/

set_option autoImplicit false

namespace Ragged

/-- Two changes of one level are one. -/
theorem Shape.updateLevel_updateLevel {f g : Level → Level} (depth : Nat) :
    ∀ levels : List Level, updateLevel g depth (updateLevel f depth levels) =
      updateLevel (fun l => g (f l)) depth levels := by
  induction depth with
  | zero => intro levels; cases levels <;> rfl
  | succ depth ih =>
    intro levels
    cases levels with
    | nil => simp [updateLevel, ih]
    | cons l rest => simp [updateLevel, ih]

namespace Value

/-! ## One value after the other -/

theorem surveyItems_snd (sight : Sight) (depth : Nat) (partly : Bool) (items : List Value) :
    ∀ (S : Shape) (done : List Value), (surveyItems sight depth partly S done items).2 =
      items.foldlM (fun S x => (survey sight depth partly S x).2) S := by
  induction items with
  | nil =>
    intro S done
    rw [surveyItems]
    rfl
  | cons v rest ih =>
    intro S done
    rw [surveyItems, List.foldlM_cons]
    cases survey sight depth partly S v with
    | mk w outcome => cases outcome with
      | error e => rfl
      | ok S => exact ih S (w :: done)

/-- The shapes of the fields with one more entry of a mapping. -/
def addField (fields : List (String × Shape)) (e : String × Value) :
    Except BuildError (List (String × Shape)) :=
  (survey .everything 0 false ((Entries.get? fields e.1).getD Shape.empty) e.2).2.map
    (Entries.put fields e.1)

theorem surveyEntries_snd (entries : List (String × Value)) :
    ∀ (fields : List (String × Shape)) (done : List (String × Value)),
      (surveyEntries .everything fields done entries).2 = entries.foldlM addField fields := by
  induction entries with
  | nil =>
    intro fields done
    rw [surveyEntries]
    rfl
  | cons e rest ih =>
    obtain ⟨key, v⟩ := e
    intro fields done
    rw [surveyEntries, List.foldlM_cons, addField]
    cases survey .everything 0 false ((Entries.get? fields key).getD Shape.empty) v with
    | mk w outcome => cases outcome with
      | error e => rfl
      | ok shape => exact ih (Entries.put fields key shape) ((key, w) :: done)

/-! ## Sequences -/

theorem survey_list (sight : Sight) (depth : Nat) (partly : Bool) (S : Shape)
    (items : List Value) : (survey sight depth partly S (.list items)).2 =
      if sight.isRecord false items then S.enterLeaf depth
      else (S.enterContainer depth (noteSequence items.length partly)).bind fun S =>
        items.foldlM (fun S x => (survey sight (depth + 1) partly S x).2) S := by
  rw [survey]
  split
  · rfl
  · cases S.enterContainer depth (noteSequence items.length partly) with
    | error e => rfl
    | ok S => exact surveyItems_snd _ _ _ _ _ _

theorem survey_tuple (sight : Sight) (depth : Nat) (partly : Bool) (S : Shape)
    (items : List Value) : (survey sight depth partly S (.tuple items)).2 =
      if sight.isRecord true items then S.enterLeaf depth
      else (S.enterContainer depth (noteSequence items.length partly)).bind fun S =>
        items.foldlM (fun S x => (survey sight (depth + 1) partly S x).2) S := by
  rw [survey]
  split
  · rfl
  · cases S.enterContainer depth (noteSequence items.length partly) with
    | error e => rfl
    | ok S => exact surveyItems_snd _ _ _ _ _ _

/-- A sequence may be a record, and then it is a leaf. -/
theorem survey_sequence (sight : Sight) (depth : Nat) (partly : Bool) (S : Shape) {v : Value}
    {xs : List Value} (hv : v.isIterator = false) (hxs : v.items? = some xs) :
    ∃ isTuple, (survey sight depth partly S v).2 =
      if sight.isRecord isTuple xs then S.enterLeaf depth
      else (S.enterContainer depth (noteSequence xs.length partly)).bind fun S =>
        xs.foldlM (fun S x => (survey sight (depth + 1) partly S x).2) S := by
  cases v with
  | atom a => exact absurd hxs (by simp [items?])
  | dict entries => exact absurd hxs (by simp [items?])
  | iter source => exact absurd hv (by simp [isIterator])
  | list items =>
    obtain rfl := Option.some.inj hxs
    exact ⟨false, survey_list _ _ _ _ _⟩
  | tuple items =>
    obtain rfl := Option.some.inj hxs
    exact ⟨true, survey_tuple _ _ _ _ _⟩

/-! ## Looking at everything -/

section Steps

variable {depth : Nat} {partly : Bool} {S : Shape}

/-- What is noted of a lazy source all in all, when its elements are known. -/
def noteSource (count : Nat) (partly : Bool) (l : Level) : Level :=
  { noteIterator partly l with lengths := l.lengths.observe count }

/-- What is noted of a container all in all. -/
def noteContainer (isLazy : Bool) (count : Nat) (partly : Bool) : Level → Level :=
  if isLazy then noteSource count partly else noteSequence count partly

theorem survey_dict (entries : List (String × Value)) :
    (survey .everything depth partly S (.dict entries)).2 =
      (S.enterLeaf depth).bind fun S => (S.leaf.fieldsFor (Entries.keys entries)).bind fun fields =>
        (entries.foldlM addField fields).map fun fields => { S with leaf := .struct fields } := by
  rw [survey]
  cases S.enterLeaf depth with
  | error e => rfl
  | ok S =>
    simp only [Except.bind]
    cases S.leaf.fieldsFor (Entries.keys entries) with
    | error e => rfl
    | ok fields =>
      show Except.map _ (surveyEntries _ fields [] entries).2 = Except.map _ _
      rw [surveyEntries_snd]

/-- Of a source the queue is gone through first, and what is pending only if that went well. -/
theorem survey_source_everything (source : Pull Value) :
    (survey .everything depth partly S (.iter source)).2 =
      (S.enterContainer depth (noteSource source.remaining.length partly)).bind fun S =>
        source.remaining.foldlM (fun S x => (survey .everything (depth + 1) partly S x).2) S := by
  obtain ⟨label, taken, replay, source, pulled⟩ := source
  have hcount : (Pull.mk label taken replay source pulled).remaining.length =
      replay.length + (source.getD .nil).toList.length := List.length_append ..
  rw [hcount]
  by_cases hleaf : S.leafDepth = some depth
  · have henter : ∀ f, S.enterContainer depth f = .error (.shape (.containerAmongLeaves depth)) :=
      fun f => if_pos hleaf
    rw [survey, henter, henter]
    rfl
  · have henter : ∀ f, S.enterContainer depth f =
        .ok { S with levels := Shape.updateLevel f depth S.levels } := fun f => if_neg hleaf
    rw [henter]
    show _ = (replay ++ (source.getD .nil).toList).foldlM _ _
    rw [List.foldlM_append, ← surveyItems_snd _ _ _ replay _ [], survey, henter]
    -- that it is a source is noted before its elements are counted
    have hnoted : Shape.updateLevel (fun l => { l with
        lengths := l.lengths.observe (replay.length + (source.getD .nil).toList.length) }) depth
        (Shape.updateLevel (noteIterator partly) depth S.levels) =
      Shape.updateLevel (noteSource (replay.length + (source.getD .nil).toList.length) partly)
        depth S.levels := Shape.updateLevel_updateLevel depth S.levels
    simp only [surveySource_eq, hnoted]
    generalize Shape.mk (Shape.updateLevel (noteSource _ partly) depth S.levels) _ _ = S₁
    cases surveyItems .everything (depth + 1) partly S₁ [] replay with
    | mk front outcome => cases outcome with
      | error e => rfl
      | ok S₂ => exact surveyItems_snd _ _ _ _ S₂ []

/-- A container is noted and its elements are gone through, wherever they come from. -/
theorem survey_of_items? {v : Value} {xs : List Value} (h : v.items? = some xs) :
    (survey .everything depth partly S v).2 =
      (S.enterContainer depth (noteContainer v.isIterator xs.length partly)).bind fun S =>
        xs.foldlM (fun S x => (survey .everything (depth + 1) partly S x).2) S := by
  cases hv : v.isIterator with
  | false =>
    obtain ⟨isTuple, hs⟩ := survey_sequence .everything depth partly S hv h
    rw [hs, if_neg (by exact Bool.false_ne_true)]
    rfl
  | true =>
    obtain ⟨source, rfl⟩ := exists_source hv
    obtain rfl := Option.some.inj h
    exact survey_source_everything source

/-! ## Looking at first elements -/

/-- Leaves are not looked at. -/
theorem survey_leaf_firstOnly {records : Bool} {v : Value} (hv : v.items? = none) :
    (survey (.firstOnly records) depth partly S v).2 = S.enterLeaf depth := by
  cases v with
  | atom a =>
    rw [survey]
    cases S.enterLeaf depth <;> rfl
  | dict entries =>
    rw [survey]
    cases S.enterLeaf depth <;> rfl
  | _ => exact absurd hv (by simp [items?])

/-- Of a source the first element is gone through, if there is one. -/
theorem survey_source_firstOnly {records : Bool} {v : Value} {xs : List Value}
    (hv : v.isIterator = true) (hxs : v.items? = some xs) :
    (survey (.firstOnly records) depth partly S v).2 =
      (S.enterContainer depth (noteIterator partly)).bind fun S =>
        match xs with
        | [] => .ok S
        | x :: _ => (survey (.firstOnly records) (depth + 1) true S x).2 := by
  obtain ⟨source, rfl⟩ := exists_source hv
  obtain rfl := Option.some.inj hxs
  obtain ⟨label, taken, replay, source, pulled⟩ := source
  rw [survey]
  cases S.enterContainer depth (noteIterator partly) with
  | error e => rfl
  | ok S =>
    cases replay with
    | cons first rest => rfl
    | nil =>
      cases source with
      | none => rfl
      | some pending => cases pending with
        | nil => rfl
        | cons first rest => simp [Pull.remaining, Pull.pending, Except.bind]

end Steps

/-! ## Gathering lengths -/

section Lengths

variable {rank : Nat}

theorem lengthsBelowItems_eq_foldlM (depth : Nat) (items : List Value) :
    ∀ levels : List Level, lengthsBelowItems rank depth levels items =
      items.foldlM (fun levels x => lengthsBelow rank depth levels x) levels := by
  induction items with
  | nil => exact fun _ => rfl
  | cons x rest ih =>
    intro levels
    rw [lengthsBelowItems, List.foldlM_cons]
    cases lengthsBelow rank depth levels x with
    | error e => rfl
    | ok levels => exact ih levels

/-- A sequence above the leaves is noted, and its elements are gone through. -/
theorem lengthsBelow_sequence {v : Value} {xs : List Value} (hv : v.isIterator = false)
    (hxs : v.items? = some xs) (depth : Nat) (levels : List Level) :
    lengthsBelow rank depth levels v = if depth = rank then .ok levels else
      xs.foldlM (fun levels x => lengthsBelow rank (depth + 1) levels x)
        (Shape.updateLevel (noteSequence xs.length false) depth levels) := by
  cases v with
  | atom a => exact absurd hxs (by simp [items?])
  | dict entries => exact absurd hxs (by simp [items?])
  | iter source => exact absurd hv (by simp [isIterator])
  | list items | tuple items =>
    obtain rfl := Option.some.inj hxs
    rw [lengthsBelow, lengthsBelowItems_eq_foldlM]

end Lengths

end Value

end Ragged
