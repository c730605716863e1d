import Ragged.Proofs.Shape.Covering
import Ragged.Proofs.Shape.Steps
import Ragged.Proofs.Type.Loosening
import Ragged.Proofs.Value.Listed
import Ragged.Shape.Resolve

/-!
# The shape of a listed value

A survey that looks at everything treats a lazy source as the list of what it has left, and notes
besides that it was lazy. So it can be run on a value or on its listed form:

> the survey of the listed value ends as that of the value does, with the same error or with the
> same shape, but for the notes of lazy sources.

`Shape.listed` is a shape without these notes. The notes are nowhere read by the survey itself, so
every step of it commutes with `Shape.listed`, and that is one lemma for each step. Where they are
read is in making dimensions of levels: a level with a lazy source becomes one of any lengths, and so

> the type inferred from a shape loosens the one inferred without the notes.
-/

set_option autoImplicit false

namespace Ragged

/-! ## Shapes without notes of lazy sources -/

def Level.listed (l : Level) : Level := { l with fromIterator := false }

mutual

/-- The shape as it is when no container is a lazy source. -/
def Shape.listed : Shape → Shape
  | ⟨levels, leafDepth, leaf⟩ => ⟨levels.map Level.listed, leafDepth, leaf.listed⟩

def LeafSample.listed : LeafSample → LeafSample
  | .struct fields => .struct (Shape.listedFields fields)
  | s => s

def Shape.listedFields : List (String × Shape) → List (String × Shape)
  | [] => []
  | (key, shape) :: rest => (key, shape.listed) :: Shape.listedFields rest

end

theorem Shape.listedFields_eq (fields : List (String × Shape)) :
    listedFields fields = fields.map fun e => (e.1, e.2.listed) := by
  induction fields with
  | nil => rfl
  | cons e rest ih => rw [listedFields, ih, List.map_cons]

theorem Shape.keys_listedFields (fields : List (String × Shape)) :
    Entries.keys (listedFields fields) = Entries.keys fields := by
  rw [listedFields_eq, Entries.keys_map]

theorem Shape.get?_listedFields (fields : List (String × Shape)) (key : String) :
    Entries.get? (listedFields fields) key = (Entries.get? fields key).map listed := by
  rw [listedFields_eq, Entries.get?_map]

theorem Shape.put_listedFields (fields : List (String × Shape)) (key : String) (shape : Shape) :
    Entries.put (listedFields fields) key shape.listed =
      listedFields (Entries.put fields key shape) := by
  induction fields with
  | nil => rfl
  | cons e rest ih =>
    obtain ⟨k, S⟩ := e
    simp only [listedFields, Entries.put]
    by_cases hk : k = key
    · rw [if_pos hk, if_pos hk, listedFields]
    · rw [if_neg hk, if_neg hk, listedFields, ih]

namespace Shape

variable {S : Shape} {depth : Nat}

/-! ## One step of a survey -/

theorem updateLevel_listed {f g : Level → Level} (h : ∀ l, (f l).listed = g l.listed) (depth : Nat) :
    ∀ levels : List Level,
      (updateLevel f depth levels).map Level.listed =
        updateLevel g depth (levels.map Level.listed) := by
  induction depth with
  | zero =>
    intro levels
    cases levels with
    | nil => exact congrArg (· :: []) (h {})
    | cons l rest => exact congrArg (· :: rest.map Level.listed) (h l)
  | succ depth ih =>
    intro levels
    cases levels with
    | nil => exact congrArg (({} : Level) :: ·) (ih [])
    | cons l rest => exact congrArg (l.listed :: ·) (ih rest)

@[simp] theorem levels_listed : S.listed.levels = S.levels.map Level.listed := by
  cases S
  rfl

@[simp] theorem leafDepth_listed : S.listed.leafDepth = S.leafDepth := by
  cases S
  rfl

@[simp] theorem leaf_listed : S.listed.leaf = S.leaf.listed := by
  cases S
  rfl

theorem enterContainer_listed {f g : Level → Level} (h : ∀ l, (f l).listed = g l.listed) :
    (S.enterContainer depth f).map listed = S.listed.enterContainer depth g := by
  simp only [enterContainer, leafDepth_listed, leaf_listed, levels_listed, ← updateLevel_listed h]
  split
  · rfl
  · rfl

theorem enterLeaf_listed : (S.enterLeaf depth).map listed = S.listed.enterLeaf depth := by
  have hhere : (if depth < S.levels.length then .error (.shape (.leafAmongContainers depth))
        else .ok { S with leafDepth := some depth } : Except BuildError Shape).map listed =
      if depth < S.levels.length then .error (.shape (.leafAmongContainers depth))
        else .ok ⟨S.levels.map Level.listed, some depth, S.leaf.listed⟩ := by
    split
    · rfl
    · rfl
  simp only [enterLeaf, leafDepth_listed, levels_listed, leaf_listed, List.length_map]
  split
  · split
    · exact hhere
    · rfl
  · exact hhere

end Shape

namespace LeafSample

theorem join_listed (s : LeafSample) (a : Atom) : (s.join a).map listed = s.listed.join a := by
  cases s with
  | struct fields => cases a <;> rfl
  | _ => cases a <;> rfl

theorem fieldsFor_listed (s : LeafSample) (keys : List String) :
    (s.fieldsFor keys).map Shape.listedFields = s.listed.fieldsFor keys := by
  cases s with
  | struct fields =>
    simp only [listed, fieldsFor, renderKeys, Shape.keys_listedFields, Shape.get?_listedFields,
      Option.isNone_map]
    split
    · rfl
    · split <;> rfl
  | _ => rfl

end LeafSample

/-! ## A survey -/

namespace Value

theorem noteContainer_listed (isLazy : Bool) (count : Nat) (partly : Bool) (l : Level) :
    (noteContainer isLazy count partly l).listed = noteSequence count partly l.listed := by
  cases isLazy <;> rfl

section Everything

variable {depth : Nat} {partly : Bool} {S : Shape}

theorem addField_listed {e : String × Value} (h : ∀ depth partly S,
      (survey .everything depth partly S e.2).2.map Shape.listed =
        (survey .everything depth partly S.listed e.2.listed).2) {fields : List (String × Shape)} :
    (addField fields e).map Shape.listedFields =
      addField (Shape.listedFields fields) (e.1, e.2.listed) := by
  have hbase : ((Entries.get? fields e.1).getD Shape.empty).listed =
      (Entries.get? (Shape.listedFields fields) e.1).getD Shape.empty := by
    rw [Shape.get?_listedFields]
    cases Entries.get? fields e.1 with
    | none => rfl
    | some S => rfl
  unfold addField
  rw [← hbase, ← h]
  cases (survey .everything 0 false ((Entries.get? fields e.1).getD Shape.empty) e.2).2 with
  | error e => rfl
  | ok S => exact congrArg Except.ok (Shape.put_listedFields fields e.1 S).symm

/-- **The survey of a listed value ends as that of the value does**, but for the notes of lazy
sources. -/
theorem survey_listed (v : Value) :
    ∀ (depth : Nat) (partly : Bool) (S : Shape),
      (survey .everything depth partly S v).2.map Shape.listed =
        (survey .everything depth partly S.listed v.listed).2 := by
  induction v using Value.inductElements with
  | atom a =>
    intro depth partly S
    rw [listed, survey_atom, survey_atom, ← Shape.enterLeaf_listed]
    cases S.enterLeaf depth with
    | error e => rfl
    | ok S =>
      show ((S.leaf.join a).map _).map _ = (S.listed.leaf.join a).map _
      rw [Shape.leaf_listed, ← LeafSample.join_listed]
      cases S.leaf.join a with
      | error e => rfl
      | ok leaf => cases S; rfl
  | dict entries ih =>
    intro depth partly S
    rw [listed_dict, survey_dict, survey_dict, ← Shape.enterLeaf_listed]
    cases S.enterLeaf depth with
    | error e => rfl
    | ok S =>
      show ((S.leaf.fieldsFor _).bind _).map _ = (S.listed.leaf.fieldsFor _).bind _
      -- the keys decide which fields go on, and they stay as they are
      rw [Shape.leaf_listed, Entries.keys_map, ← LeafSample.fieldsFor_listed]
      cases S.leaf.fieldsFor (Entries.keys entries) with
      | error e => rfl
      | ok fields =>
        show Except.map _ (Except.map _ (entries.foldlM addField fields)) =
          Except.map _ ((entries.map _).foldlM addField (Shape.listedFields fields))
        have hfold : (entries.foldlM addField fields).map Shape.listedFields =
            (entries.map fun e => (e.1, e.2.listed)).foldlM addField (Shape.listedFields fields) :=
          map_foldlM (fun e he _ => addField_listed (ih e he)) fields
        rw [← hfold]
        cases entries.foldlM addField fields with
        | error e => rfl
        | ok fields => cases S; rfl
  | elements v xs hxs ih =>
    intro depth partly S
    have hlisted : v.listed.items? = some (xs.map listed) := by
      rw [preserves_listed.items?, hxs]
      rfl
    rw [survey_of_items? hxs, survey_of_items? hlisted, isIterator_listed, List.length_map]
    show _ = (S.listed.enterContainer depth (noteSequence xs.length partly)).bind _
    rw [← Shape.enterContainer_listed (noteContainer_listed v.isIterator xs.length partly)]
    cases S.enterContainer depth (noteContainer v.isIterator xs.length partly) with
    | error e => rfl
    | ok S => exact map_foldlM (fun x hx S => ih x hx (depth + 1) partly S) S

end Everything

end Value

/-! ## The type inferred -/

/-- Without the note of a lazy source a level may become a dimension of fixed extent. -/
theorem Level.loosens_dimension (l : Level) : l.dimension.Loosens l.listed.dimension := by
  obtain ⟨lengths, fromIterator, partly⟩ := l
  cases partly with
  | true => cases fromIterator <;> exact .inl rfl
  | false =>
    cases fromIterator with
    | false => exact .inl rfl
    | true =>
      cases lengths with
      | unseen => exact .inr ⟨rfl, 0, rfl⟩
      | all n => exact .inr ⟨rfl, n, rfl⟩
      | between lo hi => exact .inl rfl

namespace Shape

theorem loosens_dimensions (levels : List Level) (leafDepth : Option Nat) (leaf : LeafSample) :
    List.Forall₂ Dimension.Loosens (dimensions ⟨levels, leafDepth, leaf⟩)
      (dimensions ⟨levels.map Level.listed, leafDepth, leaf⟩) := by
  have hlisted : dimensions ⟨levels.map Level.listed, leafDepth, leaf⟩ =
      (((levels ++ List.replicate (rank ⟨levels, leafDepth, leaf⟩ - levels.length)
        ({} : Level)).take (rank ⟨levels, leafDepth, leaf⟩)).map Level.listed).map
          Level.dimension := by
    simp [dimensions, rank, List.map_take, Level.listed]
  rw [hlisted, dimensions, List.map_map, List.forall₂_map_left_iff, List.forall₂_map_right_iff,
    List.forall₂_same]
  exact fun l _ => l.loosens_dimension

section Infer

variable {config : Config}

theorem inferFields_listed {fields : List (String × Shape)}
    (h : ∀ e ∈ fields, Alike ArrayType.Loosens (e.2.infer config) (e.2.listed.infer config)) :
    Alike Struct.Loosen (inferFields config fields) (inferFields config (listedFields fields)) := by
  induction fields with
  | nil => exact trivial
  | cons e rest ih =>
    obtain ⟨he, hrest⟩ := List.forall_mem_cons.mp h
    exact he.bind fun _ _ ht => (ih hrest).bind fun _ _ h => ⟨rfl, ht, h⟩

/-- Of leaves only the fields of mappings can have other types. -/
theorem inferLeaf_listed {leaf : LeafSample}
    (h : ∀ fields, leaf = .struct fields →
      Alike Struct.Loosen (inferFields config fields) (inferFields config (listedFields fields))) :
    Alike LeafType.Loosens (inferLeaf config leaf) (inferLeaf config leaf.listed) := by
  cases leaf with
  | nothing => exact (ArrayType.Loosens.refl ⟨[], config.defaultLeaf⟩).2
  | int lo hi =>
    show Alike _ (integerKind _ lo hi >>= _) (integerKind _ lo hi >>= _)
    cases integerKind config.integerWidth lo hi with
    | error e => rfl
    | ok k => exact rfl
  | struct fields =>
    refine (h fields rfl).bind fun declared declared' h => ?_
    have hnames := Struct.names_of_forall₂ (Struct.loosen_iff.mp h)
    -- whether a name comes twice is the same for both
    simp only [Struct.ofFields, hnames]
    cases Struct.firstRepeat [] (Struct.names declared') with
    | some name => exact rfl
    | none => exact h
  | bool | float | complex | text => exact rfl

end Infer

/-- **The type inferred from a shape loosens the one inferred without the notes of lazy sources.** -/
theorem infer_listed (config : Config) (S : Shape) :
    Alike ArrayType.Loosens (S.infer config) (S.listed.infer config) := by
  induction S using Shape.induction with
  | step levels leafDepth leaf ih =>
    have hleaf : Alike LeafType.Loosens (inferLeaf config leaf) (inferLeaf config leaf.listed) :=
      inferLeaf_listed fun fields hfields => inferFields_listed (ih fields hfields)
    exact hleaf.bind fun _ _ h => ⟨loosens_dimensions levels leafDepth .nothing, h⟩

end Shape

end Ragged
