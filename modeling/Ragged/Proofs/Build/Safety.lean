import Ragged.Build
import Ragged.Proofs.Build.RoundTrip
import Ragged.Proofs.Layout.Faults
import Ragged.Proofs.Layout.Table
import Ragged.Proofs.Shape.Covering
import Ragged.Proofs.Shape.Failures

/-!
# No error is about storage

Regions, blocks and the extent table are the program's own, and what goes wrong with them would be a
mistake of its own: a full region, one frozen too early, a block of another form, a number that is in
no table. None of this happens.

> Building fails only for what the value is or the hint says. An array that was built reads back, and
> a field of it is refused only if there is none of that name.

Most of it was found on the way: an error of the write pass is a fault of the value, what was written
is read along every path of its type, and the extent table is used within its bounds. What is left is
that the two stages before writing have no errors of that sort either.
-/

set_option autoImplicit false

namespace Ragged

/-- If the outcome is an error, it is not about storage. -/
def NoStorageError {α : Type} (out : Except BuildError α) : Prop :=
  FailsOnly (fun e => e.category ≠ .storage) out

open FailsOnly (error ok)

/-! ## Finding the shape -/

namespace Value

/-- The lengths of sequences are there unless something is no sequence. -/
theorem noStorageError_lengthsBelow (rank : Nat) (v : Value) :
    ∀ (depth : Nat) (levels : List Level), NoStorageError (lengthsBelow rank depth levels v) := by
  induction v using Value.induction with
  | atom a | dict entries =>
    intro depth levels
    unfold lengthsBelow
    split
    · exact ok levels
    · exact error (by simp [BuildError.category])
  | list items ih | tuple items ih =>
    intro depth levels
    rw [lengthsBelow_sequence rfl rfl]
    split
    · exact ok levels
    · exact FailsOnly.foldlM (fun x hx levels => ih x hx (depth + 1) levels) _
  | iter source =>
    intro depth levels
    unfold lengthsBelow
    split
    · exact ok levels
    · exact ok _

theorem noStorageError_shape (hint : Hint) (v : Value) : NoStorageError (v.shape hint).2 := by
  cases hint with
  | infer => exact (v.nesting_survey 0 false .empty).imp fun _ h => h.category
  | uniform leaf => exact (v.nesting_survey 0 false .empty).imp fun _ h => h.category
  | full t => exact (v.noStorageError_lengthsBelow t.rank 0 []).bind fun levels _ => ok _

end Value

/-! ## Settling the type -/

theorem noStorageError_integerKind (width : IntegerWidth) (lo hi : Int) :
    NoStorageError (integerKind width lo hi) := by
  simp only [integerKind]
  split
  · exact ok _
  · split
    · exact ok _
    · split
      · exact ok _
      · exact error (by simp [BuildError.category])

namespace Shape

section Infer

variable {config : Config}

theorem noStorageError_inferFields {fields : List (String × Shape)}
    (h : ∀ e ∈ fields, NoStorageError (e.2.infer config)) :
    NoStorageError (inferFields config fields) := by
  induction fields with
  | nil => exact ok _
  | cons e rest ih =>
    obtain ⟨he, hrest⟩ := List.forall_mem_cons.mp h
    exact he.bind fun _ _ => (ih hrest).bind fun _ _ => ok _

theorem noStorageError_inferLeaf {leaf : LeafSample}
    (h : ∀ fields, leaf = .struct fields → NoStorageError (inferFields config fields)) :
    NoStorageError (inferLeaf config leaf) := by
  cases leaf with
  | int lo hi => exact (noStorageError_integerKind _ lo hi).bind fun _ _ => ok _
  | struct fields =>
    refine (h fields rfl).bind fun declared _ => ?_
    split
    · exact ok _
    · exact error (by simp [BuildError.category])
  | _ => exact ok _

theorem noStorageError_infer (S : Shape) : NoStorageError (S.infer config) := by
  induction S using Shape.induction with
  | step levels leafDepth leaf ih =>
    have hleaf : NoStorageError (inferLeaf config leaf) :=
      noStorageError_inferLeaf fun fields hfields => noStorageError_inferFields (ih fields hfields)
    exact hleaf.bind fun _ _ => ok _

end Infer

theorem noStorageError_checkLevel (depth : Nat) (l : Level) (d : Dimension) :
    NoStorageError (checkLevel depth l d) := by
  have hwithin : ∀ n lo hi : Nat, NoStorageError
      (if lo < n then .error (.tooFew depth n lo)
        else if n < hi then .error (.tooMany depth n (.exactly hi))
        else .ok () : Except BuildError Unit) := by
    intro n lo hi
    split
    · exact error (by simp [BuildError.category])
    · split
      · exact error (by simp [BuildError.category])
      · exact ok _
  cases d with
  | fixed n =>
    simp only [checkLevel]
    split
    · exact ok _
    · exact hwithin n _ _
    · exact hwithin n _ _
  | strided =>
    simp only [checkLevel]
    split
    · exact error (by simp [BuildError.category])
    · split
      · exact error (by simp [BuildError.category])
      · exact ok _
  | var => exact ok _

theorem noStorageError_checkLevels (levels : List Level) :
    ∀ (depth : Nat) (dims : List Dimension), NoStorageError (checkLevels depth levels dims) := by
  induction levels with
  | nil => intro depth dims; cases dims <;> exact ok _
  | cons l levels ih =>
    intro depth dims
    cases dims with
    | nil => exact ok _
    | cons d dims => exact (noStorageError_checkLevel depth l d).bind fun _ _ => ih (depth + 1) dims

theorem noStorageError_resolve (S : Shape) (hint : Hint) (config : Config) :
    NoStorageError (S.resolve hint config) := by
  cases hint with
  | infer => exact noStorageError_infer S
  | uniform leaf => exact ok _
  | full t => exact (noStorageError_checkLevels S.levels 0 t.dims).bind fun _ _ => ok _

end Shape

/-! ## Writing and reading -/

theorem ArrayType.noStorageError_write (t : ArrayType) (growth : GrowthPolicy) (v : Value) :
    NoStorageError (t.write growth v).2 := by
  intro e h
  obtain ⟨t', free, w, hfault⟩ := (faults_of_write h).exists
  exact hfault.category

theorem noStorageError_build (config : Config) (hint : Hint) (v : Value) :
    NoStorageError (build config hint v).2 := by
  unfold build
  have hshape := v.noStorageError_shape hint
  cases hS : v.shape hint with
  | mk w outcome =>
    rw [hS] at hshape
    cases outcome with
    | error e => exact error (hshape e rfl)
    | ok S =>
      have hresolve := S.noStorageError_resolve hint config
      simp only
      cases ht : S.resolve hint config with
      | error e => exact error (hresolve e ht)
      | ok t => exact (t.noStorageError_write config.growth w).map _

/-- What was written from a value is read along the names of fields, if there are such fields. -/
theorem ArrayType.Written.field {t : ArrayType} {v : Value} {c : Contents} (h : t.Written v c)
    (path : String) :
    (∃ w, (PackedArray.mk t c).field path = .ok w) ∨
      ∃ name owner, (PackedArray.mk t c).field path = .error (.noSuchField name owner) := by
  unfold PackedArray.field
  cases hlocate : t.locate (PackedArray.names path) with
  | error e =>
    obtain ⟨name, owner, rfl⟩ := locate_eq_error hlocate
    exact .inr ⟨name, owner, rfl⟩
  | ok r =>
    obtain ⟨indices, type⟩ := r
    obtain ⟨w, hread, -⟩ := h.read (hasPath_of_locate hlocate)
    exact .inl ⟨w.along indices, hread⟩

/-- **No error is about storage**, in building and in reading, and at any type the extent table is
used within its bounds: its slots are those of the layout, and what would stand behind it is neither
looked at nor changed. -/
theorem storage_is_safe (config : Config) (hint : Hint) (v : Value) :
    NoStorageError (build config hint v).2 ∧
      (∀ a, (build config hint v).2 = .ok a → (∃ w, a.toValue = .ok w) ∧
        ∀ path, (∃ w, a.field path = .ok w) ∨
          ∃ name owner, a.field path = .error (.noSuchField name owner)) ∧
      ∀ (t : ArrayType) (growth : GrowthPolicy),
        NoStorageError (t.write growth v).2 ∧
        (∀ c, (t.write growth v).2 = .ok c → c.extents.size = t.slots) ∧
        t.layout.slotNumbers = List.range t.slots ∧
        ∀ (s : Store) (more : Array (Option Nat)), s.extents.size = t.slots →
          (∀ sizing, t.layout.allocate (s.extend more) sizing =
            ((t.layout.allocate s sizing).1.extend more, (t.layout.allocate s sizing).2)) ∧
          ∀ b, t.layout.write v (s.extend more) b =
            ((t.layout.write v s b).1, Store.extendIn more (t.layout.write v s b).2) := by
  refine ⟨noStorageError_build config hint v, fun a ha => ?_, fun t growth => ?_⟩
  · obtain ⟨S, -, -, hwrite⟩ := build_eq_ok_iff.mp ha
    have hwritten := ArrayType.written_of_write hwrite
    obtain ⟨w, hread, -⟩ := @ArrayType.Written.read _ _ _ hwritten [] trivial
    exact ⟨⟨w.along [], hread⟩, hwritten.field⟩
  · have hslots : t.layout.slotNumbers = List.range t.slots := by
      rw [ArrayType.layout_eq, ArrayType.slotNumbers_layoutFrom, ArrayType.slots_eq,
        List.range_eq_range']
    refine ⟨t.noStorageError_write growth v, fun c hc => (ArrayType.regions_of_write hc).1, hslots,
      fun s more hsize => ?_⟩
    -- all slots of the layout are below the end of the table
    have hs : t.layout.InTable s := by
      intro slot hslot
      rw [hslots] at hslot
      rw [hsize]
      exact List.mem_range.mp hslot
    refine ⟨Layout.allocate_extend hs, fun b => ?_⟩
    rw [Layout.write_eq_writeFrom]
    exact t.layout.within_writeFrom 0 v s b hs

/-- Fields of one name, of which the last is read, and a source in place of one of the records. -/
example : (build {} (.full ⟨[.var], .struct [⟨"a", ⟨[], .scalar .int8⟩⟩, ⟨"a", ⟨[], .scalar .bool⟩⟩]⟩)
    (.list [.tuple [.ofInt 1, .ofBool true],
      .iter (.ofSupply 0 (.ofList [.ofInt 2, .ofBool false]))])).2.bind
      (fun a => a.toValue.map fun w => w.same (.list [.dict [("a", .ofBool true)],
        .dict [("a", .ofBool false)]])) = .ok true := by
  decide +kernel

end Ragged
