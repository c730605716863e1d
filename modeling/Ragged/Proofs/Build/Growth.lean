import Ragged.Proofs.Build.Rebuilding
import Ragged.Proofs.Layout.Filling
import Ragged.Proofs.Layout.Growth
import Ragged.Proofs.Shape.Covering

/-!
# Growth does not show in the array

A configuration says which leaf stands in for one that was not seen, how wide integers are at least
and how regions grow. The first two settle the inferred type and are asked for nothing else; the last
is asked for by the arena only. Hence

> two configurations build the same array, or are refused with the same error, if they agree on what
> inference asks for or nothing is inferred; all that may differ is how often regions were moved.

The type is the same because it is settled the same way. The regions resemble each other, and when an
array is finished all are frozen, so that no capacity is left that could differ.
-/

set_option autoImplicit false

namespace Ragged

/-- The arrays are the same in all that can be seen of them but the number of reallocations. -/
structure PackedArray.SameButGrowth (a a' : PackedArray) : Prop where
  type : a.type = a'.type
  extents : a.extents = a'.extents
  root : a.contents.root = a'.contents.root
  regions : a.contents.arena.regions = a'.contents.arena.regions
  slots : a.contents.extents = a'.contents.extents
  stats : { a.stats with reallocations := 0 } = { a'.stats with reallocations := 0 }
  value : a.toValue = a'.toValue
  field : ∀ path, a.field path = a'.field path
  fieldType : ∀ path, a.fieldType path = a'.fieldType path

/-! ## What inference asks for -/

namespace Shape

variable {config config' : Config}

theorem inferFields_congr {fields : List (String × Shape)}
    (h : ∀ e ∈ fields, e.2.infer config = e.2.infer config') :
    inferFields config fields = inferFields config' fields := by
  induction fields with
  | nil => rfl
  | cons e rest ih =>
    obtain ⟨he, hrest⟩ := List.forall_mem_cons.mp h
    rw [inferFields, inferFields, he, ih hrest]

theorem infer_congr (hleaf : config.defaultLeaf = config'.defaultLeaf)
    (hwidth : config.integerWidth = config'.integerWidth) (S : Shape) :
    S.infer config = S.infer config' := by
  induction S using Shape.induction with
  | step levels leafDepth leaf ih =>
    have hinfer : inferLeaf config leaf = inferLeaf config' leaf := by
      cases leaf with
      | nothing => exact congrArg Except.ok hleaf
      | int lo hi => simp only [inferLeaf, hwidth]
      | struct fields => simp only [inferLeaf, inferFields_congr (ih fields rfl)]
      | bool | float | complex | text => rfl
    simp only [infer, hinfer]

/-- A type is settled without the configuration, unless it is inferred. -/
theorem resolve_congr {hint : Hint} (S : Shape) (h : hint = .infer →
      config.defaultLeaf = config'.defaultLeaf ∧ config.integerWidth = config'.integerWidth) :
    S.resolve hint config = S.resolve hint config' := by
  cases hint with
  | infer =>
    obtain ⟨hleaf, hwidth⟩ := h rfl
    exact S.infer_congr hleaf hwidth
  | full t => rfl
  | uniform leaf => rfl

end Shape

/-! ## Whole arrays -/

/-- The contents differ at most in how regions grew. -/
structure Contents.Resembles (c c' : Contents) : Prop where
  root : c.root = c'.root
  arena : c.arena.Resembles c'.arena
  extents : c.extents = c'.extents

/-- Both writes start from nothing, with different policies. -/
theorem ArrayType.write_resembles (t : ArrayType) (growth growth' : GrowthPolicy) (v : Value) :
    (t.write growth v).1 = (t.write growth' v).1 ∧
      Alike Contents.Resembles (t.write growth v).2 (t.write growth' v).2 := by
  have hempty : Store.Resembles ⟨{ policy := growth }, Array.replicate t.slots none⟩
      ⟨{ policy := growth' }, Array.replicate t.slots none⟩ := ⟨⟨rfl, rfl, rfl⟩, rfl⟩
  obtain ⟨hstore, hblock⟩ : Store.ResembleWith (t.start growth) (t.start growth') :=
    t.layout.resemble_allocate hempty (.exact 1)
  obtain ⟨hvalue, houtcome⟩ := t.layout.blind_writeFrom 0 v (t.start growth).2 hstore
  rw [hblock] at hvalue houtcome
  constructor
  · show (t.layout.write v (t.start growth).1 (t.start growth).2).1 =
      (t.layout.write v (t.start growth').1 (t.start growth').2).1
    rw [Layout.write_eq_writeFrom, hblock]
    exact hvalue
  · rw [write_eq_start, write_eq_start, hblock]
    rcases houtcome.cases with ⟨e, hw, hw'⟩ | ⟨⟨s, b⟩, ⟨s', b'⟩, hw, hw', hs, hb⟩
    · rw [hw, hw']
      rfl
    · obtain rfl : b = b' := hb
      rw [hw, hw']
      simp only
      rcases (Store.Resembles.freeze b hs).cases with ⟨e, hf, hf'⟩ | ⟨s₁, s₁', hf, hf', hs₁⟩
      · rw [hf, hf']
        rfl
      · rw [hf, hf']
        exact ⟨rfl, hs₁.arena, hs₁.extents⟩

/-- Finished arrays of one value at one type, whose contents resemble each other. -/
theorem PackedArray.sameButGrowth_of_write {t : ArrayType} {growth growth' : GrowthPolicy}
    {v : Value} {c c' : Contents} (h : (t.write growth v).2 = .ok c)
    (h' : (t.write growth' v).2 = .ok c') (hresembles : c.Resembles c') :
    SameButGrowth ⟨t, c⟩ ⟨t, c'⟩ := by
  obtain ⟨hroot, harena, hextents⟩ := hresembles
  have hregions : c.arena.regions = c'.arena.regions :=
    harena.regions_eq (ArrayType.finished_of_write h).frozen
  -- along any path both are read from what the type makes of the value
  have hread : ∀ {path : List Nat}, t.HasPath path →
      t.layout.read c path c.root 0 = t.layout.read c' path c'.root 0 := by
    intro path hpath
    obtain ⟨w, hw, hcoerce⟩ := (ArrayType.written_of_write h).read hpath
    obtain ⟨w', hw', hcoerce'⟩ := (ArrayType.written_of_write h').read hpath
    obtain rfl := Option.some.inj (hcoerce.symm.trans hcoerce')
    rw [hw, hw']
  refine ⟨rfl, extents_eq_of_contents rfl hextents, hroot, hregions, hextents,
    harena.stats hregions, hread trivial, fun path => ?_, fun path => rfl⟩
  show (t.locate (names path) >>= fun r => t.layout.read c r.1 c.root 0) =
    t.locate (names path) >>= fun r => t.layout.read c' r.1 c'.root 0
  cases hlocate : t.locate (names path) with
  | error e => rfl
  | ok r => exact hread (ArrayType.hasPath_of_locate hlocate)

/-- **Growth does not show.** Two configurations that differ in nothing that inference asks for, if a
type is to be inferred at all, build the same array or are refused with the same error, and they ask
the same of the lazy sources. -/
theorem build_alike_of_growth {config config' : Config} {hint : Hint} (h : hint = .infer →
      config.defaultLeaf = config'.defaultLeaf ∧ config.integerWidth = config'.integerWidth)
    (v : Value) : (build config hint v).1 = (build config' hint v).1 ∧
      Alike PackedArray.SameButGrowth (build config hint v).2 (build config' hint v).2 := by
  unfold build
  cases v.shape hint with
  | mk v outcome =>
    cases outcome with
    | error e => exact ⟨rfl, rfl⟩
    | ok S =>
      simp only [S.resolve_congr h]
      cases S.resolve hint config' with
      | error e => exact ⟨rfl, rfl⟩
      | ok t =>
        obtain ⟨hvalue, houtcome⟩ := t.write_resembles config.growth config'.growth v
        refine ⟨hvalue, ?_⟩
        rcases houtcome.cases with ⟨e, hw, hw'⟩ | ⟨c, c', hw, hw', hresembles⟩
        · simp only [hw, hw']
          rfl
        · simp only [hw, hw']
          exact PackedArray.sameButGrowth_of_write hw hw' hresembles

/-- Rows of sources, one of them empty, with room for one element and with a factor of three. -/
theorem build_alike_of_growth_rows :
    ∃ config v, config = { growth := ⟨1, ⟨0x4008000000000000⟩⟩ : Config } ∧
      v = Value.list [.iter (.ofSupply 0 (.ofList [.ofInt 1, .ofBool true])),
        .iter (.ofSupply 1 .nil)] ∧
      (config.defaultLeaf = Config.defaultLeaf {} ∧
        config.integerWidth = Config.integerWidth {}) ∧
      (build config .infer v).1 = (build {} .infer v).1 ∧
      Alike PackedArray.SameButGrowth (build config .infer v).2 (build {} .infer v).2 ∧
      (build {} .infer v).2.map PackedArray.extents = .ok [some 2, none] := by
  obtain ⟨hvalue, houtcome⟩ := @build_alike_of_growth { growth := ⟨1, ⟨0x4008000000000000⟩⟩ } {}
    .infer (fun _ => ⟨rfl, rfl⟩) (.list [.iter (.ofSupply 0 (.ofList [.ofInt 1, .ofBool true])),
      .iter (.ofSupply 1 .nil)])
  exact ⟨_, _, rfl, rfl, ⟨rfl, rfl⟩, hvalue, houtcome, by decide +kernel⟩

/-- A source whose length is not known beforehand is moved as often as the policy makes it. -/
example :
    let v := Value.iter (.ofSupply 0 (.ofList [.ofInt 1, .ofInt 2, .ofInt 3]))
    let moved (config : Config) :=
      (build config (.full ⟨[.var], .scalar .int32⟩) v).2.map fun a => a.stats.reallocations
    moved {} = .ok 0 ∧ moved { growth := ⟨1, ⟨0x4000000000000000⟩⟩ } = .ok 2 := by
  decide

end Ragged
