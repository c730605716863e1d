import Ragged.Proofs.Value.Elements
import Ragged.Shape.Basic

/-!
# What a shape covers

A shape sums up values and forgets how they were put together. What it still tells is which values
may have been among them: `Shape.Covers`. Every container there must have one of the lengths seen at
its depth, every leaf must stand at the depth of leaves, scalars must be within the sample, and the
values of a mapping must be covered by the shapes of their fields.

Values are added to a shape one after the other, so what carries the proofs about a survey is

> a shape that was added to covers what it covered before (`Shape.Below.covers`).

That is not an equality of parts. Adding widens the range of a length or of a sample, and it replaces
the shapes of fields by others of which all that can be said is again that they cover more.
-/

set_option autoImplicit false

namespace Ragged

/-- Induction on a shape goes into those of the values under the keys of mappings. -/
@[elab_as_elim]
theorem Shape.induction {motive : Shape → Prop}
    (step : ∀ levels leafDepth leaf,
      (∀ fields, leaf = .struct fields → ∀ e ∈ fields, motive e.2) →
        motive ⟨levels, leafDepth, leaf⟩) (S : Shape) : motive S := by
  refine @Shape.rec motive (fun leaf => ∀ fields, leaf = .struct fields → ∀ e ∈ fields, motive e.2)
    (fun fields => ∀ e ∈ fields, motive e.2) (fun e => motive e.2) step ?_ ?_ ?_ ?_ ?_ ?_ ?_ ?_ ?_
    ?_ S
  · exact fun _ h => absurd h (by simp)
  · exact fun _ h => absurd h (by simp)
  · exact fun _ _ _ h => absurd h (by simp)
  · exact fun _ h => absurd h (by simp)
  · exact fun _ h => absurd h (by simp)
  · exact fun _ h => absurd h (by simp)
  · intro fields hfields fields' h
    exact LeafSample.struct.inj h ▸ hfields
  · exact fun _ h => absurd h List.not_mem_nil
  · exact fun _ _ he hrest => List.forall_mem_cons.mpr ⟨he, hrest⟩
  · exact fun _ _ h => h

/-! ## Lengths and samples -/

/-- The length is among those seen, or between them. -/
def Lengths.Includes : Lengths → Nat → Prop
  | .unseen, _ => False
  | .all m, n => n = m
  | .between lo hi, n => lo ≤ n ∧ n ≤ hi

/-- Noting a length includes it, and leaves none out. -/
theorem Lengths.includes_observe {ls : Lengths} {n m : Nat} (h : m = n ∨ ls.Includes m) :
    (ls.observe n).Includes m := by
  cases ls with
  | unseen => exact h.resolve_right id
  | all k =>
    simp only [Includes] at h
    simp only [observe]
    split
    · rename_i hkn
      rcases h with h | h
      · exact h.trans hkn.symm
      · exact h
    · simp only [Includes]
      omega
  | between lo hi =>
    simp only [Includes] at h
    simp only [observe, Includes]
    omega

namespace LeafSample

/-- The scalar may be one of those sampled. -/
def Includes : LeafSample → Atom → Prop
  | .bool, .bool _ => True
  | .int lo hi, .bool _ => lo ≤ 0 ∧ 1 ≤ hi
  | .int lo hi, .int i => lo ≤ i ∧ i ≤ hi
  | .float, .bool _ | .float, .int _ | .float, .float _ => True
  | .complex, .bool _ | .complex, .int _ | .complex, .float _ | .complex, .complex _ _ => True
  | .text, .text _ => True
  | _, _ => False

/-- **A join is an upper bound**: it includes the scalar that was added and leaves none out. -/
theorem includes_of_join {s s' : LeafSample} {a b : Atom} (h : s.join a = .ok s')
    (hb : b = a ∨ s.Includes b) : s'.Includes b := by
  cases s with
  | struct fields => cases a <;> exact absurd h (by simp [join, ofAtom, rank?])
  | nothing =>
    obtain rfl := hb.resolve_right id
    obtain rfl := Except.ok.inj h
    cases b <;> simp [ofAtom, Includes]
  | text =>
    cases a with
    | text t =>
      obtain rfl := Except.ok.inj h
      rcases hb with rfl | hb
      · trivial
      · exact hb
    | _ => exact absurd h (by simp [join, ofAtom, rank?])
  | bool | int lo hi | float | complex =>
    cases a with
    | text t => exact absurd h (by simp [join, ofAtom, rank?])
    | _ =>
      simp only [join, ofAtom, rank?, Nat.reduceLeDiff, if_true, if_false, Except.ok.injEq] at h
      subst h
      rcases hb with rfl | hb
      · simp only [Includes] <;> omega
      · cases b <;> simp only [Includes] at hb ⊢ <;> omega

/-- Scalars and mappings do not join. -/
theorem ne_struct_of_join {s s' : LeafSample} {a : Atom} (h : s.join a = .ok s')
    (fields : List (String × Shape)) : s ≠ .struct fields ∧ s' ≠ .struct fields := by
  cases s with
  | struct fields => cases a <;> exact absurd h (by simp [join, ofAtom, rank?])
  | _ =>
    refine ⟨by simp, ?_⟩
    rintro rfl
    cases a <;> exact absurd h (by simp [join, ofAtom, rank?])

end LeafSample

/-! ## Keys -/

theorem Entries.mem_keys_iff {α : Type} {entries : List (String × α)} {key : String} :
    key ∈ keys entries ↔ ∃ value, get? entries key = some value := by
  induction entries with
  | nil => exact ⟨fun h => absurd h List.not_mem_nil, fun ⟨_, h⟩ => nomatch h⟩
  | cons e rest ih =>
    obtain ⟨k, value⟩ := e
    simp only [keys, get?, List.map_cons, List.mem_cons, List.lookup_cons] at ih ⊢
    by_cases hk : key = k
    · rw [beq_iff_eq.mpr hk]
      exact ⟨fun _ => ⟨value, rfl⟩, fun _ => .inl hk⟩
    · rw [beq_false_of_ne hk]
      exact (or_iff_right hk).trans ih

theorem Entries.mem_keys_put {α : Type} {entries : List (String × α)} {key k : String} {value : α} :
    k ∈ keys (put entries key value) ↔ k = key ∨ k ∈ keys entries := by
  rw [keys_put]
  by_cases hmem : key ∈ keys entries
  · rw [if_pos hmem]
    refine ⟨.inr, fun h => ?_⟩
    rcases h with rfl | hk
    · exact hmem
    · exact hk
  · rw [if_neg hmem, List.mem_append, List.mem_singleton, or_comm]

theorem Entries.get?_of_mem {α : Type} {entries : List (String × α)} {key : String} {value : α}
    (hnodup : (keys entries).Nodup) (h : (key, value) ∈ entries) :
    get? entries key = some value := by
  induction entries with
  | nil => exact absurd h List.not_mem_nil
  | cons e rest ih =>
    obtain ⟨k, value'⟩ := e
    obtain ⟨hnot, hrest⟩ := List.nodup_cons.mp hnodup
    rw [get?, List.lookup_cons]
    rcases List.mem_cons.mp h with heq | hmem
    · obtain ⟨rfl, rfl⟩ := Prod.mk.inj heq
      rw [beq_self_eq_true]
    · have hne : key ≠ k := by
        rintro rfl
        exact hnot (List.mem_map.mpr ⟨(key, value), hmem, rfl⟩)
      rw [show (key == k) = false by simpa using hne]
      exact ih hrest hmem

theorem Entries.mem_of_get? {α : Type} {entries : List (String × α)} {key : String} {value : α}
    (h : get? entries key = some value) : (key, value) ∈ entries := by
  obtain ⟨before, after, rfl, -⟩ := List.lookup_eq_some_iff.mp h
  exact List.mem_append_right _ List.mem_cons_self

/-- A mapping goes in as the first leaf, or among mappings of the same keys. -/
theorem LeafSample.fieldsFor_eq_ok {s : LeafSample} {keys : List String}
    {fields : List (String × Shape)} (h : s.fieldsFor keys = .ok fields) :
    s = .nothing ∧ fields = [] ∨
      s = .struct fields ∧ ∀ key, key ∈ keys ↔ key ∈ Entries.keys fields := by
  cases s with
  | nothing => exact .inl ⟨rfl, (Except.ok.inj h).symm⟩
  | struct known =>
    simp only [fieldsFor] at h
    split at h
    · exact absurd h (by simp)
    · rename_i hundeclared
      split at h
      · exact absurd h (by simp)
      · rename_i hmissing
        obtain rfl := Except.ok.inj h
        refine .inr ⟨rfl, fun key => ⟨fun hkey => ?_, fun hkey => ?_⟩⟩
        · have hsome := List.find?_eq_none.mp hundeclared key hkey
          exact Entries.mem_keys_iff.mpr (Option.ne_none_iff_exists'.mp (by simpa using hsome))
        · have hmem := List.find?_eq_none.mp hmissing key hkey
          simpa using hmem
  | _ => exact absurd h (by simp [fieldsFor])

/-! ## Covering -/

namespace Shape

/-- Containers of that length were seen at the depth. -/
def Saw (S : Shape) (depth n : Nat) : Prop :=
  ∃ l, S.levels[depth]? = some l ∧ l.lengths.Includes n

/-- The value, at that depth, may be one of those summed up. -/
inductive Covers : Shape → Nat → Value → Prop where
  | items {S : Shape} {depth : Nat} {v : Value} {xs : List Value} (hitems : v.items? = some xs)
      (hsaw : S.Saw depth xs.length) (hall : ∀ x ∈ xs, Covers S (depth + 1) x) : Covers S depth v
  | atom {S : Shape} {depth : Nat} {a : Atom} (hdepth : S.leafDepth = some depth)
      (hleaf : S.leaf.Includes a) : Covers S depth (.atom a)
  | record {S : Shape} {depth : Nat} {entries : List (String × Value)}
      {fields : List (String × Shape)} (hdepth : S.leafDepth = some depth)
      (hleaf : S.leaf = .struct fields)
      (hkeys : ∀ key, key ∈ Entries.keys entries ↔ key ∈ Entries.keys fields)
      (hall : ∀ e ∈ entries, ∀ shape, Entries.get? fields e.1 = some shape → Covers shape 0 e.2) :
      Covers S depth (.dict entries)

/-- Each shape is replaced by one that covers more. -/
def FieldsBelow (fields fields' : List (String × Shape)) : Prop :=
  ∀ key shape, Entries.get? fields key = some shape →
    ∃ shape', Entries.get? fields' key = some shape' ∧
      ∀ depth v, shape.Covers depth v → shape'.Covers depth v

/-- The second shape is the first with more added to it. -/
structure Below (S S' : Shape) : Prop where
  levels : S.levels.length ≤ S'.levels.length
  saw : ∀ depth n, S.Saw depth n → S'.Saw depth n
  leafDepth : ∀ depth, S.leafDepth = some depth → S'.leafDepth = some depth
  scalars : ∀ a, S.leaf.Includes a → S'.leaf.Includes a
  mappings : ∀ fields, S.leaf = .struct fields → ∃ fields', S'.leaf = .struct fields' ∧
    (∀ key, key ∈ Entries.keys fields' ↔ key ∈ Entries.keys fields) ∧ FieldsBelow fields fields'

/-- **What was covered stays covered.** -/
theorem Below.covers {S S' : Shape} (h : S.Below S') {depth : Nat} {v : Value}
    (hv : S.Covers depth v) : S'.Covers depth v := by
  induction hv with
  | items hitems hsaw _ ih => exact .items hitems (h.saw _ _ hsaw) fun x hx => ih x hx h
  | atom hdepth hleaf => exact .atom (h.leafDepth _ hdepth) (h.scalars _ hleaf)
  | @record S depth entries fields hdepth hleaf hkeys hall _ =>
    obtain ⟨fields', hleaf', hkeys', hbelow⟩ := h.mappings fields hleaf
    refine .record (h.leafDepth _ hdepth) hleaf' (fun key => (hkeys key).trans (hkeys' key).symm) ?_
    intro e he shape' hshape'
    -- the field had a shape before, which covered the value
    have hmem : e.1 ∈ Entries.keys fields := (hkeys e.1).mp (List.mem_map_of_mem he)
    obtain ⟨shape, hshape⟩ := Entries.mem_keys_iff.mp hmem
    obtain ⟨shape₁, hshape₁, hmore⟩ := hbelow e.1 shape hshape
    obtain rfl := Option.some.inj (hshape₁.symm.trans hshape')
    exact hmore 0 e.2 (hall e he shape hshape)

theorem FieldsBelow.refl (fields : List (String × Shape)) : FieldsBelow fields fields :=
  fun _ shape hshape => ⟨shape, hshape, fun _ _ hv => hv⟩

theorem FieldsBelow.trans {fields fields₁ fields₂ : List (String × Shape)}
    (h : FieldsBelow fields fields₁) (h' : FieldsBelow fields₁ fields₂) :
    FieldsBelow fields fields₂ := by
  intro key shape hshape
  obtain ⟨shape₁, hshape₁, hmore₁⟩ := h key shape hshape
  obtain ⟨shape₂, hshape₂, hmore₂⟩ := h' key shape₁ hshape₁
  exact ⟨shape₂, hshape₂, fun depth v hv => hmore₂ depth v (hmore₁ depth v hv)⟩

theorem Below.refl (S : Shape) : S.Below S where
  levels := Nat.le_refl _
  saw := fun _ _ h => h
  leafDepth := fun _ h => h
  scalars := fun _ h => h
  mappings := fun fields h => ⟨fields, h, fun _ => Iff.rfl, .refl fields⟩

theorem Below.trans {S S₁ S₂ : Shape} (h : S.Below S₁) (h' : S₁.Below S₂) : S.Below S₂ where
  levels := Nat.le_trans h.levels h'.levels
  saw := fun depth n hn => h'.saw depth n (h.saw depth n hn)
  leafDepth := fun depth hd => h'.leafDepth depth (h.leafDepth depth hd)
  scalars := fun a ha => h'.scalars a (h.scalars a ha)
  mappings := by
    intro fields hf
    obtain ⟨fields₁, hf₁, hkeys₁, hbelow₁⟩ := h.mappings fields hf
    obtain ⟨fields₂, hf₂, hkeys₂, hbelow₂⟩ := h'.mappings fields₁ hf₁
    exact ⟨fields₂, hf₂, fun key => (hkeys₂ key).trans (hkeys₁ key), hbelow₁.trans hbelow₂⟩

end Shape

end Ragged
