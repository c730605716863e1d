import Ragged.Proofs.Shape.Steps

/-!
# What a survey fails for

A survey looks at how a value nests and at its leaves, and it has no other reason to fail:

> its errors are about containers and leaves at one depth, about leaves that do not join, and about
> keys that records do not share.

`FailsOnly` says of any outcome what its error may be. It goes through a computation step by step.
-/

set_option autoImplicit false

namespace Ragged

/-- If the outcome is an error, it is as described. -/
def FailsOnly {α : Type} (P : BuildError → Prop) (out : Except BuildError α) : Prop :=
  ∀ e, out = .error e → P e

namespace FailsOnly

variable {α β : Type} {P Q : BuildError → Prop}

theorem ok (a : α) : FailsOnly P (.ok a) := fun _ h => absurd h (by simp)

theorem error {e : BuildError} (h : P e) : FailsOnly P (.error e : Except BuildError α) := by
  intro e' he
  rw [← Except.error.inj he]
  exact h

theorem bind {out : Except BuildError α} {f : α → Except BuildError β} (h : FailsOnly P out)
    (hf : ∀ a, out = .ok a → FailsOnly P (f a)) : FailsOnly P (out >>= f) := by
  cases out with
  | error e => exact error (h e rfl)
  | ok a => exact hf a rfl

theorem map {out : Except BuildError α} (f : α → β) (h : FailsOnly P out) :
    FailsOnly P (out.map f) := by
  cases out with
  | error e => exact error (h e rfl)
  | ok a => exact ok (f a)

/-- A fold fails only where one of its steps does. -/
theorem foldlM {f : β → α → Except BuildError β} {xs : List α}
    (h : ∀ x ∈ xs, ∀ b, FailsOnly P (f b x)) : ∀ b, FailsOnly P (xs.foldlM f b) := by
  induction xs with
  | nil => exact fun b => ok b
  | cons x xs ih =>
    intro b
    obtain ⟨hx, hxs⟩ := List.forall_mem_cons.mp h
    rw [List.foldlM_cons]
    exact (hx b).bind fun b _ => ih hxs b

theorem imp {out : Except BuildError α} (h : FailsOnly P out) (himp : ∀ e, P e → Q e) :
    FailsOnly Q out := fun e he => himp e (h e he)

end FailsOnly

open FailsOnly (error ok)

/-- The error is about how a value nests, or about leaves or keys that do not go together. -/
def BuildError.IsNesting : BuildError → Prop
  | .shape _ | .type _ | .undeclaredField .. | .missingField .. => True
  | _ => False

theorem BuildError.IsNesting.category {e : BuildError} (h : e.IsNesting) :
    e.category ≠ .storage := by
  cases e with
  | shape fault | type fault => simp [BuildError.category]
  | undeclaredField key struct | missingField key struct => simp [BuildError.category]
  | _ => exact h.elim

namespace Shape

theorem nesting_enterContainer (S : Shape) (depth : Nat) (f : Level → Level) :
    FailsOnly BuildError.IsNesting (S.enterContainer depth f) := by
  unfold enterContainer
  split
  · exact error trivial
  · exact ok _

theorem nesting_enterLeaf (S : Shape) (depth : Nat) :
    FailsOnly BuildError.IsNesting (S.enterLeaf depth) := by
  simp only [enterLeaf]
  split
  · split
    · split
      · exact error trivial
      · exact ok _
    · exact error trivial
  · split
    · exact error trivial
    · exact ok _

end Shape

theorem LeafSample.nesting_join (s : LeafSample) (a : Atom) :
    FailsOnly BuildError.IsNesting (s.join a) := by
  simp only [join]
  split
  · exact ok _
  · exact ok _
  · exact ok _
  · exact ok _
  · exact ok _
  · split
    · exact ok _
    · exact error trivial

theorem LeafSample.nesting_fieldsFor (s : LeafSample) (keys : List String) :
    FailsOnly BuildError.IsNesting (s.fieldsFor keys) := by
  unfold fieldsFor
  split
  · exact ok _
  · split
    · exact error trivial
    · split
      · exact error trivial
      · exact ok _
  · exact error trivial

/-- **A survey fails for how the value nests, and for its leaves.** -/
theorem Value.nesting_survey {sight : Sight} (v : Value) :
    ∀ (depth : Nat) (partly : Bool) (S : Shape),
      FailsOnly BuildError.IsNesting (survey sight depth partly S v).2 := by
  induction v using Value.inductElements with
  | atom a =>
    intro depth partly S
    cases sight with
    | everything =>
      rw [survey_atom]
      exact (S.nesting_enterLeaf depth).bind fun S _ => (S.leaf.nesting_join a).map _
    | firstOnly records =>
      rw [survey_leaf_firstOnly rfl]
      exact S.nesting_enterLeaf depth
  | dict entries ih =>
    intro depth partly S
    cases sight with
    | everything =>
      rw [survey_dict]
      refine (S.nesting_enterLeaf depth).bind fun S _ => ?_
      refine (S.leaf.nesting_fieldsFor (Entries.keys entries)).bind fun fields _ => ?_
      exact (FailsOnly.foldlM (fun e he _ => (ih e he 0 false _).map _) fields).map _
    | firstOnly records =>
      rw [survey_leaf_firstOnly rfl]
      exact S.nesting_enterLeaf depth
  | elements v xs hxs ih =>
    intro depth partly S
    cases hv : v.isIterator with
    | false =>
      obtain ⟨isTuple, hs⟩ := survey_sequence sight depth partly S hv hxs
      rw [hs]
      split
      · exact S.nesting_enterLeaf depth
      · exact (S.nesting_enterContainer depth _).bind fun S _ =>
          FailsOnly.foldlM (fun x hx S => ih x hx (depth + 1) partly S) S
    | true =>
      cases sight with
      | everything =>
        rw [survey_of_items? hxs]
        exact (S.nesting_enterContainer depth _).bind fun S _ =>
          FailsOnly.foldlM (fun x hx S => ih x hx (depth + 1) partly S) S
      | firstOnly records =>
        rw [survey_source_firstOnly hv hxs]
        -- of a source no more than one element is gone through
        refine (S.nesting_enterContainer depth _).bind fun S _ => ?_
        cases xs with
        | nil => exact ok S
        | cons x rest => exact ih x List.mem_cons_self (depth + 1) true S

end Ragged
