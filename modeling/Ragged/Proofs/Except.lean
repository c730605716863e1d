import Mathlib.Data.List.Forall2

/-!
# Computations that can fail

What a computation of several steps has done, if it succeeded: each of its steps has. If it failed,
one of them has, and those before it succeeded. And what two computations have in common if each step
of one has it in common with that of the other (`Alike`).
-/

set_option autoImplicit false

namespace Ragged

variable {ε α β σ τ : Type}

theorem bind_eq_ok {x : Except ε α} {f : α → Except ε β} {b : β} :
    x.bind f = .ok b ↔ ∃ a, x = .ok a ∧ f a = .ok b := by
  cases x with
  | error e => simp [Except.bind]
  | ok a => simp [Except.bind]

theorem bind_eq_error {x : Except ε α} {f : α → Except ε β} {e : ε} :
    x.bind f = .error e ↔ x = .error e ∨ ∃ a, x = .ok a ∧ f a = .error e := by
  cases x with
  | error e => simp [Except.bind]
  | ok a => simp [Except.bind]

/-- A last step that always succeeds is not what failed. -/
theorem error_of_bind_ok {x : Except ε α} {f : α → Except ε β} {e : ε} (h : x.bind f = .error e)
    (hf : ∀ a, ∃ b, f a = .ok b) : x = .error e := by
  rcases bind_eq_error.mp h with hx | ⟨a, -, ha⟩
  · exact hx
  · obtain ⟨b, hb⟩ := hf a
    exact absurd (ha.symm.trans hb) (by simp)

theorem map_eq_ok {x : Except ε α} {f : α → β} {b : β} :
    x.map f = .ok b ↔ ∃ a, x = .ok a ∧ f a = b := by
  cases x with
  | error e => simp [Except.map]
  | ok a => simp [Except.map]

theorem map_eq_error {x : Except ε α} {f : α → β} {e : ε} : x.map f = .error e ↔ x = .error e := by
  cases x with
  | error e' => exact ⟨fun h => congrArg _ (Except.error.inj h), fun h => by rw [h]; rfl⟩
  | ok a => exact ⟨(nomatch ·), (nomatch ·)⟩

theorem foldlM_cons_eq_ok {f : σ → α → Except ε σ} {x : α} {xs : List α} {s s' : σ} :
    (x :: xs).foldlM f s = .ok s' ↔ ∃ s₁, f s x = .ok s₁ ∧ xs.foldlM f s₁ = .ok s' := by
  rw [List.foldlM_cons]
  exact bind_eq_ok

/-- A fold commutes with a change of what is folded if each of its steps does. -/
theorem map_foldlM {f : σ → α → Except ε σ} {f' : τ → β → Except ε τ} {g : σ → τ} {h : α → β}
    {xs : List α} (hstep : ∀ x ∈ xs, ∀ s, (f s x).map g = f' (g s) (h x)) :
    ∀ s, (xs.foldlM f s).map g = (xs.map h).foldlM f' (g s) := by
  induction xs with
  | nil => exact fun _ => rfl
  | cons x xs ih =>
    intro s
    obtain ⟨hx, hxs⟩ := List.forall_mem_cons.mp hstep
    rw [List.foldlM_cons, List.map_cons, List.foldlM_cons, ← hx s]
    cases f s x with
    | error e => rfl
    | ok s => exact ih hxs s

/-- Folds over related elements are the same if each of their steps is. -/
theorem foldlM_eq_of_forall₂ {R : α → β → Prop} {f : σ → α → Except ε σ} {g : σ → β → Except ε σ}
    {xs : List α} {ys : List β} (h : List.Forall₂ R xs ys)
    (hstep : ∀ x ∈ xs, ∀ y, R x y → ∀ s, f s x = g s y) :
    ∀ s, xs.foldlM f s = ys.foldlM g s := by
  induction h with
  | nil => exact fun _ => rfl
  | @cons x y xs ys hxy _ ih =>
    intro s
    obtain ⟨hx, hxs⟩ := List.forall_mem_cons.mp hstep
    rw [List.foldlM_cons, List.foldlM_cons, hx y hxy s]
    exact congrArg _ (funext (ih hxs))

/-- A fold succeeds, and keeps what each of its steps keeps, if each step does. -/
theorem exists_foldlM_eq_ok {P : σ → Prop} {f : σ → α → Except ε σ} {xs : List α}
    (hstep : ∀ x ∈ xs, ∀ s, P s → ∃ s', f s x = .ok s' ∧ P s') :
    ∀ {s}, P s → ∃ s', xs.foldlM f s = .ok s' ∧ P s' := by
  induction xs with
  | nil => exact fun hs => ⟨_, rfl, hs⟩
  | cons x xs ih =>
    intro s hs
    obtain ⟨hx, hxs⟩ := List.forall_mem_cons.mp hstep
    obtain ⟨s₁, hfirst, hs₁⟩ := hx s hs
    obtain ⟨s', hrest, hs'⟩ := ih hxs hs₁
    exact ⟨s', foldlM_cons_eq_ok.mpr ⟨s₁, hfirst, hrest⟩, hs'⟩

section Alike

variable {α' β' : Type} {R : α → α' → Prop} {T : β → β' → Prop}

/-- Both end with the same error, or with results that are related. -/
def Alike (R : α → α' → Prop) : Except ε α → Except ε α' → Prop
  | .ok a, .ok b => R a b
  | .error e, .error e' => e = e'
  | _, _ => False

theorem Alike.cases {x : Except ε α} {y : Except ε α'} (h : Alike R x y) :
    (∃ e, x = .error e ∧ y = .error e) ∨ ∃ a b, x = .ok a ∧ y = .ok b ∧ R a b := by
  cases x with
  | error e =>
    cases y with
    | error e' => exact .inl ⟨e, rfl, congrArg Except.error (Eq.symm h)⟩
    | ok b => exact h.elim
  | ok a =>
    cases y with
    | error e' => exact h.elim
    | ok b => exact .inr ⟨a, b, rfl, rfl, h⟩

theorem Alike.bind {x : Except ε α} {y : Except ε α'} {f : α → Except ε β} {g : α' → Except ε β'}
    (h : Alike R x y) (hfg : ∀ a b, R a b → Alike T (f a) (g b)) :
    Alike T (x >>= f) (y >>= g) := by
  rcases h.cases with ⟨e, rfl, rfl⟩ | ⟨a, b, rfl, rfl, hab⟩
  · exact rfl
  · exact hfg a b hab

theorem Alike.map {x : Except ε α} {y : Except ε α'} {f : α → β} {g : α' → β'} (h : Alike R x y)
    (hfg : ∀ a b, R a b → T (f a) (g b)) : Alike T (x.map f) (y.map g) := by
  rcases h.cases with ⟨e, rfl, rfl⟩ | ⟨a, b, rfl, rfl, hab⟩
  · exact rfl
  · exact hfg a b hab

end Alike

end Ragged
