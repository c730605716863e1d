import Ragged.Shape.Survey
import Mathlib.Order.Bounds.Basic

/-!
# What lengths and samples sum up

The lengths of a level and the sample of the leaves are kept up to date one container and one scalar
at a time. What they tell in the end does not depend on that: of the set of all lengths it is the
only one, or the least and the greatest; of the set of all scalars it is the sort of the greatest,
and for integers the range.

> One more length and one more scalar make it that of one more (`Lengths.Sums.observe`,
> `LeafSample.Sums.join`), and no two tell the same of a set (`unique`). A scalar is refused if it is
> a text and some other is not, or the other way round (`LeafSample.Sums.exists_of_join_error`).

A truth value counts as 0 and 1, but only among integers: among others there is nothing to count.
-/

set_option autoImplicit false

namespace Ragged

/-! ## Lengths -/

/-- The lengths are those of the set: none, the only one, or all from the least to the greatest. -/
def Lengths.Sums (N : Set Nat) : Lengths → Prop
  | .unseen => N = ∅
  | .all n => N = {n}
  | .between lo hi => lo < hi ∧ IsLeast N lo ∧ IsGreatest N hi

namespace Lengths.Sums

variable {N : Set Nat} {ls ls' : Lengths}

theorem observe (h : ls.Sums N) (n : Nat) : (ls.observe n).Sums (insert n N) := by
  cases ls with
  | unseen =>
    obtain rfl : N = ∅ := h
    exact insert_empty_eq n
  | all m =>
    obtain rfl : N = {m} := h
    simp only [Lengths.observe]
    split
    · rename_i heq
      subst heq
      exact Set.insert_eq_of_mem rfl
    · refine ⟨by omega, ?_, ?_⟩
      · exact min_comm m n ▸ isLeast_singleton.insert n
      · exact max_comm m n ▸ isGreatest_singleton.insert n
  | between lo hi =>
    obtain ⟨hlt, hleast, hgreatest⟩ := h
    refine ⟨by omega, ?_, ?_⟩
    · exact min_comm lo n ▸ hleast.insert n
    · exact max_comm hi n ▸ hgreatest.insert n

theorem unique (h : ls.Sums N) (h' : ls'.Sums N) : ls = ls' := by
  cases ls with
  | unseen =>
    obtain rfl : N = ∅ := h
    cases ls' with
    | unseen => rfl
    | all n => exact absurd h' (Set.singleton_ne_empty n).symm
    | between lo hi => exact absurd h'.2.1.1 (Set.notMem_empty lo)
  | all n =>
    obtain rfl : N = {n} := h
    cases ls' with
    | unseen => exact absurd h' (Set.singleton_ne_empty n)
    | all m => exact congrArg Lengths.all (Set.singleton_injective h')
    | between lo hi =>
      obtain ⟨hlt, hleast, hgreatest⟩ := h'
      have hlo : lo = n := hleast.1
      have hhi : hi = n := hgreatest.1
      omega
  | between lo hi =>
    obtain ⟨hlt, hleast, hgreatest⟩ := h
    cases ls' with
    | unseen =>
      obtain rfl : N = ∅ := h'
      exact absurd hleast.1 (Set.notMem_empty lo)
    | all n =>
      obtain rfl : N = {n} := h'
      have hlo : lo = n := hleast.1
      have hhi : hi = n := hgreatest.1
      omega
    | between lo' hi' => rw [hleast.unique h'.2.1, hgreatest.unique h'.2.2]

end Lengths.Sums

/-! ## Samples -/

def Atom.isText : Atom → Bool
  | .text _ => true
  | _ => false

/-- The integers among some scalars; a truth value counts as 0 and 1. -/
def counted (A : Set Atom) : Set Int :=
  {i | .int i ∈ A ∨ (∃ b, .bool b ∈ A) ∧ (i = 0 ∨ i = 1)}

/-- The sample is that of the set: of the sort of the greatest of them, with the range of integers if
these are the greatest. -/
def LeafSample.Sums (A : Set Atom) : LeafSample → Prop
  | .nothing => A = ∅
  | .bool => (∃ b, .bool b ∈ A) ∧ ∀ a ∈ A, ∃ b, a = .bool b
  | .int lo hi => (∃ i, .int i ∈ A) ∧ (∀ a ∈ A, (∃ b, a = .bool b) ∨ ∃ i, a = .int i) ∧
      IsLeast (counted A) lo ∧ IsGreatest (counted A) hi
  | .float => (∃ x, .float x ∈ A) ∧ ∀ a ∈ A, (∃ b, a = .bool b) ∨ (∃ i, a = .int i) ∨ ∃ x, a = .float x
  | .complex => (∃ x y, .complex x y ∈ A) ∧ ∀ a ∈ A, a.isText = false
  | .text => (∃ s, .text s ∈ A) ∧ ∀ a ∈ A, ∃ s, a = .text s
  | .struct _ => False

/-! ### Ranges -/

section Ranges

variable {A : Set Atom} {lo hi : Int}

theorem range_int (hlo : IsLeast (counted A) lo) (hhi : IsGreatest (counted A) hi) (i : Int) :
    IsLeast (counted (insert (.int i) A)) (min lo i) ∧
      IsGreatest (counted (insert (.int i) A)) (max hi i) := by
  have hcounted : counted (insert (.int i) A) = insert i (counted A) := by
    ext j
    simp [counted, or_assoc]
  rw [hcounted, min_comm, max_comm]
  exact ⟨hlo.insert i, hhi.insert i⟩

theorem range_bool (hlo : IsLeast (counted A) lo) (hhi : IsGreatest (counted A) hi) (b : Bool) :
    IsLeast (counted (insert (.bool b) A)) (min lo 0) ∧
      IsGreatest (counted (insert (.bool b) A)) (max hi 1) := by
  have hcounted : counted (insert (.bool b) A) = insert 0 (insert 1 (counted A)) := by
    ext j
    simp only [counted, Set.mem_ofPred_eq, Set.mem_insert_iff]
    grind
  rw [hcounted, show min lo 0 = min 0 (min 1 lo) by omega,
    show max hi 1 = max 0 (max 1 hi) by omega]
  exact ⟨(hlo.insert 1).insert 0, (hhi.insert 1).insert 0⟩

/-- Truth values by themselves, if there are any, count as both. -/
theorem range_of_bools (hsome : ∃ b, .bool b ∈ A) (hall : ∀ a ∈ A, ∃ b, a = .bool b) :
    IsLeast (counted A) 0 ∧ IsGreatest (counted A) 1 := by
  have hcounted : counted A = {0, 1} := by
    ext j
    simp only [counted, Set.mem_ofPred_eq, Set.mem_insert_iff, Set.mem_singleton_iff]
    grind
  rw [hcounted]
  exact ⟨isLeast_pair, isGreatest_pair⟩

end Ranges

namespace LeafSample.Sums

variable {A : Set Atom} {s s' : LeafSample} {a : Atom}

theorem single (a : Atom) : (LeafSample.ofAtom a).Sums {a} := by
  cases a with
  | int i =>
    have hcounted : counted {.int i} = {i} := by
      ext j
      simp [counted]
    refine ⟨⟨i, rfl⟩, fun a ha => .inr ⟨i, ha⟩, ?_⟩
    rw [hcounted]
    exact ⟨isLeast_singleton, isGreatest_singleton⟩
  | _ => simp [LeafSample.ofAtom, LeafSample.Sums, Atom.isText]

/-- **One more scalar.** -/
theorem join (h : s.Sums A) (hjoin : s.join a = .ok s') : s'.Sums (insert a A) := by
  cases s with
  | struct fields => exact h.elim
  | nothing =>
    obtain rfl : A = ∅ := h
    obtain rfl := Except.ok.inj hjoin
    have hsingle : insert a (∅ : Set Atom) = {a} := insert_empty_eq a
    exact hsingle ▸ single a
  | bool =>
    cases a with
    | text t => exact absurd hjoin (by simp [LeafSample.join, LeafSample.ofAtom, rank?])
    | int i =>
      obtain rfl := Except.ok.inj hjoin
      obtain ⟨hlo, hhi⟩ := range_of_bools h.1 h.2
      have hrange := range_int hlo hhi i
      rw [min_comm, max_comm] at hrange
      grind [LeafSample.Sums]
    | _ =>
      obtain rfl := Except.ok.inj hjoin
      grind [LeafSample.Sums, LeafSample.ofAtom, rank?, Atom.isText]
  | int lo hi =>
    have hlo := h.2.2.1
    have hhi := h.2.2.2
    cases a with
    | text t => exact absurd hjoin (by simp [LeafSample.join, LeafSample.ofAtom, rank?])
    | int i =>
      obtain rfl := Except.ok.inj hjoin
      have hrange := range_int hlo hhi i
      grind [LeafSample.Sums]
    | bool b =>
      obtain rfl := Except.ok.inj hjoin
      have hrange := range_bool hlo hhi b
      grind [LeafSample.Sums]
    | _ =>
      obtain rfl := Except.ok.inj hjoin
      grind [LeafSample.Sums, LeafSample.ofAtom, rank?, Atom.isText]
  | text =>
    cases a with
    | text t =>
      obtain rfl := Except.ok.inj hjoin
      grind [LeafSample.Sums]
    | _ => exact absurd hjoin (by simp [LeafSample.join, LeafSample.ofAtom, rank?])
  | float | complex =>
    cases a with
    | text t => exact absurd hjoin (by simp [LeafSample.join, LeafSample.ofAtom, rank?])
    | _ =>
      obtain rfl := Except.ok.inj hjoin
      grind [LeafSample.Sums, LeafSample.ofAtom, rank?, Atom.isText]

/-- What is refused is a text among others, or another among texts. -/
theorem exists_of_join_error {e : BuildError} (h : s.Sums A) (hjoin : s.join a = .error e) :
    ∃ b ∈ A, b.isText ≠ a.isText := by
  cases s with
  | struct fields => exact h.elim
  | nothing => exact absurd hjoin (by simp [LeafSample.join])
  | text =>
    obtain ⟨⟨t, ht⟩, -⟩ := h
    cases a with
    | text t' => exact absurd hjoin (by simp [LeafSample.join, LeafSample.ofAtom])
    | _ => exact ⟨_, ht, by simp [Atom.isText]⟩
  | bool | int lo hi | float =>
    obtain ⟨⟨x, hx⟩, -⟩ := h
    cases a with
    | text t => exact ⟨_, hx, by simp [Atom.isText]⟩
    | _ => exact absurd hjoin (by simp [LeafSample.join, LeafSample.ofAtom, rank?])
  | complex =>
    obtain ⟨⟨x, y, hxy⟩, -⟩ := h
    cases a with
    | text t => exact ⟨_, hxy, by simp [Atom.isText]⟩
    | _ => exact absurd hjoin (by simp [LeafSample.join, LeafSample.ofAtom, rank?])

/-- A sample that tells of something is of something. -/
theorem nonempty (h : s.Sums A) (hs : s ≠ .nothing) : A.Nonempty := by
  cases s with
  | nothing => exact absurd rfl hs
  | struct fields => exact h.elim
  | bool | int lo hi | float | text =>
    obtain ⟨⟨x, hx⟩, -⟩ := h
    exact ⟨_, hx⟩
  | complex =>
    obtain ⟨⟨x, y, hxy⟩, -⟩ := h
    exact ⟨_, hxy⟩

/-- Texts are sampled by themselves. -/
theorem isText_or (h : s.Sums A) : (∀ a ∈ A, a.isText = false) ∨ ∀ a ∈ A, a.isText = true := by
  cases s with
  | text => exact .inr (by grind [LeafSample.Sums, Atom.isText])
  | _ => exact .inl (by grind [LeafSample.Sums, Atom.isText])

theorem unique (h : s.Sums A) (h' : s'.Sums A) : s = s' := by
  cases s with
  | int lo hi =>
    cases s' with
    | int lo' hi' => rw [h.2.2.1.unique h'.2.2.1, h.2.2.2.unique h'.2.2.2]
    | _ => grind [LeafSample.Sums, Atom.isText]
  | _ => cases s' <;> grind [LeafSample.Sums, Atom.isText]

end LeafSample.Sums

end Ragged
