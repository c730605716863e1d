import Ragged.Proofs.Value.Requests

/-!
# What it is to have a value at its end

After a value was built into an array, nothing is left in it that could still be asked for.
`Value.Finishes` says so of the value before and after, wherever a source stands in it: also inside an
element that another source has yielded, and in a record's field.

> A finished source has yielded all that it had to yield, in that order, and has been asked once
> more, and no more than that.

How far its sources have been looked into beforehand makes no difference (`finishes_drained_iff`), so
what a survey does to a value need not be known to tell that the value is finished in the end.
-/

set_option autoImplicit false

namespace Ragged

namespace Value

/-- The second value is what becomes of the first when all its sources are asked for all they have. A
source has then yielded `ys` after what it had handed out before, each of them finished too. -/
inductive Finishes : Value → Value → Prop
  | atom (a : Atom) : Finishes (.atom a) (.atom a)
  | list {xs ys : List Value} (h : List.Forall₂ Finishes xs ys) : Finishes (.list xs) (.list ys)
  | tuple {xs ys : List Value} (h : List.Forall₂ Finishes xs ys) : Finishes (.tuple xs) (.tuple ys)
  | dict {entries entries' : List (String × Value)}
      (hkeys : Entries.keys entries' = Entries.keys entries)
      (h : List.Forall₂ Finishes (entries.map Prod.snd) (entries'.map Prod.snd)) :
      Finishes (.dict entries) (.dict entries')
  | iter {p q : Pull Value} {ys : List Value} (hlabel : q.label = p.label) (hended : q.ended = true)
      (hyielded : q.yielded = p.taken ++ ys)
      (hasked : q.asked = p.pulled + p.pending.toList.length + 1)
      (h : List.Forall₂ Finishes p.remaining ys) : Finishes (.iter p) (.iter q)

section Finishes

variable {v w : Value}

theorem finishes_list_iff {xs : List Value} :
    (list xs).Finishes w ↔ ∃ ys, w = .list ys ∧ List.Forall₂ Finishes xs ys := by
  constructor
  · intro h
    cases h with
    | list h => exact ⟨_, rfl, h⟩
  · rintro ⟨ys, rfl, h⟩
    exact .list h

theorem finishes_tuple_iff {xs : List Value} :
    (tuple xs).Finishes w ↔ ∃ ys, w = .tuple ys ∧ List.Forall₂ Finishes xs ys := by
  constructor
  · intro h
    cases h with
    | tuple h => exact ⟨_, rfl, h⟩
  · rintro ⟨ys, rfl, h⟩
    exact .tuple h

theorem finishes_dict_iff {entries : List (String × Value)} :
    (dict entries).Finishes w ↔ ∃ entries', w = .dict entries' ∧
      Entries.keys entries' = Entries.keys entries ∧
        List.Forall₂ Finishes (entries.map Prod.snd) (entries'.map Prod.snd) := by
  constructor
  · intro h
    cases h with
    | dict hkeys h => exact ⟨_, rfl, hkeys, h⟩
  · rintro ⟨entries', rfl, hkeys, h⟩
    exact .dict hkeys h

theorem finishes_iter_iff {p : Pull Value} :
    (iter p).Finishes w ↔ ∃ q ys, w = .iter q ∧ q.label = p.label ∧ q.ended = true ∧
      q.yielded = p.taken ++ ys ∧ q.asked = p.pulled + p.pending.toList.length + 1 ∧
        List.Forall₂ Finishes p.remaining ys := by
  constructor
  · intro h
    cases h with
    | iter hlabel hended hyielded hasked h =>
      exact ⟨_, _, rfl, hlabel, hended, hyielded, hasked, h⟩
  · rintro ⟨q, ys, rfl, hlabel, hended, hyielded, hasked, h⟩
    exact .iter hlabel hended hyielded hasked h

/-- One after the other. -/
theorem forall₂_finishes_drained {xs : List Value}
    (h : ∀ x ∈ xs, ∀ {w : Value}, x.drained.Finishes w ↔ x.Finishes w) :
    ∀ {ys : List Value},
      List.Forall₂ Finishes (xs.map drained) ys ↔ List.Forall₂ Finishes xs ys := by
  induction xs with
  | nil => exact Iff.rfl
  | cons x xs ih =>
    intro ys
    obtain ⟨hx, hxs⟩ := List.forall_mem_cons.mp h
    rw [List.map_cons, List.forall₂_cons_left_iff, List.forall₂_cons_left_iff]
    simp only [hx, ih hxs]

/-- **Having looked ahead changes nothing of what it takes to finish a value.** -/
theorem finishes_drained_iff (v : Value) : ∀ {w : Value}, v.drained.Finishes w ↔ v.Finishes w := by
  induction v using Value.induction with
  | atom a => exact Iff.rfl
  | list items ih =>
    intro w
    rw [drained_list, finishes_list_iff, finishes_list_iff]
    simp only [forall₂_finishes_drained ih]
  | tuple items ih =>
    intro w
    rw [drained_tuple, finishes_tuple_iff, finishes_tuple_iff]
    simp only [forall₂_finishes_drained ih]
  | dict entries ih =>
    intro w
    have hvalues : (entries.map fun e => (e.1, e.2.drained)).map Prod.snd =
        (entries.map Prod.snd).map drained := by
      rw [List.map_map, List.map_map]
      rfl
    have ih : ∀ x ∈ entries.map Prod.snd, ∀ {w : Value}, x.drained.Finishes w ↔ x.Finishes w := by
      intro x hx
      obtain ⟨e, he, rfl⟩ := List.mem_map.mp hx
      exact ih e he
    rw [drained_dict, finishes_dict_iff, finishes_dict_iff, hvalues, Entries.keys_map]
    simp only [forall₂_finishes_drained ih]
  | iter source ihreplay ihpending =>
    intro w
    have ih : ∀ x ∈ source.remaining, ∀ {w : Value}, x.drained.Finishes w ↔ x.Finishes w := by
      intro x hx
      rcases List.mem_append.mp hx with hx | hx
      · exact ihreplay x hx
      · exact ihpending x hx
    have hremaining : (Pull.mk source.label source.taken (source.remaining.map drained) none
        (source.pulled + source.pending.toList.length)).remaining =
          source.remaining.map drained := List.append_nil _
    rw [drained_iter, finishes_iter_iff, finishes_iter_iff, hremaining]
    simp only [forall₂_finishes_drained ih]
    exact Iff.rfl

/-- Two values that differ only in how far they were looked into are finished alike. -/
theorem Finishes.of_drained_eq (h : v.Finishes w) {u : Value} (hdrained : v.drained = u.drained) :
    u.Finishes w := by
  rw [← finishes_drained_iff, ← hdrained, finishes_drained_iff]
  exact h

end Finishes

end Value

end Ragged
