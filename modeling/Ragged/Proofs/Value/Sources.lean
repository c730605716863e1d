import Ragged.Proofs.Value.Contained

/-!
# The sources inside a value

A lazy source can stand anywhere in a value: in a sequence, under a key of a mapping, in the queue
of another source or among what that one has yet to yield. `Value.EachSource` says something of all
of them. It is said of the value by saying it of the sources that it is or holds, one lemma for each
kind of value.

Two values can differ in what their sources yield behind the first so many elements and nowhere else
(`Value.SameUpTo`). That is how it is said what somebody who looks no further cannot tell apart.
-/

set_option autoImplicit false

namespace Ragged

/-- Nothing was asked of the source yet. -/
def Pull.Fresh {α : Type} (p : Pull α) : Prop := ∃ label s, p = .ofSupply label s

namespace Value

/-- The condition holds of every lazy source inside the value. -/
def EachSource (P : Pull Value → Prop) (v : Value) : Prop := ∀ p, v.Contains (.iter p) → P p

/-- The values differ at most in what their sources yield behind the first `n` elements. -/
inductive SameUpTo (n : Nat) : Value → Value → Prop where
  | atom (a : Atom) : SameUpTo n (.atom a) (.atom a)
  | list {xs ys : List Value} (h : List.Forall₂ (SameUpTo n) xs ys) :
      SameUpTo n (.list xs) (.list ys)
  | tuple {xs ys : List Value} (h : List.Forall₂ (SameUpTo n) xs ys) :
      SameUpTo n (.tuple xs) (.tuple ys)
  | dict {entries entries' : List (String × Value)}
      (hkeys : Entries.keys entries = Entries.keys entries')
      (hvalues : List.Forall₂ (SameUpTo n) (entries.map Prod.snd) (entries'.map Prod.snd)) :
      SameUpTo n (.dict entries) (.dict entries')
  | iter {p q : Pull Value}
      (h : List.Forall₂ (SameUpTo n) (p.remaining.take n) (q.remaining.take n)) :
      SameUpTo n (.iter p) (.iter q)

section EachSource

variable {P Q : Pull Value → Prop} {v : Value}

theorem EachSource.imp (h : v.EachSource P) (hPQ : ∀ p, P p → Q p) : v.EachSource Q :=
  fun p hp => hPQ p (h p hp)

theorem eachSource_atom (a : Atom) : (atom a).EachSource P :=
  fun _ hp => absurd (contains_atom_iff.mp hp) (by simp)

theorem eachSource_iff_of_items? {xs : List Value} (hv : v.isIterator = false)
    (hxs : v.items? = some xs) : v.EachSource P ↔ ∀ x ∈ xs, x.EachSource P := by
  constructor
  · exact fun h x hx p hp => h p (.element hxs hx hp)
  · intro h p hp
    rcases (contains_iff_of_items? hxs).mp hp with rfl | ⟨x, hx, hp⟩
    · exact absurd hv (by simp [isIterator])
    · exact h x hx p hp

theorem eachSource_dict_iff {entries : List (String × Value)} :
    (dict entries).EachSource P ↔ ∀ e ∈ entries, e.2.EachSource P := by
  constructor
  · exact fun h e he p hp => h p (.entry he hp)
  · intro h p hp
    rcases contains_dict_iff.mp hp with heq | ⟨e, he, hp⟩
    · exact absurd heq (by simp)
    · exact h e he p hp

/-- A source is one itself, and others are inside what it has left. -/
theorem eachSource_iter_iff {source : Pull Value} :
    (iter source).EachSource P ↔ P source ∧ ∀ x ∈ source.remaining, x.EachSource P := by
  constructor
  · exact fun h => ⟨h source (.here _), fun x hx p hp => h p (.element rfl hx hp)⟩
  · rintro ⟨hsource, h⟩ p hp
    rcases (contains_iff_of_items? rfl).mp hp with heq | ⟨x, hx, hp⟩
    · rwa [← Value.iter.inj heq]
    · exact h x hx p hp

/-- **Looked through to its end, a source has all it had left in its queue**, in the order in which
it was to come. -/
theorem eachSource_drained (v : Value) : v.drained.EachSource fun p =>
    ∃ source, v.Contains (.iter source) ∧ p = ⟨source.label, source.taken,
      source.remaining.map drained, none, source.pulled + source.pending.toList.length⟩ := by
  intro p hp
  obtain ⟨w, hw, hdrained⟩ := hp.of_map preserves_drained rfl
  obtain ⟨source, rfl⟩ := exists_source (v := w) (by rw [← isIterator_drained, hdrained]; rfl)
  refine ⟨source, hw, ?_⟩
  rw [drained_iter] at hdrained
  exact (Value.iter.inj hdrained).symm

end EachSource

end Value

end Ragged
