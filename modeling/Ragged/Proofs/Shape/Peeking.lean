import Ragged.Proofs.Shape.Survey
import Ragged.Shape.Resolve

/-!
# What looking at first elements tells

With a hint for the leaf, a survey looks into a lazy source at its first element only. What lengths
the others have it cannot know, so it marks each level where it saw a container below a source, and
a marked level becomes a dimension of any lengths.

It marks the levels that it came to, and no others. An element behind the first may go deeper, and if
a list beside the source goes as deep, the level there is taken to be seen in full. Apart from that
nothing is overlooked:

> if below each source that is looked into a container is seen wherever, so many levels down, there is
> one, then every container of the value, seen or not, has a length that its level allows.

What a value has inside and what a survey sees of it are two relations, `Value.Has` and
`Value.Shows`, and the proof goes along the second while the survey does.
-/

set_option autoImplicit false

namespace Ragged

namespace Value

/-- A value has another inside, so many levels down. -/
inductive Has : Value → Nat → Value → Prop where
  | here (v : Value) : Has v 0 v
  | inside {v x w : Value} {xs : List Value} {k : Nat} (hxs : v.items? = some xs) (hx : x ∈ xs)
      (h : Has x k w) : Has v (k + 1) w

/-- A value shows another inside if only the first element of a source is looked at. The truth value
tells whether the way there leads into a source. -/
inductive Shows : Value → Bool → Nat → Value → Prop where
  | here (v : Value) : Shows v false 0 v
  | inside {v x w : Value} {xs : List Value} {below : Bool} {k : Nat} (hv : v.isIterator = false)
      (hxs : v.items? = some xs) (hx : x ∈ xs) (h : Shows x below k w) : Shows v below (k + 1) w
  | first {v x w : Value} {rest : List Value} {below : Bool} {k : Nat} (hv : v.isIterator = true)
      (hxs : v.items? = some (x :: rest)) (h : Shows x below k w) : Shows v true (k + 1) w

/-- No source that is looked into has a container at a depth at which it shows none. -/
def FirstDeepest (v : Value) : Prop :=
  ∀ below i s, v.Shows below i s → s.isIterator = true → ∀ k w xs, s.Has k w →
    w.items? = some xs → ∃ below' u ys, s.Shows below' k u ∧ u.items? = some ys

theorem Shows.trans {v s u : Value} {below below' : Bool} {i k : Nat} (h : v.Shows below i s)
    (h' : s.Shows below' k u) : v.Shows (below || below') (i + k) u := by
  induction h with
  | here v => rwa [Bool.false_or, Nat.zero_add]
  | inside hv hxs hx _ ih =>
    rw [Nat.add_right_comm]
    exact .inside hv hxs hx (ih h')
  | first hv hxs _ ih =>
    rw [Nat.add_right_comm, Bool.true_or]
    exact .first hv hxs (ih h')

/-- What a source shows is the source itself or is below it. -/
theorem Shows.below_of_iterator {s u : Value} {below : Bool} {k : Nat} (h : s.Shows below k u)
    (hs : s.isIterator = true) : u = s ∧ k = 0 ∨ below = true := by
  cases h with
  | here => exact .inl ⟨rfl, rfl⟩
  | inside hv => exact absurd (hs.symm.trans hv) (by simp)
  | first => exact .inr rfl

theorem Shows.of_none {v w : Value} {below : Bool} {k : Nat} (h : v.Shows below k w)
    (hv : v.items? = none) : w = v := by
  cases h with
  | here => rfl
  | inside _ hxs => exact absurd (hv.symm.trans hxs) (by simp)
  | first _ hxs => exact absurd (hv.symm.trans hxs) (by simp)

/-- What is inside is shown, or it is inside a source that is shown. -/
theorem Has.shown_or {v w : Value} {k : Nat} (h : v.Has k w) : (∃ below, v.Shows below k w) ∨
    ∃ below i j s, k = i + j ∧ v.Shows below i s ∧ s.isIterator = true ∧ s.Has j w := by
  induction h with
  | here v => exact .inl ⟨false, .here v⟩
  | @inside v x w xs k hxs hx h ih =>
    cases hv : v.isIterator with
    | true => exact .inr ⟨false, 0, k + 1, v, (Nat.zero_add _).symm, .here v, hv, .inside hxs hx h⟩
    | false =>
      rcases ih with ⟨below, hw⟩ | ⟨below, i, j, s, rfl, hs, hiter, hw⟩
      · exact .inl ⟨below, .inside hv hxs hx hw⟩
      · exact .inr ⟨below, i + 1, j, s, Nat.add_right_comm i j 1, .inside hv hxs hx hs, hiter, hw⟩

/-! ### Which values show all levels -/

section FirstDeepest

variable {v : Value}

theorem FirstDeepest.of_none (hv : v.items? = none) : v.FirstDeepest := by
  intro below i s hs hiter
  rw [hs.of_none hv] at hiter
  cases v with
  | iter source => exact absurd hv (by simp [items?])
  | _ => exact absurd hiter (by simp [isIterator])

theorem FirstDeepest.of_elements {xs : List Value} (hv : v.isIterator = false)
    (hxs : v.items? = some xs) (hall : ∀ x ∈ xs, x.FirstDeepest) : v.FirstDeepest := by
  intro below i s hs hiter
  cases hs with
  | here => exact absurd (hiter.symm.trans hv) (by simp)
  | inside _ hxs' hx h =>
    obtain rfl := Option.some.inj (hxs.symm.trans hxs')
    exact hall _ hx _ _ s h hiter
  | first hv' => exact absurd (hv.symm.trans hv') (by simp)

/-- Such a value shows a container wherever it has one. -/
theorem FirstDeepest.shows (hv : v.FirstDeepest) {k : Nat} {w : Value} {xs : List Value}
    (hw : v.Has k w) (hxs : w.items? = some xs) :
    ∃ below u ys, v.Shows below k u ∧ u.items? = some ys := by
  rcases hw.shown_or with ⟨below, hshown⟩ | ⟨below, i, j, s, rfl, hs, hiter, hinside⟩
  · exact ⟨below, w, xs, hshown, hxs⟩
  · obtain ⟨below', u, ys, hu, hys⟩ := hv below i s hs hiter j w xs hinside hxs
    exact ⟨_, u, ys, hs.trans hu, hys⟩

/-- The first element of a source shows all levels if no other has one that it does not show. -/
theorem FirstDeepest.of_first {x : Value} {rest : List Value} (hv : v.isIterator = true)
    (hxs : v.items? = some (x :: rest)) (hx : x.FirstDeepest)
    (hrest : ∀ y ∈ rest, ∀ k w ys, y.Has k w → w.items? = some ys →
      ∃ below u zs, x.Shows below k u ∧ u.items? = some zs) : v.FirstDeepest := by
  intro below i s hs hiter k w ys hw hys
  cases hs with
  | here =>
    -- what is inside is in the first element, or in one that has no more levels than that
    cases hw with
    | here => exact ⟨false, v, ys, .here v, hys⟩
    | @inside _ y _ _ k hxs' hy h =>
      obtain rfl := Option.some.inj (hxs.symm.trans hxs')
      have hshows : ∃ below u zs, x.Shows below k u ∧ u.items? = some zs := by
        rcases List.mem_cons.mp hy with rfl | hy
        · exact hx.shows h hys
        · exact hrest y hy k w ys h hys
      obtain ⟨below, u, zs, hu, hzs⟩ := hshows
      exact ⟨true, u, zs, .first hv hxs hu, hzs⟩
  | inside hv' => exact absurd (hv.symm.trans hv') (by simp)
  | first _ hxs' h =>
    obtain ⟨rfl, -⟩ := List.cons.inj (Option.some.inj (hxs.symm.trans hxs'))
    exact hx _ _ s h hiter k w ys hw hys

end FirstDeepest

end Value

/-! ## Levels that allow any length -/

namespace Shape

/-- The level there becomes a dimension of any lengths. -/
def Open (S : Shape) (depth : Nat) : Prop :=
  ∃ l, S.levels[depth]? = some l ∧ (l.fromIterator || l.partly) = true

/-- Nothing that the levels tell is lost. -/
structure Keeps (S S' : Shape) : Prop where
  isOpen : ∀ depth, S.Open depth → S'.Open depth
  saw : ∀ depth n, S.Saw depth n → S'.Saw depth n

theorem Keeps.refl (S : Shape) : S.Keeps S := ⟨fun _ h => h, fun _ _ h => h⟩

theorem Keeps.trans {S S₁ S₂ : Shape} (h : S.Keeps S₁) (h' : S₁.Keeps S₂) : S.Keeps S₂ :=
  ⟨fun depth hd => h'.isOpen depth (h.isOpen depth hd),
    fun depth n hn => h'.saw depth n (h.saw depth n hn)⟩

theorem Keeps.of_levels {S S' : Shape} (h : S'.levels = S.levels) : S.Keeps S' := by
  constructor
  · rintro depth ⟨l, hl, hopen⟩
    exact ⟨l, h ▸ hl, hopen⟩
  · rintro depth n ⟨l, hl, hn⟩
    exact ⟨l, h ▸ hl, hn⟩

/-- A level changes, stays open if it was and forgets no length. -/
theorem keeps_updateLevel {S : Shape} {f : Level → Level} (depth : Nat)
    (hopen : ∀ l, (l.fromIterator || l.partly) = true →
      ((f l).fromIterator || (f l).partly) = true)
    (hsaw : ∀ l n, l.lengths.Includes n → (f l).lengths.Includes n) :
    S.Keeps { S with levels := updateLevel f depth S.levels } where
  isOpen := by
    rintro i ⟨l, hl, hl'⟩
    by_cases hi : i = depth
    · subst hi
      refine ⟨f l, ?_, hopen l hl'⟩
      rw [getElem?_updateLevel_self, hl]
      rfl
    · exact ⟨l, getElem?_updateLevel_of_ne hi hl, hl'⟩
  saw := (below_updateLevel hsaw).saw

theorem levels_of_enterLeaf {S S' : Shape} {depth : Nat} (h : S.enterLeaf depth = .ok S') :
    S'.levels = S.levels := by
  have hhere : ∀ {T : Shape},
      (if depth < S.levels.length then .error (.shape (.leafAmongContainers depth))
        else .ok { S with leafDepth := some depth } : Except BuildError Shape) = .ok T →
      T.levels = S.levels := by
    intro T hT
    split at hT
    · exact absurd hT (by simp)
    · rw [← Except.ok.inj hT]
  simp only [enterLeaf] at h
  split at h
  · split at h
    · exact hhere h
    · exact absurd h (by simp)
  · exact hhere h

end Shape

/-! ## Going through what is shown -/

namespace Value

/-- The levels tell of the containers that the value shows: that there is a source or something below
one, and the lengths of sequences. -/
def Noted (v : Value) (partly : Bool) (depth : Nat) (S : Shape) : Prop :=
  ∀ below k w xs, v.Shows below k w → w.items? = some xs →
    ((partly || below || w.isIterator) = true → S.Open (depth + k)) ∧
      (w.isIterator = false → S.Saw (depth + k) xs.length)

theorem Noted.keep {v : Value} {partly : Bool} {depth : Nat} {S S' : Shape}
    (h : v.Noted partly depth S) (hkeeps : S.Keeps S') : v.Noted partly depth S' := by
  intro below k w xs hw hxs
  obtain ⟨hopen, hsaw⟩ := h below k w xs hw hxs
  exact ⟨fun ho => hkeeps.isOpen _ (hopen ho), fun hs => hkeeps.saw _ _ (hsaw hs)⟩

theorem noted_of_none {v : Value} (hv : v.items? = none) (partly : Bool) (depth : Nat) (S : Shape) :
    v.Noted partly depth S := by
  intro below k w xs hw hxs
  rw [hw.of_none hv] at hxs
  exact absurd (hv.symm.trans hxs) (by simp)

/-- Looking at first elements, a survey that goes well notes what the value shows. -/
def Peeked (v : Value) : Prop :=
  ∀ (depth : Nat) (partly : Bool) (S S' : Shape),
    (survey (.firstOnly false) depth partly S v).2 = .ok S' →
      S.Keeps S' ∧ v.Noted partly depth S'

theorem noted_of_foldlM {items : List Value} (h : ∀ x ∈ items, x.Peeked) {depth : Nat}
    {partly : Bool} :
    ∀ {S S' : Shape},
      items.foldlM (fun S x => (survey (.firstOnly false) depth partly S x).2) S = .ok S' →
        S.Keeps S' ∧ ∀ x ∈ items, x.Noted partly depth S' := by
  induction items with
  | nil =>
    intro S S' hok
    obtain rfl := Except.ok.inj hok
    exact ⟨.refl S, fun _ hx => absurd hx List.not_mem_nil⟩
  | cons v rest ih =>
    intro S S' hok
    obtain ⟨hv, hrest⟩ := List.forall_mem_cons.mp h
    obtain ⟨S₁, hfirst, hok⟩ := foldlM_cons_eq_ok.mp hok
    obtain ⟨hkeeps, hnoted⟩ := hv depth partly S S₁ hfirst
    obtain ⟨hkeeps', hnoted'⟩ := ih hrest hok
    exact ⟨hkeeps.trans hkeeps', List.forall_mem_cons.mpr ⟨hnoted.keep hkeeps', hnoted'⟩⟩

/-- A sequence is noted when its length is, and its elements are. -/
theorem noted_of_elements {v : Value} {xs : List Value} (hv : v.isIterator = false)
    (hxs : v.items? = some xs) {partly : Bool} {depth : Nat} {S : Shape}
    (hopen : partly = true → S.Open depth) (hsaw : S.Saw depth xs.length)
    (hall : ∀ x ∈ xs, x.Noted partly (depth + 1) S) : v.Noted partly depth S := by
  intro below k w ys hw hys
  cases hw with
  | here =>
    obtain rfl := Option.some.inj (hxs.symm.trans hys)
    exact ⟨fun hflag => hopen (by simpa [hv] using hflag), fun _ => hsaw⟩
  | @inside _ _ _ _ _ k _ hxs' hx h =>
    obtain rfl := Option.some.inj (hxs.symm.trans hxs')
    have hdepth : depth + (k + 1) = depth + 1 + k := by omega
    rw [hdepth]
    exact hall _ hx below k w ys h hys
  | first hiter => exact absurd (hv.symm.trans hiter) (by simp)

/-- A source is noted when it is known for one, and its first element is noted as below it. -/
theorem noted_of_first {v : Value} (hv : v.isIterator = true) {partly : Bool} {depth : Nat}
    {S : Shape} (hopen : S.Open depth)
    (hfirst : ∀ x rest, v.items? = some (x :: rest) → x.Noted true (depth + 1) S) :
    v.Noted partly depth S := by
  intro below k w ys hw hys
  cases hw with
  | here => exact ⟨fun _ => hopen, fun hsequence => absurd (hv.symm.trans hsequence) (by simp)⟩
  | inside hsequence => exact absurd (hv.symm.trans hsequence) (by simp)
  | @first _ _ _ _ below k _ hxs h =>
    have hdepth : depth + (k + 1) = depth + 1 + k := by omega
    rw [hdepth]
    obtain ⟨hbelow, hsaw⟩ := hfirst _ _ hxs below k w ys h hys
    exact ⟨fun _ => hbelow rfl, hsaw⟩

/-- **A survey notes whatever it sees.** -/
theorem peeked (v : Value) : v.Peeked := by
  have hleaf : ∀ {v : Value}, v.items? = none → v.Peeked := by
    intro v hv depth partly S S' hok
    rw [survey_leaf_firstOnly hv] at hok
    exact ⟨.of_levels (Shape.levels_of_enterLeaf hok), noted_of_none hv partly depth S'⟩
  induction v using Value.inductElements with
  | atom a => exact hleaf rfl
  | dict entries _ => exact hleaf rfl
  | elements v xs hxs ih =>
    intro depth partly S S' hok
    cases hv : v.isIterator with
    | false =>
      obtain ⟨isTuple, hs⟩ := survey_sequence (.firstOnly false) depth partly S hv hxs
      rw [hs, if_neg (by exact Bool.false_ne_true)] at hok
      obtain ⟨S₁, henter, hok⟩ := bind_eq_ok.mp hok
      obtain ⟨-, rfl⟩ := Shape.enterContainer_eq_ok henter
      obtain ⟨hkeeps, hall⟩ := noted_of_foldlM ih hok
      -- a sequence notes its length, and its elements forget nothing of that
      have hlevel := Shape.getElem?_updateLevel_self (f := noteSequence xs.length partly) depth
        S.levels
      have hkeeps' := Shape.keeps_updateLevel (S := S) (f := noteSequence xs.length partly) depth
        (fun l hl => by simp only [noteSequence]; cases partly <;> simp_all)
        (fun l n hn => Lengths.includes_observe (.inr hn))
      refine ⟨hkeeps'.trans hkeeps, noted_of_elements hv hxs (fun hpartly => ?_) ?_ hall⟩
      · exact hkeeps.isOpen depth ⟨_, hlevel, by simp [noteSequence, hpartly]⟩
      · exact hkeeps.saw depth _ ⟨_, hlevel, Lengths.includes_observe (.inl rfl)⟩
    | true =>
      rw [survey_source_firstOnly hv hxs] at hok
      obtain ⟨S₁, henter, hok⟩ := bind_eq_ok.mp hok
      obtain ⟨-, rfl⟩ := Shape.enterContainer_eq_ok henter
      -- a source opens its level, and all levels below that its first element comes to
      have hlevel := Shape.getElem?_updateLevel_self (f := noteIterator partly) depth S.levels
      have hkeeps := Shape.keeps_updateLevel (S := S) (f := noteIterator partly) depth
        (fun l _ => rfl) (fun l n hn => hn)
      cases xs with
      | nil =>
        obtain rfl := Except.ok.inj hok
        refine ⟨hkeeps, noted_of_first hv ⟨_, hlevel, rfl⟩ fun x rest hx => ?_⟩
        exact absurd (hxs.symm.trans hx) (by simp)
      | cons first rest =>
        obtain ⟨hkeeps', hnoted⟩ := ih first List.mem_cons_self (depth + 1) true _ _ hok
        refine ⟨hkeeps.trans hkeeps', noted_of_first hv (hkeeps'.isOpen depth ⟨_, hlevel, rfl⟩) ?_⟩
        intro x rest' hx
        obtain ⟨rfl, -⟩ := List.cons.inj (Option.some.inj (hxs.symm.trans hx))
        exact hnoted

end Value

/-! ## The levels of all containers -/

/-- The level there allows for containers of the length. -/
def Shape.Allows (S : Shape) (depth n : Nat) : Prop := S.Open depth ∨ S.Saw depth n

/-- **Where first elements show all levels, every container has a length that its level allows**,
whether or not it was seen. -/
theorem Value.FirstDeepest.allows {v : Value} (hv : v.FirstDeepest) {S : Shape}
    (hS : (v.survey (.firstOnly false) 0 false .empty).2 = .ok S) {k : Nat} {w : Value}
    {xs : List Value} (hw : v.Has k w) (hxs : w.items? = some xs) : S.Allows k xs.length := by
  obtain ⟨-, hnoted⟩ := v.peeked 0 false .empty S hS
  rw [← Nat.zero_add k]
  rcases hw.shown_or with ⟨below, hshown⟩ | ⟨below, i, j, s, rfl, hs, hiter, hinside⟩
  · obtain ⟨hopen, hsaw⟩ := hnoted below k w xs hshown hxs
    cases hsequence : w.isIterator with
    | true => exact .inl (hopen (by rw [hsequence, Bool.or_true]))
    | false => exact .inr (hsaw hsequence)
  · -- the source shows a container as deep down, and its level is open
    obtain ⟨below', u, ys, hu, hys⟩ := hv below i s hs hiter j w xs hinside hxs
    refine .inl ((hnoted _ _ u ys (hs.trans hu) hys).1 ?_)
    rcases hu.below_of_iterator hiter with ⟨rfl, -⟩ | rfl
    · rw [hiter, Bool.or_true]
    · rw [Bool.or_true, Bool.or_true, Bool.true_or]

/-- A dimension of fixed extent is of a level that allows for no other length. -/
theorem Shape.length_of_allows {S : Shape} {depth n m : Nat} (h : S.Allows depth n)
    (hm : S.dimensions[depth]? = some (.fixed m)) : n = m := by
  have hlevel : ∀ l, S.levels[depth]? = some l → l.dimension = .fixed m := by
    intro l hl
    have hlt : depth < S.levels.length := (List.getElem?_eq_some_iff.mp hl).1
    rw [dimensions, List.getElem?_map, List.getElem?_take] at hm
    split at hm
    · rw [List.getElem?_append_left hlt, hl] at hm
      exact Option.some.inj hm
    · exact absurd hm (by simp)
  rcases h with ⟨l, hl, hopen⟩ | ⟨l, hl, hn⟩
  · have hd := hlevel l hl
    rw [Level.dimension, if_pos hopen] at hd
    exact absurd hd (by simp)
  · have hd := hlevel l hl
    unfold Level.dimension at hd
    split at hd
    · exact absurd hd (by simp)
    · cases hlengths : l.lengths with
      | unseen => rw [hlengths] at hn; exact hn.elim
      | all k =>
        rw [hlengths] at hd hn
        exact hn.trans (Dimension.fixed.inj hd)
      | between lo hi => rw [hlengths] at hd; exact absurd hd (by simp)

end Ragged
