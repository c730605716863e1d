import Ragged.Proofs.Shape.Steps
import Ragged.Proofs.Value.Sources

/-!
# How far a survey looks ahead

A survey asks of the lazy sources in a value what the hint leaves open, and nothing more.

> With the type given nothing is asked, and what sources would yield makes no difference. With the
> leaf given each source is asked at most once, and what comes behind its first element makes none.
> With nothing given every source is asked until it ends, and has all its elements in its queue.

That less is asked, or that an answer depends on less, is said for errors too, wherever in the value
they come up. So what is asked is told by what a survey makes of a value whether or not it came to
the end (`Value.Looked`); only that everything was drained takes that there was no error.
-/

set_option autoImplicit false

namespace Ragged

namespace Value

/-! ## What makes no difference -/

/-- What survives a look at first elements: containers of the same kind, and leaves of the same
category. Nothing is said of what leaves are, or of the elements of a source behind the first. -/
inductive LooksLike : Value → Value → Prop where
  | atom (a b : Atom) : LooksLike (.atom a) (.atom b)
  | dict (entries entries' : List (String × Value)) : LooksLike (.dict entries) (.dict entries')
  | list {xs ys : List Value} (h : List.Forall₂ LooksLike xs ys) : LooksLike (.list xs) (.list ys)
  | tuple {xs ys : List Value} (h : List.Forall₂ LooksLike xs ys) :
      LooksLike (.tuple xs) (.tuple ys)
  | iter {p q : Pull Value}
      (h : List.Forall₂ LooksLike (p.remaining.take 1) (q.remaining.take 1)) :
      LooksLike (.iter p) (.iter q)

theorem LooksLike.isScalar {v w : Value} (h : v.LooksLike w) : v.isScalar = w.isScalar := by
  cases h <;> rfl

theorem isRecord_of_looksLike {records isTuple : Bool} {xs ys : List Value}
    (h : List.Forall₂ LooksLike xs ys) :
    (Sight.firstOnly records).isRecord isTuple xs =
      (Sight.firstOnly records).isRecord isTuple ys := by
  have hscalars : xs.all Value.isScalar = ys.all Value.isScalar := by
    induction h with
    | nil => rfl
    | cons hxy _ ih => rw [List.all_cons, List.all_cons, hxy.isScalar, ih]
  have hempty : xs.isEmpty = ys.isEmpty := by
    cases h <;> rfl
  cases records with
  | false => rfl
  | true => simp only [Sight.isRecord, hscalars, hempty]

/-- **A survey of first elements ends the same for values that look alike.** -/
theorem survey_of_looksLike {records : Bool} (v : Value) :
    ∀ {w : Value} (depth : Nat) (partly : Bool) (S : Shape), v.LooksLike w →
      (survey (.firstOnly records) depth partly S v).2 =
        (survey (.firstOnly records) depth partly S w).2 := by
  induction v using Value.induction with
  | atom a =>
    intro w depth partly S h
    cases h
    rw [survey_leaf_firstOnly rfl, survey_leaf_firstOnly rfl]
  | dict entries =>
    intro w depth partly S h
    cases h
    rw [survey_leaf_firstOnly rfl, survey_leaf_firstOnly rfl]
  | list xs ih =>
    intro w depth partly S h
    cases h with
    | list hall =>
      rw [survey_list, survey_list, isRecord_of_looksLike hall, hall.length_eq]
      simp only [foldlM_eq_of_forall₂ hall fun x hx y hxy S => ih x hx (depth + 1) partly S hxy]
  | tuple xs ih =>
    intro w depth partly S h
    cases h with
    | tuple hall =>
      rw [survey_tuple, survey_tuple, isRecord_of_looksLike hall, hall.length_eq]
      simp only [foldlM_eq_of_forall₂ hall fun x hx y hxy S => ih x hx (depth + 1) partly S hxy]
  | iter p ihreplay ihpending =>
    intro w depth partly S h
    cases h with
    | @iter _ q hall =>
      rw [survey_source_firstOnly rfl rfl, survey_source_firstOnly rfl rfl]
      -- there is a first element on both sides or on none
      cases hp : p.remaining with
      | nil =>
        cases hq : q.remaining with
        | nil => rfl
        | cons y ys => rw [hp, hq] at hall; exact absurd hall.length_eq (by simp)
      | cons x xs =>
        cases hq : q.remaining with
        | nil => rw [hp, hq] at hall; exact absurd hall.length_eq (by simp)
        | cons y ys =>
          rw [hp, hq] at hall
          have hxy : x.LooksLike y := (List.forall₂_cons.mp hall).1
          have ih : ∀ S, (survey (.firstOnly records) (depth + 1) true S x).2 =
              (survey (.firstOnly records) (depth + 1) true S y).2 := by
            have hx : x ∈ p.remaining := by rw [hp]; exact List.mem_cons_self
            rcases List.mem_append.mp hx with hx | hx
            · exact fun S => ihreplay x hx (depth + 1) true S hxy
            · exact fun S => ihpending x hx (depth + 1) true S hxy
          exact congrArg _ (funext ih)

/-- What comes behind the first elements is not looked at. -/
theorem SameUpTo.looksLike {v w : Value} (h : v.SameUpTo 1 w) : v.LooksLike w := by
  induction v using Value.induction generalizing w with
  | atom a =>
    cases h
    exact .atom a a
  | dict entries =>
    cases h
    exact .dict _ _
  | list xs ih =>
    cases h with
    | list hall => exact .list (forall₂_of_forall_mem ih hall)
  | tuple xs ih =>
    cases h with
    | tuple hall => exact .tuple (forall₂_of_forall_mem ih hall)
  | iter p ihreplay ihpending =>
    cases h with
    | iter hall =>
      have ih : ∀ x ∈ p.remaining.take 1, ∀ {w : Value}, x.SameUpTo 1 w → x.LooksLike w := by
        intro x hx w hxw
        rcases List.mem_append.mp (List.mem_of_mem_take hx) with hx | hx
        · exact ihreplay x hx hxw
        · exact ihpending x hx hxw
      exact .iter (forall₂_of_forall_mem ih hall)

/-- With the dimensions known sources are only noted, whatever they would yield. -/
theorem lengthsBelow_of_sameUpTo {n rank : Nat} (v : Value) :
    ∀ {w : Value} (depth : Nat) (levels : List Level), v.SameUpTo n w →
      lengthsBelow rank depth levels v = lengthsBelow rank depth levels w := by
  induction v using Value.induction with
  | atom a =>
    intro w depth levels h
    cases h
    rfl
  | dict entries =>
    intro w depth levels h
    cases h
    rw [lengthsBelow, lengthsBelow]
  | list xs ih =>
    intro w depth levels h
    cases h with
    | list hall =>
      rw [lengthsBelow_sequence rfl rfl, lengthsBelow_sequence rfl rfl, hall.length_eq,
        foldlM_eq_of_forall₂ hall fun x hx y hxy levels => ih x hx (depth + 1) levels hxy]
  | tuple xs ih =>
    intro w depth levels h
    cases h with
    | tuple hall =>
      rw [lengthsBelow_sequence rfl rfl, lengthsBelow_sequence rfl rfl, hall.length_eq,
        foldlM_eq_of_forall₂ hall fun x hx y hxy levels => ih x hx (depth + 1) levels hxy]
  | iter source =>
    intro w depth levels h
    cases h
    rw [lengthsBelow, lengthsBelow]

/-! ## What is asked -/

/-- Of a source that nothing was asked of, the first element is asked for. -/
theorem fresh_ahead {p : Pull Value} (hp : p.Fresh) (records : Bool) :
    ((Sight.firstOnly records).ahead p).pulled ≤ 1 ∧
      ((Sight.firstOnly records).ahead p).buffered ≤ 1 := by
  obtain ⟨label, s, rfl⟩ := hp
  refine ⟨Pull.pulled_fill_le _ 1, ?_⟩
  rw [Sight.ahead, Pull.buffered, Pull.replay_fill, List.length_append, List.length_take]
  exact Nat.le_trans (Nat.add_le_add_left (Nat.min_le_left ..) 0) (Nat.le_refl 1)

/-- Looking at first elements asks no source twice, if nothing was asked of it before. -/
theorem Looked.eachSource {records : Bool} {v w : Value} (h : v.Looked (.firstOnly records) w) :
    v.EachSource Pull.Fresh → w.EachSource fun p => p.pulled ≤ 1 ∧ p.buffered ≤ 1 := by
  have hfresh : ∀ x : Value, x.EachSource Pull.Fresh →
      x.EachSource fun p => p.pulled ≤ 1 ∧ p.buffered ≤ 1 := by
    refine fun x hx => hx.imp fun p hp => ?_
    obtain ⟨label, s, rfl⟩ := hp
    exact ⟨Nat.zero_le 1, Nat.zero_le 1⟩
  refine @Looked.induction (.firstOnly records) (fun v w => v.EachSource Pull.Fresh →
    w.EachSource fun p => p.pulled ≤ 1 ∧ p.buffered ≤ 1) ?untouched ?list ?tuple ?dict ?iter v w h
  case untouched => exact hfresh
  case list | tuple =>
    intro xs ys hall hxs
    rw [eachSource_iff_of_items? rfl rfl] at hxs ⊢
    intro y hy
    obtain ⟨x, hx, hxy⟩ := exists_of_forall₂ hall.flip y hy
    exact hxy (hxs x hx)
  case dict =>
    intro entries entries' hall hentries
    rw [eachSource_dict_iff] at hentries ⊢
    intro e' he'
    obtain ⟨e, he, -, hvalues⟩ := exists_of_forall₂ hall.flip e' he'
    exact hvalues (hentries e he)
  case iter =>
    intro p queue hall hp
    obtain ⟨hp, hrest⟩ := eachSource_iter_iff.mp hp
    obtain ⟨hpulled, hbuffered⟩ := fresh_ahead hp records
    have hqueue : queue.length ≤ 1 := hall.length_eq ▸ hbuffered
    refine eachSource_iter_iff.mpr ⟨⟨hpulled, hqueue⟩, fun y hy => ?_⟩
    -- what is left was left before it was asked ahead
    have hahead : ∀ x ∈ ((Sight.firstOnly records).ahead p).remaining, x.EachSource Pull.Fresh := by
      rw [Sight.ahead, Pull.remaining_fill]
      exact hrest
    rcases List.mem_append.mp hy with hy | hy
    · obtain ⟨x, hx, hxy⟩ := exists_of_forall₂ hall.flip y hy
      exact hxy (hahead x (List.mem_append_left _ hx))
    · exact hfresh y (hahead y (List.mem_append_right _ hy))

/-- **Looking at first elements, a survey asks no source twice.** -/
theorem eachSource_survey_firstOnly {records : Bool} (v : Value) (hv : v.EachSource Pull.Fresh)
    (depth : Nat) (partly : Bool) (S : Shape) :
    (survey (.firstOnly records) depth partly S v).1.EachSource fun p =>
      p.pulled ≤ 1 ∧ p.buffered ≤ 1 :=
  (looked_survey v depth partly S).eachSource hv

/-- One value after the other, if all goes well. -/
theorem surveyItems_of_ok {items : List Value}
    (h : ∀ x ∈ items, ∀ depth partly S S', (survey .everything depth partly S x).2 = .ok S' →
      (survey .everything depth partly S x).1 = x.drained) (depth : Nat) (partly : Bool) :
    ∀ (S S' : Shape) (done : List Value),
      (surveyItems .everything depth partly S done items).2 = .ok S' →
        (surveyItems .everything depth partly S done items).1 =
          done.reverse ++ items.map drained := by
  induction items with
  | nil =>
    intro S S' done _
    rw [surveyItems, List.map_nil, List.append_nil]
  | cons v rest ih =>
    intro S S' done hok
    obtain ⟨hv, hrest⟩ := List.forall_mem_cons.mp h
    have hv := hv depth partly S
    unfold surveyItems at hok ⊢
    cases hs : survey .everything depth partly S v with
    | mk w outcome =>
      rw [hs] at hv hok
      cases outcome with
      | error e => exact absurd hok (by simp)
      | ok S₁ =>
        obtain rfl : w = v.drained := hv S₁ rfl
        show (surveyItems .everything depth partly S₁ (v.drained :: done) rest).1 = _
        rw [ih hrest S₁ S' (v.drained :: done) hok]
        simp

theorem surveyEntries_of_ok {entries : List (String × Value)}
    (h : ∀ e ∈ entries, ∀ depth partly S S', (survey .everything depth partly S e.2).2 = .ok S' →
      (survey .everything depth partly S e.2).1 = e.2.drained) :
    ∀ (fields fields' : List (String × Shape)) (done : List (String × Value)),
      (surveyEntries .everything fields done entries).2 = .ok fields' →
        (surveyEntries .everything fields done entries).1 =
          done.reverse ++ entries.map fun e => (e.1, e.2.drained) := by
  induction entries with
  | nil =>
    intro fields fields' done _
    rw [surveyEntries, List.map_nil, List.append_nil]
  | cons e rest ih =>
    obtain ⟨key, v⟩ := e
    intro fields fields' done hok
    obtain ⟨hv, hrest⟩ := List.forall_mem_cons.mp h
    have hv := hv 0 false ((Entries.get? fields key).getD Shape.empty)
    unfold surveyEntries at hok ⊢
    cases hs : survey .everything 0 false ((Entries.get? fields key).getD Shape.empty) v with
    | mk w outcome =>
      rw [hs] at hv hok
      cases outcome with
      | error e => exact absurd hok (by simp)
      | ok S₁ =>
        obtain rfl : w = v.drained := hv S₁ rfl
        show (surveyEntries .everything (Entries.put fields key S₁) ((key, v.drained) :: done)
          rest).1 = _
        rw [ih hrest _ fields' ((key, v.drained) :: done) hok]
        simp

/-- **A survey that has looked at everything has drained everything.** -/
theorem survey_fst_of_ok (v : Value) : ∀ (depth : Nat) (partly : Bool) (S S' : Shape),
    (survey .everything depth partly S v).2 = .ok S' →
      (survey .everything depth partly S v).1 = v.drained := by
  induction v using Value.induction with
  | atom a =>
    intro depth partly S S' _
    rw [survey, drained]
  | list xs ih | tuple xs ih =>
    intro depth partly S S' hok
    unfold survey at hok ⊢
    rw [if_neg (by exact Bool.false_ne_true)] at hok ⊢
    cases henter : S.enterContainer depth (noteSequence xs.length partly) with
    | error e => rw [henter] at hok; exact absurd hok (by simp)
    | ok S₁ =>
      rw [henter] at hok
      simp only [drained_list, drained_tuple]
      exact congrArg _ (surveyItems_of_ok ih (depth + 1) partly S₁ S' [] hok)
  | dict entries ih =>
    intro depth partly S S' hok
    unfold survey at hok ⊢
    cases henter : S.enterLeaf depth with
    | error e => rw [henter] at hok; exact absurd hok (by simp)
    | ok S₁ =>
      simp only [henter] at hok ⊢
      cases hfor : S₁.leaf.fieldsFor (Entries.keys entries) with
      | error e => simp only [hfor] at hok; exact absurd hok (by simp)
      | ok fields =>
        simp only [hfor] at hok ⊢
        obtain ⟨fields', hok, -⟩ := map_eq_ok.mp hok
        rw [drained_dict]
        exact congrArg Value.dict (surveyEntries_of_ok ih fields fields' [] hok)
  | iter p ihreplay ihpending =>
    intro depth partly S S' hok
    obtain ⟨label, taken, replay, source, pulled⟩ := p
    have hpending : (Pull.mk label taken replay source pulled).pending = source.getD .nil := rfl
    rw [hpending] at ihpending
    unfold survey at hok ⊢
    cases henter : S.enterContainer depth (noteIterator partly) with
    | error e => rw [henter] at hok; exact absurd hok (by simp)
    | ok S₁ =>
      simp only [henter, surveySource_eq] at hok ⊢
      generalize Shape.mk _ _ _ = S₂ at hok ⊢
      have hfront := surveyItems_of_ok ihreplay (depth + 1) partly S₂
      cases hs : surveyItems .everything (depth + 1) partly S₂ [] replay with
      | mk front outcome =>
        cases outcome with
        | error e => simp only [hs] at hok; exact absurd hok (by simp)
        | ok S₃ =>
          simp only [hs] at hok ⊢
          have hfront : front = replay.map drained := by
            have hfront := hfront S₃ []
            rw [hs] at hfront
            exact hfront rfl
          have hfresh := surveyItems_of_ok ihpending (depth + 1) partly S₃ S' [] hok
          simp [drained_iter, Pull.remaining, Pull.pending, hfront, hfresh]

/-! ## The three modes -/

variable {v : Value}

/-- **With the type given nothing is asked.** -/
theorem shape_full_asks_nothing (hv : v.EachSource Pull.Fresh) (t : ArrayType) :
    (v.shape (.full t)).1 = v ∧ (v.shape (.full t)).1.EachSource (fun p => p.pulled = 0) ∧
      ∀ w, v.SameUpTo 0 w → (w.shape (.full t)).2 = (v.shape (.full t)).2 := by
  refine ⟨rfl, hv.imp fun p hp => ?_, fun w hw => ?_⟩
  · obtain ⟨label, s, rfl⟩ := hp
    rfl
  · simp only [shape, lengthsBelow_of_sameUpTo v 0 [] hw]

/-- **With the leaf given no source is asked twice.** -/
theorem shape_uniform_asks_once (hv : v.EachSource Pull.Fresh) (leaf : LeafType) :
    (v.shape (.uniform leaf)).1.EachSource (fun p => p.pulled ≤ 1 ∧ p.buffered ≤ 1) ∧
      ∀ w, v.SameUpTo 1 w → (w.shape (.uniform leaf)).2 = (v.shape (.uniform leaf)).2 := by
  refine ⟨eachSource_survey_firstOnly v hv 0 false .empty, fun w hw => ?_⟩
  exact (survey_of_looksLike v 0 false .empty hw.looksLike).symm

/-- **With nothing given every source is asked until it ends.** -/
theorem shape_infer_asks_all (hv : v.EachSource Pull.Fresh) {S : Shape}
    (hok : (v.shape .infer).2 = .ok S) :
    (v.shape .infer).1 = v.drained ∧ (v.shape .infer).1.EachSource fun p =>
      ∃ label s, v.Contains (.iter (.ofSupply label s)) ∧
        p = ⟨label, [], s.toList.map drained, none, s.toList.length⟩ := by
  have hfst : (v.shape .infer).1 = v.drained := survey_fst_of_ok v 0 false .empty S hok
  refine ⟨hfst, ?_⟩
  rw [hfst]
  refine (eachSource_drained v).imp fun p hp => ?_
  obtain ⟨source, hsource, rfl⟩ := hp
  obtain ⟨label, s, rfl⟩ := hv source hsource
  exact ⟨label, s, hsource, by simp [Pull.ofSupply, Pull.remaining, Pull.pending]⟩

end Value

/-- **A survey looks no further than the hint makes it.** Of a value whose sources are fresh it is
said for each hint what was asked of them, whether or not there was an error, and what the shape or
the error depends on; and with no hint, that a shape is found only after everything was asked. -/
theorem shape_looks_no_further {v : Value} (hv : v.EachSource Pull.Fresh) :
    (∀ t, (v.shape (.full t)).1 = v ∧
        (v.shape (.full t)).1.EachSource (fun p => p.pulled = 0) ∧
        ∀ w, v.SameUpTo 0 w → (w.shape (.full t)).2 = (v.shape (.full t)).2) ∧
      (∀ leaf, (v.shape (.uniform leaf)).1.EachSource (fun p => p.pulled ≤ 1 ∧ p.buffered ≤ 1) ∧
        ∀ w, v.SameUpTo 1 w → (w.shape (.uniform leaf)).2 = (v.shape (.uniform leaf)).2) ∧
      ∀ S, (v.shape .infer).2 = .ok S →
        (v.shape .infer).1 = v.drained ∧ (v.shape .infer).1.EachSource fun p =>
          ∃ label s, v.Contains (.iter (.ofSupply label s)) ∧
            p = ⟨label, [], s.toList.map Value.drained, none, s.toList.length⟩ :=
  ⟨Value.shape_full_asks_nothing hv, Value.shape_uniform_asks_once hv,
    fun _ hok => Value.shape_infer_asks_all hv hok⟩

/-- A list of two sources, the second of which yields a third behind its first element. With the
leaf given that is not seen, and it could as well yield a mapping there. With nothing given it is:
then the third source is drained too, and the mapping is an error. -/
theorem shape_looks_no_further_nested :
    ∃ v w : Value, v = .list [.iter (.ofSupply 0 (.ofList [.list [.ofInt 1]])),
        .iter (.ofSupply 1 (.ofList
          [.list [.ofInt 2], .iter (.ofSupply 2 (.ofList [.ofInt 3]))]))] ∧
      w = .list [.iter (.ofSupply 0 (.ofList [.list [.ofInt 1]])),
        .iter (.ofSupply 1 (.ofList [.list [.ofInt 2], .dict []]))] ∧
      v.EachSource Pull.Fresh ∧ v.SameUpTo 1 w ∧
      (w.shape (.uniform (.scalar .int32))).2 = (v.shape (.uniform (.scalar .int32))).2 ∧
      (w.shape .infer).2.isOk = false ∧ (v.shape .infer).2.isOk ∧
      (v.shape .infer).1.EachSource (fun p => p.ended) := by
  let inner := Value.iter (.ofSupply 2 (.ofList [.ofInt 3]))
  let first := Value.iter (.ofSupply 0 (.ofList [.list [.ofInt 1]]))
  let second := Value.iter (.ofSupply 1 (.ofList [.list [.ofInt 2], inner]))
  let other := Value.iter (.ofSupply 1 (.ofList [.list [.ofInt 2], .dict []]))
  have hlist : ∀ i, (Value.list [.ofInt i]).EachSource Pull.Fresh := fun i =>
    (Value.eachSource_iff_of_items? rfl rfl).mpr
      (List.forall_mem_singleton.mpr (Value.eachSource_atom _))
  have hinner : inner.EachSource Pull.Fresh := Value.eachSource_iter_iff.mpr
    ⟨⟨2, _, rfl⟩, List.forall_mem_singleton.mpr (Value.eachSource_atom _)⟩
  have hfirst : first.EachSource Pull.Fresh := Value.eachSource_iter_iff.mpr
    ⟨⟨0, _, rfl⟩, List.forall_mem_singleton.mpr (hlist 1)⟩
  have hsecond : second.EachSource Pull.Fresh := Value.eachSource_iter_iff.mpr
    ⟨⟨1, _, rfl⟩, List.forall_mem_cons.mpr ⟨hlist 2, List.forall_mem_singleton.mpr hinner⟩⟩
  have hfresh : (Value.list [first, second]).EachSource Pull.Fresh :=
    (Value.eachSource_iff_of_items? rfl rfl).mpr
      (List.forall_mem_cons.mpr ⟨hfirst, List.forall_mem_singleton.mpr hsecond⟩)
  have hatoms : ∀ i, (Value.list [.ofInt i]).SameUpTo 1 (.list [.ofInt i]) :=
    fun i => .list (.cons (.atom _) .nil)
  have hsame : (Value.list [first, second]).SameUpTo 1 (.list [first, other]) :=
    .list (.cons (.iter (.cons (hatoms 1) .nil)) (.cons (.iter (.cons (hatoms 2) .nil)) .nil))
  obtain ⟨-, huniform, hinfer⟩ := shape_looks_no_further hfresh
  obtain ⟨-, hblind⟩ := huniform (.scalar .int32)
  have hok : ((Value.list [first, second]).shape .infer).2.isOk := by decide +kernel
  obtain ⟨S, hS⟩ : ∃ S, ((Value.list [first, second]).shape .infer).2 = .ok S := by
    cases hs : ((Value.list [first, second]).shape .infer).2 with
    | error e => rw [hs] at hok; exact absurd hok (by simp [Except.isOk, Except.toBool])
    | ok S => exact ⟨S, rfl⟩
  obtain ⟨-, hdrained⟩ := hinfer S hS
  refine ⟨_, _, rfl, rfl, hfresh, hsame, hblind _ hsame, by decide +kernel, hok, ?_⟩
  refine hdrained.imp fun p hp => ?_
  obtain ⟨label, s, -, rfl⟩ := hp
  rfl

end Ragged
