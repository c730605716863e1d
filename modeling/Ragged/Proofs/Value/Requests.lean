import Mathlib.Data.List.Forall2
import Mathlib.Logic.Relation
import Ragged.Proofs.Value.Drained
import Ragged.Proofs.Value.Sessions

/-!
# One request after the other

Looking ahead and handing out are defined by what they come to: so many elements of a supply at
once. A real source is asked for one element at a time, as in a `Session`. `Pull.Step` is the least
that can happen to a source, and only one that has not told of its end can be asked; `Value.Step` is
that for some source inside a value, also inside an element that has been handed out or waits in a
queue.

> Whatever is done to a value here is a run of such steps (`Value.Runs`).

So no source is asked again after its end, and elements come, and are handed out, in the order in
which the source yields them. How often a source has been asked can be told from its state:
`Pull.asked`, which one request makes one more.
-/

set_option autoImplicit false

namespace Ragged

open Relation (ReflTransGen)

/-! ## Sources -/

/-- Nothing passed over. -/
theorem Supply.drop_zero {α : Type} (s : Supply α) : s.drop 0 = s := by cases s <;> rfl

theorem Supply.drop_drop {α : Type} (s : Supply α) (m n : Nat) :
    (s.drop m).drop n = s.drop (m + n) := by
  rw [← ofList_toList ((s.drop m).drop n), toList_drop, toList_drop, List.drop_drop, ← toList_drop,
    ofList_toList]

namespace Pull

section Step

variable {α : Type}

/-- How often the source was asked: once for each element that it has yielded, and once more when it
told that there are no more. -/
def asked (p : Pull α) : Nat := p.pulled + if p.ended then 1 else 0

/-- The least that can happen to a source: it is asked, and yields an element or tells that there
are no more, or the first element of the queue is handed out. -/
inductive Step : Pull α → Pull α → Prop
  | yields (label : Nat) (taken replay : List α) (x : α) (rest : Supply.Ask → Supply α)
      (pulled : Nat) : Step ⟨label, taken, replay, some (.cons x rest), pulled⟩
        ⟨label, taken, replay ++ [x], some (rest ⟨⟩), pulled + 1⟩
  | ends (label : Nat) (taken replay : List α) (pulled : Nat) :
      Step ⟨label, taken, replay, some .nil, pulled⟩ ⟨label, taken, replay, none, pulled⟩
  | handsOut (label : Nat) (taken : List α) (x : α) (replay : List α) (source : Option (Supply α))
      (pulled : Nat) : Step ⟨label, taken, x :: replay, source, pulled⟩
        ⟨label, taken ++ [x], replay, source, pulled⟩

/-- **A source that has ended is not asked again**, and any other at most once in a step. -/
theorem Step.asked {p q : Pull α} (h : p.Step q) :
    q.asked = p.asked ∧ q.ended = p.ended ∨ p.ended = false ∧ q.asked = p.asked + 1 := by
  cases h with
  | yields => exact .inr ⟨rfl, rfl⟩
  | ends => exact .inr ⟨rfl, rfl⟩
  | handsOut => exact .inl ⟨rfl, rfl⟩

/-- Asking takes a step each time, until there are no more. -/
theorem steps_askFor (k : Nat) : ∀ w : Session α, ReflTransGen Step w.pull (w.askFor k).pull := by
  induction k with
  | zero => exact fun _ => .refl
  | succ k ih =>
    intro w
    obtain ⟨⟨label, taken, replay, source, pulled⟩, replies, returned⟩ := w
    cases source with
    | none => exact .refl
    | some s => cases s with
      | nil => exact .single (.ends label taken replay pulled)
      | cons a rest =>
        exact .head (.yields label taken replay a rest pulled)
          (ih ⟨⟨label, taken, replay ++ [a], some (rest ⟨⟩), pulled + 1⟩, _, _⟩)

theorem steps_bufferAll (p : Pull α) : ReflTransGen Step p p.bufferAll := by
  have hpull : _ = p.bufferAll := Session.pull_askAll ⟨p, [], []⟩
  rw [← hpull, Session.askAll_eq]
  exact steps_askFor _ ⟨p, [], []⟩

/-- **Filling the queue asks for as many elements as are missing in it**, one by one. -/
theorem steps_fill (p : Pull α) (n : Nat) : ReflTransGen Step p (p.fill n) := by
  have hpull : _ = p.fill n := Session.pull_fill n ⟨p, [], []⟩
  rw [← hpull]
  exact steps_askFor _ ⟨p, [], []⟩

/-- Some elements handed out, and then others. -/
theorem handOut_handOut (p : Pull α) (xs ys : List α) (atEnd : Bool) :
    (p.handOut xs false).handOut ys atEnd = p.handOut (xs ++ ys) atEnd := by
  have hfresh : xs.length - p.replay.length + (ys.length - (p.replay.length - xs.length)) =
      xs.length + ys.length - p.replay.length := by
    omega
  have hsource : (p.source.map (·.drop (xs.length - p.replay.length))).map
      (·.drop (ys.length - (p.replay.length - xs.length))) =
        p.source.map (·.drop (xs.length + ys.length - p.replay.length)) := by
    rw [Option.map_map, ← hfresh]
    congr 1
    funext s
    exact s.drop_drop _ _
  simp only [handOut, List.append_assoc, List.drop_drop, List.length_drop, List.length_append,
    Nat.add_assoc, Bool.false_eq_true, if_false, hsource, hfresh]

end Step

end Pull

/-! ## Values -/

/-- A step of some source inside the value, or of one inside an element it has yielded. -/
inductive Value.Step : Value → Value → Prop
  | source {p q : Pull Value} (h : p.Step q) : Step (.iter p) (.iter q)
  | taken {p : Pull Value} {pre post : List Value} {x y : Value} (h : Step x y) :
      Step (.iter { p with taken := pre ++ x :: post }) (.iter { p with taken := pre ++ y :: post })
  | queue {p : Pull Value} {pre post : List Value} {x y : Value} (h : Step x y) :
      Step (.iter { p with replay := pre ++ x :: post })
        (.iter { p with replay := pre ++ y :: post })
  | list {pre post : List Value} {x y : Value} (h : Step x y) :
      Step (.list (pre ++ x :: post)) (.list (pre ++ y :: post))
  | tuple {pre post : List Value} {x y : Value} (h : Step x y) :
      Step (.tuple (pre ++ x :: post)) (.tuple (pre ++ y :: post))
  | dict {pre post : List (String × Value)} {key : String} {x y : Value} (h : Step x y) :
      Step (.dict (pre ++ (key, x) :: post)) (.dict (pre ++ (key, y) :: post))

/-- Any number of steps. -/
abbrev Value.Runs : Value → Value → Prop := ReflTransGen Value.Step

namespace Value

/-- Each of some parts goes on by itself, one after the other. -/
theorem runs_of_forall₂ {α : Type} {r : α → α → Prop} {context : List α → Value}
    (hcontext : ∀ pre x y post, r x y →
      (context (pre ++ x :: post)).Step (context (pre ++ y :: post))) {xs ys : List α}
    (h : List.Forall₂ (ReflTransGen r) xs ys) : (context xs).Runs (context ys) := by
  have hpre : ∀ pre, (context (pre ++ xs)).Runs (context (pre ++ ys)) := by
    induction h with
    | nil => exact fun _ => .refl
    | @cons x y xs ys hxy _ ih =>
      intro pre
      have hfirst : (context (pre ++ x :: xs)).Runs (context (pre ++ y :: xs)) :=
        hxy.lift (fun z => context (pre ++ z :: xs)) fun a b => hcontext pre a b xs
      have hrest := ih (pre ++ [y])
      rw [List.append_assoc, List.append_assoc, List.singleton_append, List.singleton_append] at hrest
      exact hfirst.trans hrest
  exact hpre []

section Parts

variable {xs ys : List Value}

theorem runs_list (h : List.Forall₂ Runs xs ys) : (list xs).Runs (.list ys) :=
  runs_of_forall₂ (fun _ _ _ _ => .list) h

theorem runs_tuple (h : List.Forall₂ Runs xs ys) : (tuple xs).Runs (.tuple ys) :=
  runs_of_forall₂ (fun _ _ _ _ => .tuple) h

theorem runs_queue (p : Pull Value) (h : List.Forall₂ Runs xs ys) :
    (iter { p with replay := xs }).Runs (.iter { p with replay := ys }) :=
  @runs_of_forall₂ _ _ (fun xs => iter { p with replay := xs }) (fun _ _ _ _ => .queue) _ _ h

theorem runs_dict {entries entries' : List (String × Value)}
    (h : List.Forall₂ (fun e e' => e.1 = e'.1 ∧ e.2.Runs e'.2) entries entries') :
    (dict entries).Runs (.dict entries') := by
  refine @runs_of_forall₂ _ (fun e e' => e.1 = e'.1 ∧ e.2.Step e'.2) dict ?_ _ _ (h.imp ?_)
  · rintro pre ⟨key, x⟩ ⟨_, y⟩ post ⟨rfl, hxy⟩
    exact .dict hxy
  · rintro ⟨key, x⟩ ⟨_, y⟩ ⟨rfl, hxy⟩
    exact hxy.lift (fun z => (key, z)) fun a b hab => ⟨rfl, hab⟩

theorem runs_source {p q : Pull Value} (h : ReflTransGen Pull.Step p q) :
    (iter p).Runs (.iter q) :=
  h.lift Value.iter fun _ _ => .source

end Parts

/-! ## What a run keeps -/

/-- A step leaves a source the source it is, and does not ask one that has ended. -/
theorem Step.iter {p : Pull Value} {w : Value} (h : (iter p).Step w) :
    ∃ q, w = .iter q ∧ q.label = p.label ∧ p.asked ≤ q.asked ∧
      (p.ended = true → q.ended = true ∧ q.asked = p.asked) := by
  cases h with
  | @source _ q h =>
    have hlabel : q.label = p.label := by cases h <;> rfl
    refine ⟨q, rfl, hlabel, ?_, fun hended => ?_⟩
    · rcases h.asked with ⟨hasked, -⟩ | ⟨-, hasked⟩ <;> omega
    · rcases h.asked with ⟨hasked, hsame⟩ | ⟨hlive, -⟩
      · exact ⟨hsame.trans hended, hasked⟩
      · exact absurd (hlive.symm.trans hended) (by simp)
  | taken h => exact ⟨_, rfl, rfl, Nat.le_refl _, fun hended => ⟨hended, rfl⟩⟩
  | queue h => exact ⟨_, rfl, rfl, Nat.le_refl _, fun hended => ⟨hended, rfl⟩⟩

/-- **Once a source has ended it is never asked again.** Induction on the run; that it has ended is
kept too. -/
theorem Runs.iter {p : Pull Value} {w : Value} (h : (iter p).Runs w) :
    ∃ q, w = .iter q ∧ q.label = p.label ∧ p.asked ≤ q.asked ∧
      (p.ended = true → q.ended = true ∧ q.asked = p.asked) := by
  induction h with
  | refl => exact ⟨p, rfl, rfl, Nat.le_refl _, fun hended => ⟨hended, rfl⟩⟩
  | tail _ hstep ih =>
    obtain ⟨q, rfl, hlabel, hle, hkept⟩ := ih
    obtain ⟨q', rfl, hlabel', hle', hkept'⟩ := hstep.iter
    refine ⟨q', rfl, hlabel'.trans hlabel, Nat.le_trans hle hle', fun hended => ?_⟩
    obtain ⟨hended', hasked⟩ := hkept hended
    obtain ⟨hended'', hasked'⟩ := hkept' hended'
    exact ⟨hended'', hasked'.trans hasked⟩

/-! ## Handing out -/

section HandOut

variable {p : Pull Value} {x y : Value} {xs ys rest : List Value} {atEnd : Bool}

/-- The next element is handed out, and then goes on where it is. -/
theorem runs_handOut_one (hrem : p.remaining = x :: xs) (h : x.Runs y) :
    (iter p).Runs (.iter (p.handOut [y] false)) := by
  obtain ⟨label, taken, replay, source, pulled⟩ := p
  have hinside : ∀ replay source pulled,
      (iter ⟨label, taken ++ [x], replay, source, pulled⟩).Runs
        (.iter ⟨label, taken ++ [y], replay, source, pulled⟩) := by
    intro replay source pulled
    exact h.lift (fun z => iter ⟨label, taken ++ [z], replay, source, pulled⟩) fun _ _ hab =>
      @Step.taken ⟨label, [], replay, source, pulled⟩ taken [] _ _ hab
  cases replay with
  | cons first replay =>
    obtain ⟨rfl, -⟩ := List.cons.inj hrem
    have hsource : source.map (·.drop 0) = source := by
      cases source with
      | none => rfl
      | some s => rw [Option.map_some, Supply.drop_zero]
    have hhand : Pull.handOut ⟨label, taken, first :: replay, source, pulled⟩ [y] false =
        ⟨label, taken ++ [y], replay, source, pulled⟩ := by
      simp [Pull.handOut, hsource]
    rw [hhand]
    exact .head (.source (.handsOut label taken first replay source pulled)) (hinside _ _ _)
  | nil =>
    cases source with
    | none => exact absurd hrem (by simp [Pull.remaining, Pull.pending])
    | some s =>
      cases s with
      | nil => exact absurd hrem (by simp [Pull.remaining, Pull.pending])
      | cons first rest =>
        have hfirst : first = x ∧ (rest ⟨⟩).toList = xs := by
          simpa [Pull.remaining, Pull.pending] using hrem
        obtain ⟨rfl, -⟩ := hfirst
        have hhand : Pull.handOut ⟨label, taken, [], some (.cons first rest), pulled⟩ [y] false =
            ⟨label, taken ++ [y], [], some (rest ⟨⟩), pulled + 1⟩ := by
          simp [Pull.handOut, Supply.drop]
        rw [hhand]
        exact .head (.source (.yields label taken [] first rest pulled))
          (.head (.source (.handsOut label taken first [] _ _)) (hinside _ _ _))

/-- Asked when nothing is left, a source tells of its end, if it did not before. -/
theorem runs_handOut_nil (hend : atEnd = true → p.remaining = []) :
    (iter p).Runs (.iter (p.handOut [] atEnd)) := by
  obtain ⟨label, taken, replay, source, pulled⟩ := p
  cases atEnd with
  | false =>
    have hsame : Pull.handOut ⟨label, taken, replay, source, pulled⟩ [] false =
        ⟨label, taken, replay, source, pulled⟩ := by
      cases source <;> simp [Pull.handOut, Supply.drop_zero]
    rw [hsame]
  | true =>
    have hnil : replay = [] ∧ (source.getD .nil).toList = [] := List.append_eq_nil_iff.mp (hend rfl)
    obtain ⟨rfl, hpending⟩ := hnil
    have hhand : Pull.handOut ⟨label, taken, [], source, pulled⟩ [] true =
        ⟨label, taken, [], none, pulled⟩ := by
      simp [Pull.handOut]
    rw [hhand]
    cases source with
    | none => exact .refl
    | some s =>
      cases s with
      | nil => exact .single (.source (.ends label taken [] pulled))
      | cons first rest => exact absurd hpending (by simp)

/-- **Elements are handed out one by one**, each after what was done with the one before, and at the
end the source is asked once more. -/
theorem runs_handOut (h : List.Forall₂ Runs xs ys) :
    ∀ {p : Pull Value}, p.remaining = xs ++ rest → (atEnd = true → rest = []) →
      (iter p).Runs (.iter (p.handOut ys atEnd)) := by
  induction h with
  | nil =>
    intro p hrem hend
    exact runs_handOut_nil fun hatEnd => hrem.trans (hend hatEnd)
  | @cons x y xs ys hxy _ ih =>
    intro p hrem hend
    have hrest : (p.handOut [y] false).remaining = xs ++ rest := by
      rw [Pull.remaining_handOut p [y] (by simp), hrem]
      rfl
    have hhand : p.handOut (y :: ys) atEnd = (p.handOut [y] false).handOut ys atEnd :=
      (p.handOut_handOut [y] ys atEnd).symm
    rw [hhand]
    exact (runs_handOut_one hrem hxy).trans (ih hrest hend)

end HandOut

/-! ## Surveying -/

/-- Asking a source ahead takes a step for each request. -/
theorem steps_ahead (sight : Sight) (p : Pull Value) : ReflTransGen Pull.Step p (sight.ahead p) := by
  cases sight with
  | everything => exact p.steps_bufferAll
  | firstOnly records => exact p.steps_fill 1

/-- Looking at a value takes steps: a source is asked before the first of its elements is looked
at. -/
theorem Looked.runs {sight : Sight} {v w : Value} (h : v.Looked sight w) : v.Runs w := by
  refine @Looked.induction sight Runs ?untouched ?list ?tuple ?dict ?iter v w h
  case untouched => exact fun _ => .refl
  case list => exact runs_list
  case tuple => exact runs_tuple
  case dict => exact runs_dict
  case iter =>
    intro p queue hall
    exact (runs_source (steps_ahead sight p)).trans (runs_queue (sight.ahead p) hall)

/-- **A survey is a run.** Where everything is looked at, a source is asked until it ends; otherwise
it is asked once, unless something waits in its queue. -/
theorem runs_survey (sight : Sight) (v : Value) (depth : Nat) (partly : Bool) (shape : Shape) :
    v.Runs (survey sight depth partly shape v).1 :=
  (looked_survey v depth partly shape).runs

/-- What is asked to find the shape, for whatever hint. -/
theorem runs_shape (hint : Hint) (v : Value) : v.Runs (v.shape hint).1 := by
  cases hint with
  | infer => exact runs_survey _ _ _ _ _
  | uniform leaf => exact runs_survey _ _ _ _ _
  | full t => exact .refl

end Value

end Ragged
