import Ragged.Proofs.Value.Elements
import Ragged.Shape.Survey

/-!
# Looking ahead changes nothing but what was asked

A survey hands its value back with some sources looked ahead into. How far it looked depends on the
hint; what it found there is written afterwards. To say that this is the value that came in, both
are brought to the one form in which every source, at whatever depth, has been looked through to its
end: `Value.drained`.

> A survey never changes the drained value, in whatever way it looks and also when it fails.

What a survey does to a value is said once (`Value.Looked`), and all else about the value it hands
back follows by induction into what was looked at (`Value.Looked.induction`).

Elements and fields are those of the drained value, drained themselves (`preserves_drained`), so
what a reader makes of a value it makes of its drained form too.
-/

set_option autoImplicit false

namespace Ragged

/-- How far a source is asked where a survey comes to it: to its end, or until something waits in its
queue. -/
def Sight.ahead (sight : Sight) (p : Pull Value) : Pull Value :=
  match sight with
  | .everything => p.bufferAll
  | .firstOnly _ => p.fill 1

namespace Value

mutual

/-- A value when all its sources are looked through to their end. -/
def drained : Value → Value
  | .atom a => .atom a
  | .list items => .list (drainedItems items)
  | .tuple items => .tuple (drainedItems items)
  | .dict entries => .dict (drainedEntries entries)
  | .iter ⟨label, taken, replay, none, pulled⟩ =>
    .iter ⟨label, taken, drainedItems replay, none, pulled⟩
  | .iter ⟨label, taken, replay, some pending, pulled⟩ =>
    .iter ⟨label, taken, drainedItems replay ++ drainedSupply pending, none,
      pulled + pending.toList.length⟩

def drainedItems : List Value → List Value
  | [] => []
  | v :: rest => drained v :: drainedItems rest

def drainedEntries : List (String × Value) → List (String × Value)
  | [] => []
  | (key, v) :: rest => (key, drained v) :: drainedEntries rest

def drainedSupply : Supply Value → List Value
  | .nil => []
  | .cons v rest => drained v :: drainedSupply (rest ⟨⟩)

end

theorem drainedItems_eq (items : List Value) : drainedItems items = items.map drained := by
  induction items with
  | nil => rfl
  | cons v rest ih => rw [drainedItems, ih, List.map_cons]

theorem drainedEntries_eq (entries : List (String × Value)) :
    drainedEntries entries = entries.map fun e => (e.1, e.2.drained) := by
  induction entries with
  | nil => rfl
  | cons e rest ih => rw [drainedEntries, ih, List.map_cons]

theorem drainedSupply_eq (s : Supply Value) : drainedSupply s = s.toList.map drained := by
  induction s with
  | nil => rfl
  | cons v rest ih => rw [drainedSupply, ih, Supply.toList_cons, List.map_cons]

theorem drained_list (items : List Value) : (list items).drained = .list (items.map drained) := by
  rw [drained, drainedItems_eq]

theorem drained_tuple (items : List Value) :
    (tuple items).drained = .tuple (items.map drained) := by
  rw [drained, drainedItems_eq]

theorem drained_dict (entries : List (String × Value)) :
    (dict entries).drained = .dict (entries.map fun e => (e.1, e.2.drained)) := by
  rw [drained, drainedEntries_eq]

/-- What is in the queue and what is to come make no difference. -/
theorem drained_iter (source : Pull Value) :
    (iter source).drained = .iter ⟨source.label, source.taken, source.remaining.map drained, none,
      source.pulled + source.pending.toList.length⟩ := by
  obtain ⟨label, taken, replay, source, pulled⟩ := source
  cases source with
  | none => simp [drained, drainedItems_eq, Pull.remaining, Pull.pending]
  | some pending =>
    simp [drained, drainedItems_eq, drainedSupply_eq, Pull.remaining, Pull.pending]

/-! ## What is asked of a drained value -/

theorem items?_drained (v : Value) : v.drained.items? = v.items?.map (·.map drained) := by
  cases v with
  | atom a => rfl
  | dict entries => rw [drained_dict]; rfl
  | list items => rw [drained_list]; rfl
  | tuple items => rw [drained_tuple]; rfl
  | iter source => rw [drained_iter]; simp [items?, Pull.remaining, Pull.pending]

theorem isIterator_drained (v : Value) : v.drained.isIterator = v.isIterator := by
  cases v with
  | atom a => rfl
  | dict entries => rw [drained_dict]; rfl
  | list items => rw [drained_list]; rfl
  | tuple items => rw [drained_tuple]; rfl
  | iter source => rw [drained_iter]; rfl

theorem preserves_drained : Preserves drained where
  atom := fun _ => rfl
  dict := drained_dict
  items? := items?_drained

/-! ## What a survey hands back -/

/-- A supply is gone through just as the list of its elements is. -/
theorem surveySupply_eq (sight : Sight) (depth : Nat) (partly : Bool) (s : Supply Value) :
    ∀ (shape : Shape) (done : List Value),
      surveySupply sight depth partly shape done s =
        surveyItems sight depth partly shape done s.toList := by
  induction s with
  | nil => exact fun _ _ => rfl
  | cons v rest ih =>
    intro shape done
    rw [Supply.toList_cons, surveySupply, surveyItems]
    cases survey sight depth partly shape v with
    | mk v outcome => cases outcome with
      | error e => rfl
      | ok shape => exact ih ⟨⟩ shape (v :: done)

theorem surveySource_eq (sight : Sight) (depth : Nat) (partly : Bool) (shape : Shape)
    (source : Option (Supply Value)) :
    surveySource sight depth partly shape source =
      surveyItems sight depth partly shape [] (source.getD .nil).toList := by
  cases source with
  | none => rfl
  | some pending => exact surveySupply_eq sight depth partly pending shape []

section Survey

variable {sight : Sight} {R : Value → Value → Prop}

/-- One value after the other: those the survey comes to are as it leaves them, and the others stay
as they were. -/
theorem surveyItems_fst (hrefl : ∀ x, R x x) {items : List Value}
    (h : ∀ x ∈ items, ∀ depth partly shape, R x (survey sight depth partly shape x).1) :
    ∀ (depth : Nat) (partly : Bool) (shape : Shape) (done : List Value),
      ∃ ys, (surveyItems sight depth partly shape done items).1 = done.reverse ++ ys ∧
        List.Forall₂ R items ys := by
  induction items with
  | nil =>
    intro depth partly shape done
    exact ⟨[], by rw [surveyItems, List.append_nil], .nil⟩
  | cons v rest ih =>
    intro depth partly shape done
    obtain ⟨hv, hrest⟩ := List.forall_mem_cons.mp h
    have hv := hv depth partly shape
    unfold surveyItems
    cases hs : survey sight depth partly shape v with
    | mk w outcome =>
      rw [hs] at hv
      cases outcome with
      | error e =>
        refine ⟨w :: rest, List.reverseAux_eq, .cons hv ?_⟩
        exact List.forall₂_same.mpr fun x _ => hrefl x
      | ok shape =>
        obtain ⟨ys, hys, hall⟩ := ih hrest depth partly shape (w :: done)
        exact ⟨w :: ys, by rw [hys]; simp, .cons hv hall⟩

/-- And so the values of a mapping, under the keys they had. -/
theorem surveyEntries_fst (hrefl : ∀ x, R x x) {entries : List (String × Value)}
    (h : ∀ e ∈ entries, ∀ depth partly shape, R e.2 (survey sight depth partly shape e.2).1) :
    ∀ (fields : List (String × Shape)) (done : List (String × Value)),
      ∃ es, (surveyEntries sight fields done entries).1 = done.reverse ++ es ∧
        List.Forall₂ (fun e e' => e.1 = e'.1 ∧ R e.2 e'.2) entries es := by
  induction entries with
  | nil =>
    intro fields done
    exact ⟨[], by rw [surveyEntries, List.append_nil], .nil⟩
  | cons e rest ih =>
    obtain ⟨key, v⟩ := e
    intro fields done
    obtain ⟨hv, hrest⟩ := List.forall_mem_cons.mp h
    have hv := hv 0 false ((Entries.get? fields key).getD Shape.empty)
    unfold surveyEntries
    cases hs : survey sight 0 false ((Entries.get? fields key).getD Shape.empty) v with
    | mk w outcome =>
      rw [hs] at hv
      cases outcome with
      | error e =>
        refine ⟨(key, w) :: rest, List.reverseAux_eq, .cons ⟨rfl, hv⟩ ?_⟩
        exact List.forall₂_same.mpr fun e _ => ⟨rfl, hrefl e.2⟩
      | ok shape =>
        obtain ⟨es, hes, hall⟩ := ih hrest (Entries.put fields key shape) ((key, w) :: done)
        exact ⟨(key, w) :: es, by rw [hes]; simp, .cons ⟨rfl, hv⟩ hall⟩

end Survey

/-- What becomes of a value that is surveyed in some way, whether or not there is an error.
Containers stand with what is inside them looked at. A source is asked before anything of it is
looked at, and then what is in its queue is. What an error keeps the survey from coming to is
untouched. -/
inductive Looked (sight : Sight) : Value → Value → Prop
  | untouched (v : Value) : Looked sight v v
  | list {xs ys : List Value} (h : List.Forall₂ (Looked sight) xs ys) :
      Looked sight (.list xs) (.list ys)
  | tuple {xs ys : List Value} (h : List.Forall₂ (Looked sight) xs ys) :
      Looked sight (.tuple xs) (.tuple ys)
  | dict {entries entries' : List (String × Value)}
      (hkeys : Entries.keys entries = Entries.keys entries')
      (h : List.Forall₂ (Looked sight) (entries.map Prod.snd) (entries'.map Prod.snd)) :
      Looked sight (.dict entries) (.dict entries')
  | iter {p : Pull Value} {queue : List Value}
      (h : List.Forall₂ (Looked sight) (sight.ahead p).replay queue) :
      Looked sight (.iter p) (.iter { sight.ahead p with replay := queue })

/-- Induction into what was looked at. -/
@[elab_as_elim]
theorem Looked.induction {sight : Sight} {motive : Value → Value → Prop}
    (untouched : ∀ v, motive v v)
    (list : ∀ {xs ys}, List.Forall₂ motive xs ys → motive (.list xs) (.list ys))
    (tuple : ∀ {xs ys}, List.Forall₂ motive xs ys → motive (.tuple xs) (.tuple ys))
    (dict : ∀ {entries entries' : List (String × Value)},
      List.Forall₂ (fun e e' => e.1 = e'.1 ∧ motive e.2 e'.2) entries entries' →
        motive (.dict entries) (.dict entries'))
    (iter : ∀ {p : Pull Value} {queue}, List.Forall₂ motive (sight.ahead p).replay queue →
      motive (.iter p) (.iter { sight.ahead p with replay := queue }))
    {v w : Value} (h : v.Looked sight w) : motive v w := by
  refine @Looked.rec sight (fun v w _ => motive v w) (fun xs ys _ => List.Forall₂ motive xs ys)
    untouched (fun _ => list) (fun _ => tuple) ?_ (fun _ => iter) .nil (fun _ _ => .cons) v w h
  exact fun hkeys _ hvalues => dict (Entries.forall₂_iff.mpr ⟨hkeys, hvalues⟩)

section Survey

variable {sight : Sight}

/-- What waits in a queue is looked at without asking. -/
theorem Looked.waiting {records : Bool} {p : Pull Value} {queue : List Value} (hp : 1 ≤ p.buffered)
    (h : List.Forall₂ (Looked (.firstOnly records)) p.replay queue) :
    (Value.iter p).Looked (.firstOnly records) (.iter { p with replay := queue }) := by
  have hahead : (Sight.firstOnly records).ahead p = p := Pull.fill_of_le hp
  have hiter := @Looked.iter (.firstOnly records) p queue
  rw [hahead] at hiter
  exact hiter h

theorem looked_surveyItems {items : List Value}
    (h : ∀ x ∈ items, ∀ depth partly shape, x.Looked sight (survey sight depth partly shape x).1)
    (depth : Nat) (partly : Bool) (shape : Shape) :
    List.Forall₂ (Looked sight) items (surveyItems sight depth partly shape [] items).1 := by
  obtain ⟨ys, hys, hall⟩ := surveyItems_fst .untouched h depth partly shape []
  rw [hys]
  exact hall

theorem looked_surveyEntries {entries : List (String × Value)}
    (h : ∀ e ∈ entries, ∀ depth partly shape,
      e.2.Looked sight (survey sight depth partly shape e.2).1) (fields : List (String × Shape)) :
    (dict entries).Looked sight (.dict (surveyEntries sight fields [] entries).1) := by
  obtain ⟨es, hes, hall⟩ := surveyEntries_fst .untouched h fields []
  obtain ⟨hkeys, hvalues⟩ := Entries.forall₂_iff.mp hall
  rw [hes]
  exact .dict hkeys hvalues

/-- The queue is gone through first, and what is pending only if that went well. -/
theorem looked_everything {p : Pull Value}
    (hreplay : ∀ x ∈ p.replay, ∀ depth partly shape,
      x.Looked .everything (survey .everything depth partly shape x).1)
    (hpending : ∀ x ∈ p.pending.toList, ∀ depth partly shape,
      x.Looked .everything (survey .everything depth partly shape x).1)
    (depth : Nat) (partly : Bool) (shape : Shape) :
    (iter p).Looked .everything (survey .everything depth partly shape (.iter p)).1 := by
  obtain ⟨label, taken, replay, source, pulled⟩ := p
  unfold survey
  cases shape.enterContainer depth (noteIterator partly) with
  | error e => exact .untouched _
  | ok shape =>
    simp only [surveySource_eq]
    generalize Shape.mk _ _ _ = shape
    have hqueue := looked_surveyItems hreplay (depth + 1) partly shape
    dsimp only at hqueue
    cases hs : surveyItems .everything (depth + 1) partly shape [] replay with
    | mk queue outcome =>
      rw [hs] at hqueue
      cases outcome with
      | error e =>
        exact .iter (List.rel_append hqueue (List.forall₂_same.mpr fun x _ => .untouched x))
      | ok shape =>
        exact .iter (List.rel_append hqueue (looked_surveyItems hpending (depth + 1) partly shape))

theorem looked_firstOnly {records : Bool} {p : Pull Value}
    (hreplay : ∀ x ∈ p.replay, ∀ depth partly shape,
      x.Looked (.firstOnly records) (survey (.firstOnly records) depth partly shape x).1)
    (hpending : ∀ x ∈ p.pending.toList, ∀ depth partly shape,
      x.Looked (.firstOnly records) (survey (.firstOnly records) depth partly shape x).1)
    (depth : Nat) (partly : Bool) (shape : Shape) :
    (iter p).Looked (.firstOnly records)
      (survey (.firstOnly records) depth partly shape (.iter p)).1 := by
  obtain ⟨label, taken, replay, source, pulled⟩ := p
  unfold survey
  cases shape.enterContainer depth (noteIterator partly) with
  | error e => exact .untouched _
  | ok shape =>
    cases replay with
    | cons first rest =>
      have hfirst := hreplay first List.mem_cons_self (depth + 1) true shape
      exact @Looked.waiting records ⟨label, taken, first :: rest, source, pulled⟩ _
        (Nat.le_add_left 1 rest.length)
        (.cons hfirst (List.forall₂_same.mpr fun x _ => .untouched x))
    | nil =>
      cases source with
      | none => exact .iter .nil
      | some pending =>
        cases pending with
        | nil => exact .iter .nil
        | cons first rest =>
          have hfirst := hpending first (by simp [Pull.pending]) (depth + 1) true shape
          exact .iter (.cons hfirst .nil)

/-- **What a survey hands back is the value, looked at.** -/
theorem looked_survey (v : Value) : ∀ (depth : Nat) (partly : Bool) (shape : Shape),
    v.Looked sight (survey sight depth partly shape v).1 := by
  induction v using Value.induction with
  | atom a => exact fun _ _ _ => .untouched _
  | list items ih | tuple items ih =>
    intro depth partly shape
    unfold survey
    split
    · exact .untouched _
    · cases shape.enterContainer depth (noteSequence items.length partly) with
      | error e => exact .untouched _
      | ok shape =>
        constructor
        exact looked_surveyItems ih (depth + 1) partly shape
  | dict entries ih =>
    intro depth partly shape
    unfold survey
    cases shape.enterLeaf depth with
    | error e => exact .untouched _
    | ok shape =>
      cases sight with
      | firstOnly records => exact .untouched _
      | everything =>
        cases hf : shape.leaf.fieldsFor (Entries.keys entries) with
        | error e =>
          simp only [hf]
          exact .untouched _
        | ok fields =>
          simp only [hf]
          exact looked_surveyEntries ih fields
  | iter p ihreplay ihpending =>
    cases sight with
    | everything => exact looked_everything ihreplay ihpending
    | firstOnly records => exact looked_firstOnly ihreplay ihpending

end Survey

/-- What was asked of a source is in its queue, and what is behind that is as it was. -/
theorem drained_ahead (sight : Sight) {p : Pull Value} {queue : List Value}
    (h : (sight.ahead p).replay.map drained = queue.map drained) :
    (iter p).drained = (iter { sight.ahead p with replay := queue }).drained := by
  have htotal : (sight.ahead p).label = p.label ∧ (sight.ahead p).taken = p.taken ∧
      (sight.ahead p).remaining = p.remaining ∧
        (sight.ahead p).pulled + (sight.ahead p).pending.toList.length =
          p.pulled + p.pending.toList.length := by
    cases sight with
    | everything => exact ⟨rfl, rfl, List.append_nil _, rfl⟩
    | firstOnly records =>
      refine ⟨rfl, rfl, p.remaining_fill 1, ?_⟩
      rw [Sight.ahead, Pull.pulled_fill, Pull.pending_fill, List.length_drop, Pull.buffered]
      omega
  obtain ⟨hlabel, htaken, hremaining, hcount⟩ := htotal
  have hqueue : (Pull.remaining { sight.ahead p with replay := queue }).map drained =
      (sight.ahead p).remaining.map drained := by
    rw [Pull.remaining, Pull.remaining, List.map_append, List.map_append, h]
    rfl
  rw [drained_iter, drained_iter, hqueue, hremaining, ← hcount, ← hlabel, ← htaken]
  rfl

theorem Looked.drained {sight : Sight} {v w : Value} (h : v.Looked sight w) :
    v.drained = w.drained := by
  refine @Looked.induction sight (fun v w => v.drained = w.drained) ?untouched ?list ?tuple ?dict ?iter
    v w h
  case untouched => exact fun _ => rfl
  case list =>
    intro xs ys hall
    rw [drained_list, drained_list, map_eq_of_forall₂ hall]
  case tuple =>
    intro xs ys hall
    rw [drained_tuple, drained_tuple, map_eq_of_forall₂ hall]
  case dict =>
    intro entries entries' hall
    rw [drained_dict, drained_dict]
    exact congrArg Value.dict (map_eq_of_forall₂ (hall.imp fun _ _ h => Prod.ext h.1 h.2))
  case iter =>
    intro p queue hall
    exact drained_ahead sight (map_eq_of_forall₂ hall)

/-- **A survey changes no value**, only how far its sources were looked into. -/
theorem drained_survey (sight : Sight) (v : Value) (depth : Nat) (partly : Bool) (shape : Shape) :
    (survey sight depth partly shape v).1.drained = v.drained :=
  (looked_survey v depth partly shape).drained.symm

/-- What is surveyed is the value that comes in. -/
theorem drained_shape (hint : Hint) (v : Value) : (v.shape hint).1.drained = v.drained := by
  cases hint with
  | infer => exact drained_survey _ _ _ _ _
  | uniform leaf => exact drained_survey _ _ _ _ _
  | full t => rfl

end Value

end Ragged
