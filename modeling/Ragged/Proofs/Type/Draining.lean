import Ragged.Proofs.Type.Structure
import Ragged.Proofs.Value.Fields
import Ragged.Proofs.Value.Finished

/-!
# What a type asks of lazy sources

A value is written at a type depth first, and it may stop at any place with an error. What has then
become of the value is told by going down the type: `ArrayType.Draws`.

* Elements are gone through in order. Those before the place are finished, one may be in the midst of
  it, and those behind are as they were (`Value.Passed`).
* A source has yielded no more than what tells whether it has the number of elements that is wanted:
  one more than the extent of a fixed dimension, one more than there are fields.
* At a strided dimension no source is touched, nor where a scalar is wanted.

Nothing is said here of how a value is written; that writing keeps to this is proved where the layouts
are.
-/

set_option autoImplicit false

namespace Ragged

namespace Value

/-- Values are gone through one after the other, each in its own way, up to some place. -/
inductive Passed : List (Value → Value → Prop) → List Value → List Value → Prop
  | untouched (ways : List (Value → Value → Prop)) (xs : List Value) : Passed ways xs xs
  | midst {way : Value → Value → Prop} {ways : List (Value → Value → Prop)} {x y : Value}
      {xs : List Value} (h : way x y) : Passed (way :: ways) (x :: xs) (y :: xs)
  | past {way : Value → Value → Prop} {ways : List (Value → Value → Prop)} {x y : Value}
      {xs ys : List Value} (h : way x y) (hdone : x.Finishes y) (hrest : Passed ways xs ys) :
      Passed (way :: ways) (x :: xs) (y :: ys)

/-- What becomes of a value whose elements are gone through. A source of which `limit` elements are
wanted first gives those that wait in its queue, and yields no more than are then missing. -/
inductive Opened (limit : Option Nat) (passed : List Value → List Value → Prop) :
    Value → Value → Prop
  | untouched (v : Value) : Opened limit passed v v
  | list {xs ys : List Value} (h : passed xs ys) : Opened limit passed (.list xs) (.list ys)
  | tuple {xs ys : List Value} (h : passed xs ys) : Opened limit passed (.tuple xs) (.tuple ys)
  | iter {p q : Pull Value} {ys : List Value} (hlabel : q.label = p.label)
      (helements : q.elements = p.taken ++ ys) (h : passed p.remaining ys)
      (hlimit : ∀ n ∈ limit, q.pulled ≤ p.pulled + (n - p.buffered)) :
      Opened limit passed (.iter p) (.iter q)

/-- What becomes of a record, in the order of the fields. -/
inductive OpenedAsRecord (fields : Struct) (passed : List Value → List Value → Prop) :
    Value → Value → Prop
  | positional {v w : Value} (h : Opened (some (fields.length + 1)) passed v w) :
      OpenedAsRecord fields passed v w
  | named {entries entries' : List (String × Value)} {values values' : List Value}
      (hkeys : Entries.keys entries' = Entries.keys entries)
      (hvalues : (dict entries).record? fields = some values)
      (hvalues' : (dict entries').record? fields = some values') (h : passed values values') :
      OpenedAsRecord fields passed (.dict entries) (.dict entries')

/-- What becomes of an instance of some dimensions, given what becomes of the leaf. -/
def DrawsDims (leafDraws : Value → Value → Prop) : List Dimension → Value → Value → Prop
  | [] => leafDraws
  | .fixed n :: dims =>
    Opened (some (n + 1)) fun xs => Passed (List.replicate xs.length (DrawsDims leafDraws dims)) xs
  | .strided :: dims => fun v w =>
    (v.isIterator = true → w = v) ∧
      Opened none (fun xs => Passed (List.replicate xs.length (DrawsDims leafDraws dims)) xs) v w
  | .var :: dims =>
    Opened none fun xs => Passed (List.replicate xs.length (DrawsDims leafDraws dims)) xs

end Value

mutual

/-- The second value is what may have become of the first when it was written at the type, up to some
place. -/
def ArrayType.Draws : ArrayType → Value → Value → Prop
  | ⟨dims, leaf⟩ => Value.DrawsDims leaf.Draws dims

def LeafType.Draws : LeafType → Value → Value → Prop
  | .scalar _ | .string _ => fun v w => w = v
  | .struct fields => Value.OpenedAsRecord fields (Value.Passed (Struct.draws fields))

/-- What may become of the value of each field. -/
def Struct.draws : List Field → List (Value → Value → Prop)
  | [] => []
  | ⟨_, type⟩ :: fields => type.Draws :: Struct.draws fields

end

theorem Struct.draws_cons (f : Field) (fields : List Field) :
    draws (f :: fields) = f.type.Draws :: draws fields := by
  cases f
  rfl

/-- Writing may fail before anything is touched. -/
theorem ArrayType.draws_refl (t : ArrayType) (v : Value) : t.Draws v v := by
  obtain ⟨dims, leaf⟩ := t
  cases dims with
  | nil =>
    cases leaf with
    | scalar k => rfl
    | string s => rfl
    | struct fields => exact .positional (.untouched v)
  | cons d dims =>
    cases d with
    | fixed n => exact .untouched v
    | strided => exact ⟨fun _ => rfl, .untouched v⟩
    | var => exact .untouched v

/-- What keeps to a limit keeps to none. -/
theorem Value.Opened.unlimited {limit : Option Nat} {passed : List Value → List Value → Prop}
    {v w : Value} (h : Opened limit passed v w) : Opened none passed v w := by
  cases h with
  | untouched => exact .untouched v
  | list h => exact .list h
  | tuple h => exact .tuple h
  | iter hlabel helements h => exact .iter hlabel helements h fun n hn => absurd hn (by simp)

/-- **No source yields more than is wanted of it.** One that nothing was asked of before has then
yielded at most that many elements. -/
theorem Value.Opened.pulled_le {limit : Nat} {passed : List Value → List Value → Prop}
    {label : Nat} {elements : Supply Value} {q : Pull Value}
    (h : Opened (some limit) passed (.iter (.ofSupply label elements)) (.iter q)) :
    q.pulled ≤ limit := by
  cases h with
  | untouched => exact Nat.zero_le limit
  | iter _ _ _ hlimit =>
    have hle := hlimit limit rfl
    simpa [Pull.ofSupply, Pull.buffered] using hle

namespace Pull

/-- What a source yields over its life was handed out, or is left. -/
theorem elements_eq {α : Type} (p : Pull α) : p.elements = p.taken ++ p.remaining := rfl

/-- Looking ahead for more elements than are left asks for all of them, and for one more. -/
theorem fill_eq_bufferAll {α : Type} (p : Pull α) {n : Nat} (h : p.remaining.length < n) :
    p.fill n = p.bufferAll := by
  rw [remaining, List.length_append] at h
  have htake : p.pending.toList.take (n - p.replay.length) = p.pending.toList :=
    List.take_of_length_le (by omega)
  simp only [fill, Supply.draw_eq, htake, bufferAll]
  rw [if_pos (by omega)]

end Pull

end Ragged
