import Ragged.Proofs.Storage.Columns
import Ragged.Storage.Arena

/-!
# Columns that are filled

A column is filled by pushing scalars one after the other, of which it takes those of its kind. This
file says what it is then, whatever was pushed and in whatever order:

> it lists the scalars it has taken, and all its operations are those of that list
> (`lists_filled`).

For byte strings the list is not stored as such. What is stored is their concatenation, and that it
is just as long as so many widths is why no cut reaches past its end; with the width zero it is empty
and the number of elements is all there is.
-/

set_option autoImplicit false

namespace Ragged

/-- The bytes of a byte string. -/
def Scalar.byteString : Scalar → List UInt8
  | .bytes bs => bs
  | _ => []

namespace Column

variable {c : Column} {kind : ElementKind} {s : Scalar} {taken : List Scalar}

/-- A column of a kind into which scalars were pushed, the first of the list first. -/
def filled (kind : ElementKind) (pushed : List Scalar) : Column := pushed.foldl push (empty kind)

/-- Byte strings, and nothing else, stand end to end in a buffer. -/
def Joined : Column → Prop
  | .cells kind _ => ∀ width, kind ≠ .bytes width
  | .packed width count data =>
    data.toList = (toList (.packed width count data)).flatMap Scalar.byteString

/-! ## One push -/

theorem joined_empty (kind : ElementKind) : (empty kind).Joined := by
  cases kind with
  | bytes width => rfl
  | _ => exact fun _ h => nomatch h

/-- What is taken goes behind the buffer. -/
theorem Joined.push (hc : c.Joined) (hsound : c.Sound) (hs : s.kind = c.kind) :
    (c.push s).Joined := by
  have hlist := (push_of_kind hsound hs).2
  cases c with
  | cells kind items =>
    have hk : s.kind = kind := hs
    rw [Column.push, if_pos hk]
    exact hc
  | packed width count data =>
    cases s with
    | bytes bs =>
      have hbs : bs.length = width := ElementKind.bytes.inj hs
      simp only [Column.push, if_pos hbs] at hlist ⊢
      show (data.appendList bs).toList = _
      rw [hlist, List.flatMap_append, ← show data.toList = _ from hc, Array.appendList_eq_append,
        Array.toList_appendList, List.flatMap_singleton, Scalar.byteString]
    | _ => exact absurd hs (by simp [Scalar.kind, Column.kind])

/-- The column is of the kind and holds the scalars. -/
structure Holds (c : Column) (kind : ElementKind) (taken : List Scalar) : Prop where
  kind_eq : c.kind = kind
  sound : c.Sound
  joined : c.Joined
  toList_eq : c.toList = taken

theorem holds_empty (kind : ElementKind) : (empty kind).Holds kind [] :=
  ⟨kind_empty kind, sound_empty kind, joined_empty kind, toList_empty kind⟩

/-- **A push is taken if it is of the kind**, and otherwise nothing becomes of it. -/
theorem Holds.push (h : c.Holds kind taken) (s : Scalar) :
    (c.push s).Holds kind (taken ++ [s].filter (·.kind = kind)) := by
  by_cases hs : s.kind = kind
  · have hkind : s.kind = c.kind := hs.trans h.kind_eq.symm
    obtain ⟨hsound, hlist⟩ := push_of_kind h.sound hkind
    rw [List.filter_cons_of_pos (by simpa using hs), List.filter_nil]
    exact ⟨(kind_push c s).trans h.kind_eq, hsound, h.joined.push h.sound hkind,
      by rw [hlist, h.toList_eq]⟩
  · rw [List.filter_cons_of_neg (by simpa using hs), List.filter_nil, List.append_nil,
      push_of_kind_ne fun hkind => hs (hkind.trans h.kind_eq)]
    exact h

/-! ## All pushes -/

theorem Holds.foldl_push (pushed : List Scalar) : ∀ {c : Column} {taken : List Scalar},
    c.Holds kind taken →
      (pushed.foldl Column.push c).Holds kind (taken ++ pushed.filter (·.kind = kind)) := by
  induction pushed with
  | nil =>
    intro c taken h
    rw [List.filter_nil, List.append_nil]
    exact h
  | cons s pushed ih =>
    intro c taken h
    have hrest := ih (h.push s)
    rw [List.append_assoc, ← List.filter_append, List.singleton_append] at hrest
    exact hrest

theorem holds_filled (kind : ElementKind) (pushed : List Scalar) :
    (filled kind pushed).Holds kind (pushed.filter (·.kind = kind)) :=
  (holds_empty kind).foldl_push pushed

/-! ## What a column answers -/

theorem filterMap_getElem?_range {α : Type} (xs : List α) :
    (List.range xs.length).filterMap (fun i => xs[i]?) = xs := by
  have hsome : (List.range xs.length).map (fun i => xs[i]?) = xs.map some := by
    apply List.ext_getElem?
    intro i
    rw [List.getElem?_map, List.getElem?_map]
    by_cases hi : i < xs.length
    · rw [List.getElem?_range hi, List.getElem?_eq_getElem hi]
      exact congrArg some (List.getElem?_eq_getElem hi)
    · rw [List.getElem?_eq_none (by simpa using hi), List.getElem?_eq_none (by simpa using hi)]
      rfl
  have hmap := congrArg (List.filterMap id) hsome
  rwa [List.filterMap_map, List.filterMap_map, Function.id_comp, Function.id_comp,
    List.filterMap_some] at hmap

/-- Reading all elements by number gives the list. -/
theorem elements_eq_toList (c : Column) : c.elements = c.toList := by
  rw [elements, ← length_toList, funext c.get?_eq_getElem?]
  exact filterMap_getElem?_range c.toList

/-- The buffer of a column of byte strings: how long it is, what it holds, and that the bytes of
each element lie in it. -/
structure Packs (c : Column) (width : Nat) (taken : List Scalar) (data : Array UInt8) : Prop where
  packed : c = .packed width taken.length data
  size_eq : data.size = taken.length * width
  joined : data.toList = taken.flatMap Scalar.byteString
  inside : ∀ i < taken.length, i * width + width ≤ data.size

theorem Holds.exists_packs {width : Nat} (h : c.Holds (.bytes width) taken) :
    ∃ data, c.Packs width taken data := by
  obtain ⟨hkind, hsound, hjoined, hlist⟩ := h
  cases c with
  | cells kind items => exact absurd hkind (hjoined width)
  | packed width' count data =>
    obtain rfl : width' = width := ElementKind.bytes.inj hkind
    have hcount : taken.length = count := by rw [← hlist, length_toList, size]
    have hsize : data.size = taken.length * width' := by rw [hcount]; exact hsound
    refine ⟨data, by rw [hcount], hsize, by rw [← hlist]; exact hjoined, fun i hi => ?_⟩
    rw [hsize, ← Nat.succ_mul]
    exact Nat.mul_le_mul_right width' hi

/-- What a column is to those who use it: a list of scalars of one kind. -/
structure Lists (c : Column) (kind : ElementKind) (taken : List Scalar) : Prop where
  kind_eq : c.kind = kind
  accepts : ∀ s, s.kind = kind → c.append s = .ok (c.push s)
  refuses : ∀ s, s.kind ≠ kind → c.append s = .error (.kindMismatch kind s.kind) ∧ c.push s = c
  size_eq : c.size = taken.length
  get?_eq : ∀ i, c.get? i = taken[i]?
  elements_eq : c.elements = taken
  byteSize_eq : c.byteSize = (taken.map Scalar.byteSize).sum
  packs : ∀ width, kind = .bytes width → ∃ data, c.Packs width taken data

theorem Holds.lists (h : c.Holds kind taken) : c.Lists kind taken where
  kind_eq := h.kind_eq
  accepts s hs := if_pos (beq_iff_eq.mpr (hs.trans h.kind_eq.symm))
  refuses s hs := by
    have hne : s.kind ≠ c.kind := fun hkind => hs (hkind.trans h.kind_eq)
    have hrefused : ¬c.accepts s = true := fun haccepts => hne (beq_iff_eq.mp haccepts)
    exact ⟨by rw [append, if_neg hrefused, h.kind_eq], push_of_kind_ne hne⟩
  size_eq := by rw [← h.toList_eq, length_toList]
  get?_eq i := by rw [get?_eq_getElem?, h.toList_eq]
  elements_eq := by rw [elements_eq_toList, h.toList_eq]
  byteSize_eq := by rw [byteSize_eq_sum h.sound, h.toList_eq]
  packs := by
    rintro width rfl
    exact h.exists_packs

/-- **A column lists the scalars of its kind that were pushed**, and is unchanged by all others. -/
theorem lists_filled (kind : ElementKind) (pushed : List Scalar) :
    (filled kind pushed).Lists kind (pushed.filter (·.kind = kind)) :=
  (holds_filled kind pushed).lists

/-- Elements without bytes are counted all the same. -/
example : (filled (.bytes 0) [.bytes [], .bytes [1], .bytes []]).elements =
    [.bytes [], .bytes []] := by
  decide

end Column

end Ragged
