import Mathlib.Algebra.Ring.Nat
import Ragged.Storage.Column

/-!
# Columns as lists

`Column.toList` is the one view of a column, and this file says what the three operations do to it:

> an empty column is the empty list, `push` adds one element behind the others, `get?` is the
> element of a number.

Packed columns are where something has to be proved. Their elements stand nowhere by themselves but
are cut out of one buffer, so a cut must not reach into the bytes that come behind it. That is what
`Column.Sound` is for: the buffer holds as many widths as the column counts elements, and no byte
more.
-/

set_option autoImplicit false

namespace Ragged

namespace Column

/-- What every operation keeps: the elements are of the column's kind, and the buffer of a packed
column is as long as its elements together. -/
def Sound : Column → Prop
  | .cells kind items => ∀ s ∈ items, s.kind = kind
  | .packed width count data => data.size = count * width

/-! ## Cutting the buffer -/

theorem cut_eq (width : Nat) (data : Array UInt8) (index : Nat) :
    cut width data index = (data.toList.drop (index * width)).take width := by
  unfold cut
  rw [Array.toList_extract, List.extract_eq_take_drop, Nat.add_sub_cancel_left]

/-- A cut that ends inside the buffer does not see what is added behind it. -/
theorem cut_appendList {width : Nat} {data : Array UInt8} (bs : List UInt8) {index : Nat}
    (h : index * width + width ≤ data.size) :
    cut width (data.appendList bs) index = cut width data index := by
  have hlen : width ≤ (data.toList.drop (index * width)).length := by
    rw [List.length_drop, Array.length_toList]
    omega
  rw [cut_eq, cut_eq, Array.appendList_eq_append, Array.toList_appendList,
    List.drop_append_of_le_length (by rw [Array.length_toList]; omega),
    List.take_append_of_le_length hlen]

/-- The cut just behind the buffer is what is added there. -/
theorem cut_appendList_self {width index : Nat} {data : Array UInt8} {bs : List UInt8}
    (hsize : data.size = index * width) (hbs : bs.length = width) :
    cut width (data.appendList bs) index = bs := by
  rw [cut_eq, Array.appendList_eq_append, Array.toList_appendList,
    List.drop_left' (by rw [Array.length_toList, hsize]), ← hbs, List.take_length]

/-- The elements of a sound column are of its kind. -/
theorem kind_of_mem {c : Column} {s : Scalar} (hc : c.Sound) (hs : s ∈ c.toList) :
    s.kind = c.kind := by
  cases c with
  | cells kind items => exact hc s (Array.mem_toList_iff.mp hs)
  | packed width count data =>
    have hsize : data.size = count * width := hc
    obtain ⟨i, hi, rfl⟩ := List.mem_map.mp hs
    have hi : i + 1 ≤ count := List.mem_range.mp hi
    have hle : (i + 1) * width ≤ count * width := Nat.mul_le_mul_right width hi
    rw [Nat.succ_mul] at hle
    have hlen : (cut width data i).length = width := by
      rw [cut_eq, List.length_take, List.length_drop, Array.length_toList]
      omega
    exact congrArg ElementKind.bytes hlen

/-! ## The three operations -/

theorem sound_empty (kind : ElementKind) : (empty kind).Sound := by
  cases kind <;> simp [empty, Sound]

@[simp] theorem toList_empty (kind : ElementKind) : (empty kind).toList = [] := by
  cases kind <;> rfl

@[simp] theorem kind_empty (kind : ElementKind) : (empty kind).kind = kind := by
  cases kind <;> rfl

@[simp] theorem length_toList (c : Column) : c.toList.length = c.size := by
  cases c <;> simp [toList, size]

@[simp] theorem size_empty (kind : ElementKind) : (empty kind).size = 0 := by
  cases kind <;> rfl

@[simp] theorem kind_push (c : Column) (s : Scalar) : (c.push s).kind = c.kind := by
  cases c with
  | cells kind items => simp only [push]; split <;> rfl
  | packed width count data =>
    cases s with
    | bytes bs => simp only [push]; split <;> rfl
    | _ => rfl

/-- **A scalar of the column's kind goes behind the others**, and the column stays sound. -/
theorem push_of_kind {c : Column} {s : Scalar} (hc : c.Sound) (hs : s.kind = c.kind) :
    (c.push s).Sound ∧ (c.push s).toList = c.toList ++ [s] := by
  cases c with
  | cells kind items =>
    have hk : s.kind = kind := hs
    simp only [push, if_pos hk, Sound, toList, Array.toList_push, and_true]
    intro t ht
    rcases Array.mem_push.mp ht with ht | rfl
    · exact hc t ht
    · exact hk
  | packed width count data =>
    have hsize : data.size = count * width := hc
    cases s with
    | bytes bs =>
      have hbs : bs.length = width := ElementKind.bytes.inj hs
      simp only [push, if_pos hbs]
      refine ⟨?_, ?_⟩
      · show (data.appendList bs).size = (count + 1) * width
        rw [← Array.length_toList, Array.appendList_eq_append, Array.toList_appendList,
          List.length_append, Array.length_toList, hsize, hbs, Nat.succ_mul]
      · simp only [toList, List.range_succ, List.map_append, List.map_cons, List.map_nil,
          cut_appendList_self hsize hbs]
        congr 1
        refine List.map_congr_left fun i hi => ?_
        have hi : i + 1 ≤ count := List.mem_range.mp hi
        have hle : (i + 1) * width ≤ count * width := Nat.mul_le_mul_right width hi
        rw [Nat.succ_mul] at hle
        rw [cut_appendList bs (by rw [hsize]; exact hle)]
    | _ => exact absurd hs (by simp [Scalar.kind, kind])

theorem size_push_of_kind {c : Column} {s : Scalar} (hc : c.Sound) (hs : s.kind = c.kind) :
    (c.push s).size = c.size + 1 := by
  rw [← length_toList, (push_of_kind hc hs).2, List.length_append, length_toList]
  rfl

/-- A scalar of another kind leaves the column as it is. -/
theorem push_of_kind_ne {c : Column} {s : Scalar} (hs : s.kind ≠ c.kind) : c.push s = c := by
  cases c with
  | cells kind items => exact if_neg hs
  | packed width count data =>
    cases s with
    | bytes bs =>
      have hbs : bs.length ≠ width := fun h => hs (congrArg ElementKind.bytes h)
      exact if_neg hbs
    | _ => rfl

/-- Reading by number is indexing the list. -/
theorem get?_eq_getElem? (c : Column) (index : Nat) : c.get? index = c.toList[index]? := by
  cases c with
  | cells kind items => simp [get?, toList]
  | packed width count data =>
    simp only [get?, toList, List.getElem?_map]
    by_cases h : index < count
    · rw [if_pos h, List.getElem?_range h, Option.map_some]
    · rw [if_neg h, List.getElem?_eq_none (by rw [List.length_range]; omega), Option.map_none]

/-! ## Bytes -/

theorem sum_map_of_forall {α : Type} {f : α → Nat} {n : Nat} {xs : List α} (h : ∀ x ∈ xs, f x = n) :
    (xs.map f).sum = xs.length * n := by
  rw [List.map_congr_left h, List.map_const', List.sum_replicate_nat]

/-- **A column has as many bytes as its elements together.** -/
theorem byteSize_eq_sum {c : Column} (hc : c.Sound) :
    c.byteSize = (c.toList.map Scalar.byteSize).sum := by
  have hkind : ∀ s ∈ c.toList, s.kind = c.kind := fun s hs => kind_of_mem hc hs
  cases c with
  | cells kind items =>
    by_cases htext : kind = .text
    · subst htext
      show items.foldl (fun n s => n + s.byteSize) 0 = _
      rw [← Array.foldl_toList, ← List.foldl_map, ← List.sum_eq_foldl]
      rfl
    · -- all other kinds have one size
      have hsize : ∀ s ∈ items.toList, s.byteSize = kind.byteSize?.getD 0 := by
        intro s hs
        have hs : s.kind = kind := hkind s hs
        subst hs
        cases s with
        | text t => exact absurd rfl htext
        | _ => rfl
      rw [toList, sum_map_of_forall hsize, Array.length_toList]
      cases kind with
      | text => exact absurd rfl htext
      | _ => rfl
  | packed width count data =>
    have hsize : ∀ s ∈ toList (.packed width count data), s.byteSize = width := by
      intro s hs
      have hs := hkind s hs
      cases s with
      | bytes bs => exact ElementKind.bytes.inj hs
      | _ => exact absurd hs (by simp [Scalar.kind, kind])
    rw [sum_map_of_forall hsize, length_toList]
    rfl

end Column

end Ragged
