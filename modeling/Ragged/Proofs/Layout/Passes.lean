import Ragged.Proofs.Except
import Ragged.Proofs.Value.Elements

/-!
# What one step of writing comes to

Writing hands the value back, keeps count of elements, compares lengths where they are known before
the elements come and again when they have come. What becomes of the store is told by much less:

> at a dimension, once the number of elements is accepted, the outcome is that of writing them one
> after the other, `writeAll`.

There are two lemmas for each kind of dimension. One says when a value is accepted and what the
outcome is then, with errors, so that it serves to show success as well as failure; the other says
that a value that is written was accepted. `writeFrom` is the writing of an instance at some depth,
which only messages show.
-/

set_option autoImplicit false

namespace Ragged

namespace Layout

/-- Writes values one after the other into one block. -/
def writeAll (writeOne : WriteOne) : List Value → Store → Block → Written
  | [], s, b => .ok (s, b)
  | x :: xs, s, b =>
    match (writeOne x s b).2 with
    | .error e => .error e
    | .ok (s, b) => writeAll writeOne xs s b

/-- Writes values as one row and adds it to the others. -/
def writeAllAsRow (writeOne : WriteOne) (inner : Layout) (capacity : Nat) (xs : List Value)
    (s : Store) (rows : Array Row) : Written :=
  let (s, row) := inner.allocate s (.growable capacity)
  match writeAll writeOne xs s row with
  | .error e => .error e
  | .ok (s, row) =>
    match s.freeze row with
    | .error e => .error e
    | .ok s => .ok (s, .var (rows.push ⟨xs.length, row⟩))

/-- Writes one instance of a layout that is found at some depth. -/
def writeFrom (l : Layout) (depth : Nat) : WriteOne :=
  writeDims l.leaf (writeLeaf l.leaf) l.dims depth

theorem write_eq_writeFrom (l : Layout) : l.write = l.writeFrom 0 := by
  cases l
  rfl

/-! ## A pass over elements -/

section Items

variable {writeOne : WriteOne} {depth : Nat} {limit : Option Nat}

/-- If there are as many elements as wanted, they are written one after the other. -/
theorem outcome_writeItems (xs : Supply Value) :
    ∀ (count : Nat) (done : List Value) (s : Store) (b : Block),
      (∀ n, limit = some n → n = count + xs.toList.length) →
      (writeItems writeOne depth limit count done xs s b).outcome
        = writeAll writeOne xs.toList s b := by
  induction xs with
  | nil =>
    intro count done s b hlimit
    cases limit with
    | none => rfl
    | some n =>
      have hn : n = count := hlimit n rfl
      simp only [writeItems, hn, Nat.lt_irrefl, if_false]
      rfl
  | cons x rest ih =>
    intro count done s b hlimit
    rw [Supply.toList_cons] at hlimit ⊢
    have hne : limit ≠ some count := by
      intro heq
      have hn := hlimit count heq
      simp only [List.length_cons] at hn
      omega
    rw [writeItems, if_neg hne, writeAll]
    cases hw : writeOne x s b with
    | mk v outcome => cases outcome with
      | error e => rfl
      | ok sb =>
        refine ih ⟨⟩ (count + 1) (v :: done) sb.1 sb.2 fun n hn => ?_
        rw [hlimit n hn, List.length_cons]
        omega

/-- If all went well there were as many elements as wanted, and all were asked for. -/
theorem length_of_writeItems_ok (xs : Supply Value) :
    ∀ {count : Nat} {done : List Value} {s : Store} {b : Block} {r : Store × Block},
      (∀ n, limit = some n → count ≤ n) →
      (writeItems writeOne depth limit count done xs s b).outcome = .ok r →
      (∀ n, limit = some n → n = count + xs.toList.length) ∧
        (writeItems writeOne depth limit count done xs s b).done.length
          = done.length + xs.toList.length := by
  induction xs with
  | nil =>
    intro count done s b r hle h
    refine ⟨fun n hn => ?_, by simp [writeItems]⟩
    have hcount := hle n hn
    by_cases hlt : count < n
    · simp [writeItems, hn, hlt] at h
    · show n = count
      omega
  | cons x rest ih =>
    intro count done s b r hle h
    rw [Supply.toList_cons, List.length_cons]
    by_cases hlast : limit = some count
    · rw [writeItems, if_pos hlast] at h
      exact absurd h (by simp)
    · rw [writeItems, if_neg hlast] at h ⊢
      cases hw : writeOne x s b with
      | mk v outcome =>
        rw [hw] at h
        cases outcome with
        | error e => exact absurd h (by simp)
        | ok sb =>
          have hle' : ∀ n, limit = some n → count + 1 ≤ n := by
            intro n hn
            have hcount := hle n hn
            have hne : n ≠ count := fun heq => hlast (heq ▸ hn)
            omega
          obtain ⟨hlimit, hdone⟩ := ih ⟨⟩ hle' h
          refine ⟨fun n hn => by rw [hlimit n hn]; omega, ?_⟩
          show (writeItems writeOne depth limit (count + 1) (v :: done) (rest ⟨⟩) sb.1 sb.2).done.length
            = _
          rw [hdone, List.length_cons]
          omega

end Items

/-! ## The three kinds of dimension -/

section Dims

variable {dims : List LayoutDim} {leaf : LayoutLeaf} {depth : Nat} {v : Value} {s : Store}
  {b : Block}

theorem writeRegular_of_length {writeOne : WriteOne} {n : Nat} {c : Children}
    (hhint : ∀ m, c.lengthHint? = some m → m = c.elements.toList.length)
    (hn : c.elements.toList.length = n) :
    (writeRegular writeOne depth n c v s b).2 = writeAll writeOne c.elements.toList s b := by
  have hlength : c.lengthHint?.getD n = n := by
    cases h : c.lengthHint? with
    | none => rfl
    | some m => rw [Option.getD_some, hhint m h, hn]
  simp only [writeRegular, hlength, Nat.lt_irrefl, if_false]
  exact outcome_writeItems _ 0 [] s b fun m hm => by rw [← Option.some.inj hm, hn, Nat.zero_add]

theorem length_of_writeRegular_ok {writeOne : WriteOne} {n : Nat} {c : Children}
    {r : Store × Block} (h : (writeRegular writeOne depth n c v s b).2 = .ok r) :
    c.elements.toList.length = n := by
  simp only [writeRegular] at h
  split at h
  · exact absurd h (by simp)
  · split at h
    · exact absurd h (by simp)
    · have hlen := (length_of_writeItems_ok c.elements (fun _ _ => Nat.zero_le _) h).1 n rfl
      rw [hlen, Nat.zero_add]

/-- What has no elements is not written at a dimension. -/
theorem writeFrom_ne_ok {d : LayoutDim} {e : BuildError} {r : Store × Block}
    (he : v.childrenAt depth = .error e) :
    (writeFrom ⟨d :: dims, leaf⟩ depth v s b).2 ≠ .ok r := by
  cases d with
  | var => cases b <;> simp [writeFrom, writeDims, he]
  | fixed n => simp [writeFrom, writeDims, he]
  | strided slot => simp [writeFrom, writeDims, he]

theorem writeFrom_fixed_of_children {n : Nat} {c : Children} (hc : v.childrenAt depth = .ok c) :
    writeFrom ⟨.fixed n :: dims, leaf⟩ depth v s b =
      writeRegular (writeFrom ⟨dims, leaf⟩ (depth + 1)) depth n c v s b := by
  simp only [writeFrom, writeDims, hc]

theorem writeFrom_strided_of_children {slot : Nat} {c : Children}
    (hc : v.childrenAt depth = .ok c) :
    writeFrom ⟨.strided slot :: dims, leaf⟩ depth v s b =
      if c.isIterator then (v, .error (.source (.stridedIterator depth)))
      else
        writeRegular (writeFrom ⟨dims, leaf⟩ (depth + 1)) depth
          (s.settle slot (c.lengthHint?.getD 0)).2 c v (s.settle slot (c.lengthHint?.getD 0)).1 b := by
  simp only [writeFrom, writeDims, hc]

/-- At a fixed dimension. -/
theorem writeFrom_fixed {n : Nat} {xs : List Value} (hxs : v.items? = some xs)
    (hn : xs.length = n) :
    (writeFrom ⟨.fixed n :: dims, leaf⟩ depth v s b).2 =
      writeAll (writeFrom ⟨dims, leaf⟩ (depth + 1)) xs s b := by
  obtain ⟨c, hc, -, hels, -, hhint, -⟩ := Value.childrenAt_of_items? hxs depth
  rw [← hels] at hn hhint ⊢
  rw [writeFrom_fixed_of_children hc]
  exact writeRegular_of_length hhint hn

theorem items_of_writeFrom_fixed {n : Nat} {r : Store × Block}
    (h : (writeFrom ⟨.fixed n :: dims, leaf⟩ depth v s b).2 = .ok r) :
    ∃ xs, v.items? = some xs ∧ xs.length = n := by
  cases hxs : v.items? with
  | none =>
    obtain ⟨e, he⟩ := Value.childrenAt_of_none hxs depth
    exact absurd h (writeFrom_ne_ok he)
  | some xs =>
    obtain ⟨c, hc, -, hels, -⟩ := Value.childrenAt_of_items? hxs depth
    rw [writeFrom_fixed_of_children hc] at h
    exact ⟨xs, rfl, by rw [← hels]; exact length_of_writeRegular_ok h⟩

/-- At a strided dimension, where the first instance settles the extent. -/
theorem writeFrom_strided {slot : Nat} {xs : List Value} (hv : v.isIterator = false)
    (hxs : v.items? = some xs) (hn : (s.settle slot xs.length).2 = xs.length) :
    (writeFrom ⟨.strided slot :: dims, leaf⟩ depth v s b).2 =
      writeAll (writeFrom ⟨dims, leaf⟩ (depth + 1)) xs (s.settle slot xs.length).1 b := by
  obtain ⟨c, hc, -, hels, hiter, hhint, hknown⟩ := Value.childrenAt_of_items? hxs depth
  rw [← hels] at hhint
  have hitems : ¬c.isIterator = true := by rw [hiter, hv]; exact Bool.false_ne_true
  rw [writeFrom_strided_of_children hc, if_neg hitems, hknown hv, Option.getD_some, hn, ← hels]
  exact writeRegular_of_length hhint rfl

theorem items_of_writeFrom_strided {slot : Nat} {r : Store × Block}
    (h : (writeFrom ⟨.strided slot :: dims, leaf⟩ depth v s b).2 = .ok r) :
    v.isIterator = false ∧
      ∃ xs, v.items? = some xs ∧ (s.settle slot xs.length).2 = xs.length := by
  cases hxs : v.items? with
  | none =>
    obtain ⟨e, he⟩ := Value.childrenAt_of_none hxs depth
    exact absurd h (writeFrom_ne_ok he)
  | some xs =>
    obtain ⟨c, hc, -, hels, hiter, -, hknown⟩ := Value.childrenAt_of_items? hxs depth
    rw [writeFrom_strided_of_children hc, hiter] at h
    cases hv : v.isIterator with
    | true => simp [hv] at h
    | false =>
      rw [hv, if_neg Bool.false_ne_true, hknown hv, Option.getD_some] at h
      exact ⟨rfl, xs, rfl, (length_of_writeRegular_ok h).symm.trans (congrArg List.length hels)⟩

/-- At a var dimension, where nothing is wanted of the number of elements. -/
theorem writeFrom_var {rows : Array Row} {xs : List Value} (hxs : v.items? = some xs) :
    (writeFrom ⟨.var :: dims, leaf⟩ depth v s (.var rows)).2 =
      writeAllAsRow (writeFrom ⟨dims, leaf⟩ (depth + 1)) ⟨dims, leaf⟩
        ((v.children?.bind Children.lengthHint?).getD 0) xs s rows := by
  obtain ⟨c, hc, hc', hels, -⟩ := Value.childrenAt_of_items? hxs depth
  rw [hc', Option.bind_some]
  simp only [writeFrom, writeDims, hc, writeRow, writeAllAsRow]
  cases allocate ⟨dims, leaf⟩ s (.growable (c.lengthHint?.getD 0)) with
  | mk s row =>
    have hout := @outcome_writeItems (writeDims leaf (writeLeaf leaf) dims (depth + 1)) depth none
      c.elements 0 [] s row fun n hn => absurd hn (by simp)
    have hdone := fun r => (@length_of_writeItems_ok
      (writeDims leaf (writeLeaf leaf) dims (depth + 1)) depth none c.elements 0 [] s row r
      fun n hn => absurd hn (by simp))
    rw [hels] at hout hdone
    -- the pass, seen as its four results
    generalize writeItems (writeDims leaf (writeLeaf leaf) dims (depth + 1)) depth none 0 []
      c.elements s row = pass at hout hdone
    obtain ⟨done, rest, atEnd, outcome⟩ := pass
    have hout : outcome = writeAll (writeDims leaf (writeLeaf leaf) dims (depth + 1)) xs s row :=
      hout
    rw [← hout]
    cases outcome with
    | error e => rfl
    | ok r =>
      obtain ⟨s₁, row₁⟩ := r
      have hlen : done.length = xs.length := by simpa using (hdone _ rfl).2
      cases hfreeze : s₁.freeze row₁ with
      | error e => simp only [hfreeze]
      | ok s₂ => simp only [hfreeze, hlen]

theorem items_of_writeFrom_var {rows : Array Row} {r : Store × Block}
    (h : (writeFrom ⟨.var :: dims, leaf⟩ depth v s (.var rows)).2 = .ok r) :
    ∃ xs, v.items? = some xs := by
  cases hxs : v.items? with
  | none =>
    obtain ⟨e, he⟩ := Value.childrenAt_of_none hxs depth
    exact absurd h (writeFrom_ne_ok he)
  | some xs => exact ⟨xs, rfl⟩

end Dims

/-! ## Records -/

section Records

variable {type : List Field} {layouts : List Layout} {blocks : List Block} {v : Value} {s : Store}

theorem writeLeaf_struct {values : List Value} (h : v.record? type = some values) :
    (writeLeaf (.struct type layouts) v s (.struct blocks)).2 =
      (writeFields layouts values blocks s).2.map fun (s, blocks) => (s, .struct blocks) := by
  have hok := (Value.recordFields_eq_ok_iff type v values).mpr h
  simp only [writeLeaf]
  cases hr : v.recordFields type with
  | mk w outcome =>
    rw [hr] at hok
    have hout : outcome = .ok values := hok
    subst hout
    rfl

theorem writeLeaf_struct_eq_ok {s' : Store} {b' : Block}
    (h : (writeLeaf (.struct type layouts) v s (.struct blocks)).2 = .ok (s', b')) :
    ∃ values blocks', v.record? type = some values ∧
      (writeFields layouts values blocks s).2 = .ok (s', blocks') ∧ b' = .struct blocks' := by
  have hrecord : ∃ values, v.record? type = some values := by
    simp only [writeLeaf] at h
    cases hr : v.recordFields type with
    | mk w outcome =>
      cases outcome with
      | error e => rw [hr] at h; exact absurd h (by simp)
      | ok values => exact ⟨values, (Value.recordFields_eq_ok_iff type v values).mp (by rw [hr])⟩
  obtain ⟨values, hvalues⟩ := hrecord
  rw [writeLeaf_struct hvalues] at h
  obtain ⟨⟨s₁, blocks'⟩, hfields, h⟩ := map_eq_ok.mp h
  obtain ⟨rfl, rfl⟩ := Prod.mk.inj h
  exact ⟨values, blocks', hvalues, hfields, rfl⟩

theorem writeFields_cons (l : Layout) (ls : List Layout) (vs : List Value) (b : Block)
    (bs : List Block) :
    (writeFields (l :: ls) (v :: vs) (b :: bs) s).2 = (l.writeFrom 0 v s b).2.bind fun (s, b) =>
      (writeFields ls vs bs s).2.map fun (s, bs) => (s, b :: bs) := by
  rw [writeFields, write_eq_writeFrom]
  cases l.writeFrom 0 v s b with
  | mk w outcome => cases outcome <;> rfl

end Records

end Layout

end Ragged
