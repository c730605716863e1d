import Ragged.Proofs.Layout.Blocks
import Ragged.Proofs.Value.Paths

/-!
# What is held is read

The write pass says what blocks hold without any index; reading goes by index alone. They meet here:

> what a block holds as its i-th instance is what reading instance i gives, along any path that the
> type has.

At a regular dimension this is the arithmetic of row-major order. All lists that such a block holds
have one length, so element j of list i stands at `i * length + j` among the elements of all.

Reading a record enters its fields in a mapping one by one, where a second field of one name takes
the first one's place. `Value.along` does the same to the value that is held, so it need not be
excluded here.
-/

set_option autoImplicit false

namespace Ragged

/-! ## Row-major order -/

/-- Reading numbers in a row reads the list that stands there. -/
theorem collect_eq {f : Nat → Except BuildError Value} {g : Value → Value} {xs : List Value} :
    ∀ {next : Nat} (done : List Value),
      (∀ j x, xs[j]? = some x → f (next + j) = .ok (g x)) →
      collect f xs.length next done = .ok (done.reverse ++ xs.map g) := by
  induction xs with
  | nil => intro next done _; rw [List.length_nil, collect, List.map_nil, List.append_nil]
  | cons x xs ih =>
    intro next done h
    have hx : f next = .ok (g x) := h 0 x rfl
    have hrest : ∀ j y, xs[j]? = some y → f (next + 1 + j) = .ok (g y) := by
      intro j y hy
      have hnext := h (j + 1) y hy
      rw [← hnext]
      congr 1
      omega
    rw [List.length_cons, collect, hx]
    show collect f xs.length (next + 1) (g x :: done) = _
    rw [ih (g x :: done) hrest, List.reverse_cons, List.append_assoc, List.singleton_append,
      List.map_cons]

/-- The elements of lists of one length, one list behind the other. -/
theorem getElem?_flatten {kids : List (List Value)} {n : Nat} :
    ∀ {i j : Nat} {kid : List Value} {x : Value}, (∀ kid ∈ kids, kid.length = n) →
      kids[i]? = some kid → kid[j]? = some x → kids.flatten[i * n + j]? = some x := by
  induction kids with
  | nil => intro i j kid x _ hkid _; exact absurd hkid (by simp)
  | cons first rest ih =>
    intro i j kid x hlen hkid hx
    obtain ⟨hfirst, hrest⟩ := List.forall_mem_cons.mp hlen
    rw [List.flatten_cons]
    cases i with
    | zero =>
      obtain rfl : first = kid := by simpa using hkid
      have hlt : j < first.length := (List.getElem?_eq_some_iff.mp hx).1
      rw [Nat.zero_mul, Nat.zero_add, List.getElem?_append_left hlt, hx]
    | succ i =>
      have hpos : (i + 1) * n + j - first.length = i * n + j := by
        rw [hfirst, Nat.succ_mul]
        omega
      have hle : first.length ≤ (i + 1) * n + j := by
        rw [hfirst, Nat.succ_mul]
        omega
      rw [List.getElem?_append_right hle, hpos]
      exact ih hrest hkid hx

theorem getElem?_of_forall₂ {α β : Type} {r : α → β → Prop} {xs : List α} {ys : List β}
    (h : List.Forall₂ r xs ys) :
    ∀ {i : Nat} {y : β}, ys[i]? = some y → ∃ x, xs[i]? = some x ∧ r x y := by
  induction h with
  | nil => intro i y hy; exact absurd hy (by simp)
  | cons hr hrest ih =>
    intro i y hy
    cases i with
    | zero =>
      obtain rfl := Option.some.inj hy
      exact ⟨_, rfl, hr⟩
    | succ i => exact ih hy

namespace Layout

section Read

variable {c : Contents}

/-- Instances that are held are read along the path. -/
def Reads (c : Contents) (l : Layout) (path : List Nat) : Prop :=
  ∀ (b : Block) (vs : List Value) (i : Nat) (v : Value), l.Holds ⟨c.arena, c.extents⟩ b vs →
    vs[i]? = some v → l.read c path b i = .ok (v.along path)

/-- The fields of one record, behind those that are read already. -/
theorem readRecord_of_holdAll {i : Nat} {fields : List Field} :
    ∀ {layouts : List Layout} {blocks : List Block} {records : List (List Value)}
      {ws : List Value} {done : List (String × Value)}, (∀ l ∈ layouts, l.Reads c []) →
      layouts.length = fields.length →
      HoldAll ⟨c.arena, c.extents⟩ layouts blocks records → records[i]? = some ws →
      ws.length = layouts.length →
      readRecord c layouts fields blocks i done =
        .ok (((Struct.names fields).zip (ws.map (Value.along []))).foldl
          (fun done e => Entries.put done e.1 e.2) done) := by
  induction fields with
  | nil =>
    intro layouts blocks records ws done _ hlen _ _ _
    obtain rfl := List.eq_nil_of_length_eq_zero hlen
    rfl
  | cons f fields ih =>
    intro layouts blocks records ws done hreads hlen hholds hws hwlen
    cases layouts with
    | nil => exact absurd hlen (by simp)
    | cons l layouts =>
      cases blocks with
      | nil => exact hholds.elim
      | cons b blocks =>
        cases ws with
        | nil => exact absurd hwlen (by simp)
        | cons w ws =>
          obtain ⟨hl, hls⟩ := List.forall_mem_cons.mp hreads
          have hfirst : l.read c [] b i = .ok (w.along []) :=
            hl b _ i w hholds.1 (by rw [List.getElem?_map, hws]; rfl)
          rw [readRecord, hfirst]
          exact ih hls (Nat.succ.inj hlen) hholds.2 (by rw [List.getElem?_map, hws]; rfl)
            (Nat.succ.inj hwlen)

/-- One field of one record, found by its position. -/
theorem readField_of_holdAll {i index : Nat} {type : List Field} {path : List Nat} {l : Layout}
    (hl : l.Reads c path) {layouts : List Layout} :
    ∀ {skip : Nat} {blocks : List Block} {records : List (List Value)} {ws : List Value}
      {w : Value}, layouts[skip]? = some l →
      HoldAll ⟨c.arena, c.extents⟩ layouts blocks records → records[i]? = some ws →
      ws[skip]? = some w →
      readField c layouts type index skip path blocks i = .ok (w.along path) := by
  induction layouts with
  | nil => intro skip blocks records ws w hskip; exact absurd hskip (by simp)
  | cons first layouts ih =>
    intro skip blocks records ws w hskip hholds hws hw
    cases blocks with
    | nil => exact hholds.elim
    | cons b blocks =>
      cases ws with
      | nil => exact absurd hw (by simp)
      | cons w' ws =>
        cases skip with
        | zero =>
          obtain rfl := Option.some.inj hskip
          obtain rfl := Option.some.inj hw
          exact hl b _ i _ hholds.1 (by rw [List.getElem?_map, hws]; rfl)
        | succ skip =>
          exact ih hskip hholds.2 (by rw [List.getElem?_map, hws]; rfl) hw

theorem reads_element {kind : ElementKind} {leaf : LeafType} (path : List Nat) :
    Reads c ⟨[], .element kind leaf⟩ path := by
  rintro b vs i v ⟨id, r, atoms, rfl, hr, -, -, hload, rfl⟩ hv
  rw [List.getElem?_map] at hv
  obtain ⟨a, ha, rfl⟩ := Option.map_eq_some_iff.mp hv
  have hstored : (r.column.toList.map leaf.load)[i]? = some (.ok a) := by
    rw [hload, List.getElem?_map, ha]
    rfl
  rw [List.getElem?_map] at hstored
  obtain ⟨stored, hget, hloaded⟩ := Option.map_eq_some_iff.mp hstored
  rw [← Column.get?_eq_getElem?] at hget
  have hcolumn : c.arena.column id = .ok r.column := by
    have hr : c.arena.regions[id.index]? = some r := hr
    simp only [Arena.column, Arena.region, hr]
    rfl
  show readElement c leaf (.leaf id) i = _
  simp only [readElement, hcolumn, hget, hloaded]
  rfl

/-- Reading goes by the extents that were found. -/
theorem extent_of_known {d : LayoutDim} {n : Nat}
    (h : Store.extent? ⟨c.arena, c.extents⟩ d = some n) : c.extent d = n := by
  cases d with
  | fixed m => exact Option.some.inj h
  | strided slot =>
    have h : c.extents.getD slot none = some n := h
    rw [Contents.extent, h, Option.getD_some]
  | var => exact absurd h (by simp [Store.extent?])

/-- At a regular dimension. -/
theorem reads_regular {d : LayoutDim} {dims : List LayoutDim} {leaf : LayoutLeaf} {path : List Nat}
    (hd : d.isVar = false) (h : Reads c ⟨dims, leaf⟩ path) : Reads c ⟨d :: dims, leaf⟩ path := by
  intro b vs i v hholds hv
  obtain ⟨kids, rfl, hextent, hholds⟩ := (holds_regular hd).mp hholds
  rw [List.getElem?_map] at hv
  obtain ⟨kid, hkid, rfl⟩ := Option.map_eq_some_iff.mp hv
  have hlen : ∀ k ∈ kids, k.length = c.extent d := fun k hk =>
    (extent_of_known (hextent k hk)).symm
  have hread : ∀ j x, kid[j]? = some x →
      readDims c (readLeaf c leaf path) dims b (i * c.extent d + j) = .ok (x.along path) :=
    fun j x hx => h b _ _ x hholds (getElem?_flatten hlen hkid hx)
  have hcollect := collect_eq [] hread
  rw [hlen kid (List.mem_of_getElem? hkid)] at hcollect
  show readDims c (readLeaf c leaf path) (d :: dims) b i = _
  rw [Value.along_list]
  cases d with
  | fixed n => simp only [readDims, hcollect]; rfl
  | strided slot => simp only [readDims, hcollect]; rfl
  | var => exact absurd hd (by simp [LayoutDim.isVar])

theorem reads_var {dims : List LayoutDim} {leaf : LayoutLeaf} {path : List Nat}
    (h : Reads c ⟨dims, leaf⟩ path) : Reads c ⟨.var :: dims, leaf⟩ path := by
  rintro b vs i v ⟨rows, kids, rfl, rfl, hrows⟩ hv
  rw [List.getElem?_map] at hv
  obtain ⟨kid, hkid, rfl⟩ := Option.map_eq_some_iff.mp hv
  obtain ⟨row, hrow, hlen, -, hholds⟩ := getElem?_of_forall₂ hrows hkid
  rw [Array.getElem?_toList] at hrow
  have hread : ∀ j x, kid[j]? = some x →
      readDims c (readLeaf c leaf path) dims row.block (0 + j) = .ok (x.along path) := by
    intro j x hx
    rw [Nat.zero_add]
    exact h row.block kid j x hholds hx
  have hcollect := collect_eq [] hread
  rw [← hlen] at hcollect
  show readDims c (readLeaf c leaf path) (.var :: dims) (.var rows) i = _
  rw [Value.along_list]
  simp only [readDims, hrow, hcollect]
  rfl

end Read

end Layout

/-- **What a block holds is read back**, whole or along a path of the type. -/
theorem ArrayType.reads {c : Contents} {t : ArrayType} :
    ∀ {path : List Nat}, t.HasPath path → ∀ free, (t.layoutFrom free).Reads c path := by
  induction t using ArrayType.induction with
  | scalar k => exact fun _ _ => Layout.reads_element _
  | string s => exact fun _ _ => Layout.reads_element _
  | struct fields ih =>
    rintro path hpath free b vs i v ⟨blocks, records, rfl, rfl, hlens, hholds⟩ hv
    rw [List.getElem?_map] at hv
    obtain ⟨ws, hws, rfl⟩ := Option.map_eq_some_iff.mp hv
    have hlen : ws.length = fields.length :=
      (hlens ws (List.mem_of_getElem? hws)).trans (Struct.length_layoutsFrom fields free)
    show Layout.readLeaf c (.struct fields (Struct.layoutsFrom free fields)) path
      (.struct blocks) i = _
    cases path with
    | nil =>
      have hreads : ∀ l ∈ Struct.layoutsFrom free fields, l.Reads c [] :=
        Struct.forall_layoutsFrom (fun f hf => @ih f hf [] trivial) free
      have hread : Layout.readRecord c (Struct.layoutsFrom free fields) fields blocks i [] = _ :=
        Layout.readRecord_of_holdAll hreads (Struct.length_layoutsFrom fields free) hholds hws
          (by rw [hlen, Struct.length_layoutsFrom])
      rw [Value.along_record]
      simp only [Layout.readLeaf, hread]
      rfl
    | cons index path =>
      obtain ⟨fields', f, hfields, hf, hpath⟩ := hpath
      obtain rfl := LeafType.struct.inj hfields
      obtain ⟨l, hl, hreads⟩ : ∃ l, (Struct.layoutsFrom free fields)[index]? = some l ∧
          l.Reads c path :=
        Struct.getElem?_layoutsFrom hf (ih f (List.mem_of_getElem? hf) hpath) free
      have hlt : index < ws.length := by
        rw [hlen]
        exact (List.getElem?_eq_some_iff.mp hf).1
      have hw := List.getElem?_eq_getElem hlt
      rw [Value.along_field (by rw [hlen, Struct.names, List.length_map]) hw]
      exact Layout.readField_of_holdAll hreads hl hholds hws hw
  | dim d dims leaf ih =>
    intro path hpath free
    have hinner : HasPath ⟨dims, leaf⟩ path := by cases path <;> exact hpath
    have hreads : (layoutFrom (free + d.slots) ⟨dims, leaf⟩).Reads c path := ih hinner _
    rw [layoutFrom_cons]
    cases d with
    | fixed n => exact Layout.reads_regular rfl hreads
    | strided => exact Layout.reads_regular rfl hreads
    | var => exact Layout.reads_var hreads

end Ragged
