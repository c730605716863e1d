import Ragged.Proofs.Leaf.Stored
import Ragged.Proofs.Type.Structure

/-!
# A layout is its type with numbers and kinds

Making a layout adds two things to a type, a slot for every strided dimension and a kind of column
for every leaf, and changes nothing:

> without what was added a layout is the type it was made of; the slots are numbered as they are
> written down, from 0 on and without a gap; and a leaf has the kind of everything that is ever
> stored in it (`layout_mirrors`).

The size of a string of fixed width is a product, and a machine may get it wrong if it is large. The
kind of the leaf and what is stored are then wrong in the same way, so all of this is said of every
machine.

A record is in a layout twice over, as the type it was declared with and as the layouts of its
fields. `Layout.type` reads the second, so that both have to agree at every record
(`LayoutLeaf.Faithful`).
-/

set_option autoImplicit false

namespace Ragged

mutual

/-- A layout and all those inside it, which are those of the fields of records. -/
def Layout.nodes : Layout → List Layout
  | ⟨dims, leaf⟩ => ⟨dims, leaf⟩ :: leaf.nodes

def LayoutLeaf.nodes : LayoutLeaf → List Layout
  | .element _ _ => []
  | .struct _ layouts => Layout.nodesAll layouts

def Layout.nodesAll : List Layout → List Layout
  | [] => []
  | l :: rest => l.nodes ++ Layout.nodesAll rest

end

theorem Layout.nodes_eq (l : Layout) : l.nodes = l :: l.leaf.nodes := by
  cases l
  rfl

/-! ## What a layout was made of -/

/-- A dimension without its slot. -/
def LayoutDim.dimension : LayoutDim → Dimension
  | .fixed n => .fixed n
  | .strided _ => .strided
  | .var => .var

mutual

/-- The type of a layout: its dimensions without slots, and its leaf without the kind of column. -/
def Layout.type : Layout → ArrayType
  | ⟨dims, leaf⟩ => ⟨dims.map LayoutDim.dimension, leaf.type⟩

/-- The fields of a record have the names they were declared with, and the types of their layouts. -/
def LayoutLeaf.type : LayoutLeaf → LeafType
  | .element _ leaf => leaf
  | .struct type layouts => .struct (Layout.named (Struct.names type) layouts)

def Layout.named : List String → List Layout → List Field
  | name :: names, l :: rest => ⟨name, l.type⟩ :: Layout.named names rest
  | _, _ => []

end

theorem Dimension.dimension_place (free : Nat) (d : Dimension) : (d.place free).dimension = d := by
  cases d <;> rfl

/-- **Without numbers and kinds, a layout is the type it was made of.** -/
theorem ArrayType.type_layoutFrom [Machine] (t : ArrayType) :
    ∀ free, (t.layoutFrom free).type = t := by
  induction t using ArrayType.induction with
  | scalar k => exact fun _ => rfl
  | string s => exact fun _ => rfl
  | struct fields ih =>
    have hfields : ∀ free,
        Layout.named (Struct.names fields) (Struct.layoutsFrom free fields) = fields := by
      induction fields with
      | nil => exact fun _ => rfl
      | cons f rest ihrest =>
        intro free
        obtain ⟨hf, hrest⟩ := List.forall_mem_cons.mp ih
        obtain ⟨name, type⟩ := f
        rw [Struct.layoutsFrom_cons]
        show ⟨name, (type.layoutFrom free).type⟩ ::
          Layout.named (Struct.names rest) (Struct.layoutsFrom _ rest) = ⟨name, type⟩ :: rest
        rw [hf, ihrest hrest]
    intro free
    rw [layoutFrom_struct]
    show ArrayType.mk [] (.struct (Layout.named _ _)) = _
    rw [hfields]
  | dim d dims leaf ih =>
    intro free
    have hinner := ih (free + d.slots)
    rw [layoutFrom_cons]
    generalize layoutFrom (free + d.slots) ⟨dims, leaf⟩ = inner at hinner ⊢
    obtain ⟨innerDims, innerLeaf⟩ := inner
    obtain ⟨rfl, rfl⟩ := ArrayType.mk.inj hinner
    show ArrayType.mk ((d.place free :: innerDims).map LayoutDim.dimension) innerLeaf.type = _
    rw [List.map_cons, d.dimension_place]

/-! ## What the leaves say -/

/-- The kind is that of whatever the leaf stores, and the leaf does store something. -/
def LeafType.Stores [Machine] (leaf : LeafType) (kind : ElementKind) : Prop :=
  ∀ k, (∃ a s, leaf.store a = .ok s ∧ s.kind = k) ↔ k = kind

/-- A column is of the kind of what its leaf stores; a record was declared with the types that its
fields are laid out for. -/
def LayoutLeaf.Faithful [Machine] : LayoutLeaf → Prop
  | .element kind leaf => leaf.Stores kind
  | .struct type layouts => (LayoutLeaf.struct type layouts).type = .struct type

theorem LeafType.stores_of_kind [Machine] {leaf : LeafType} {kind : ElementKind}
    (hkind : ∀ {a : Atom} {s : Scalar}, leaf.store a = .ok s → s.kind = kind)
    (hstores : ∃ a s, leaf.store a = .ok s) : leaf.Stores kind := by
  intro k
  constructor
  · rintro ⟨a, s, hs, rfl⟩
    exact hkind hs
  · rintro rfl
    obtain ⟨a, s, hs⟩ := hstores
    exact ⟨a, s, hs, hkind hs⟩

/-- Every kind of number has a zero, and a truth value may be given as a number. -/
theorem ScalarKind.stores [Machine] (k : ScalarKind) :
    (LeafType.scalar k).Stores k.elementKind := by
  have hzero : (k.represent? (.int 0)).isSome = true := by cases k <;> decide +kernel
  obtain ⟨s, hs⟩ := Option.isSome_iff_exists.mp hzero
  exact LeafType.stores_of_kind ScalarKind.kind_of_store
    ⟨.int 0, s, by simp only [LeafType.store, hs]⟩

/-- Every type of texts has the empty one. -/
theorem StringType.stores [Machine] (t : StringType) :
    (LeafType.string t).Stores t.elementKind := by
  refine LeafType.stores_of_kind StringType.kind_of_store ⟨.text "", ?_⟩
  have hunits : t.encoding.bytes "" = [] := by cases t.encoding <;> rfl
  have hascii : ¬(t.encoding = .ascii ∧ ¬"".toList.all (·.toNat < 128) = true) := fun h => h.2 rfl
  simp only [LeafType.store, encode, if_neg hascii]
  cases t.width with
  | none => exact ⟨_, rfl⟩
  | some width => simp only [hunits, List.length_nil, Nat.zero_div, Nat.not_lt_zero, if_false,
      Except.ok.injEq, exists_eq']

/-- **All leaves of the layout of a type are what they say**, at any depth. -/
theorem ArrayType.faithful_layoutFrom [Machine] (t : ArrayType) :
    ∀ free, ∀ node ∈ (t.layoutFrom free).nodes, node.leaf.Faithful := by
  -- the nodes inside a layout are those of its leaf, whatever dimensions stand before it
  suffices h : ∀ free, (t.layoutFrom free).leaf.Faithful ∧
      ∀ node ∈ (t.layoutFrom free).leaf.nodes, node.leaf.Faithful by
    intro free
    rw [Layout.nodes_eq]
    exact List.forall_mem_cons.mpr (h free)
  induction t using ArrayType.induction with
  | scalar k => exact fun _ => ⟨k.stores, fun _ h => absurd h List.not_mem_nil⟩
  | string s => exact fun _ => ⟨s.stores, fun _ h => absurd h List.not_mem_nil⟩
  | struct fields ih =>
    intro free
    have htype := type_layoutFrom ⟨[], .struct fields⟩ free
    rw [layoutFrom_struct] at htype ⊢
    refine ⟨(ArrayType.mk.inj htype).2, ?_⟩
    show ∀ node ∈ Layout.nodesAll (Struct.layoutsFrom free fields), _
    clear htype
    induction fields generalizing free with
    | nil => exact fun _ h => absurd h List.not_mem_nil
    | cons f rest ihrest =>
      obtain ⟨hf, hrest⟩ := List.forall_mem_cons.mp ih
      rw [Struct.layoutsFrom_cons, Layout.nodesAll]
      exact List.forall_mem_append.mpr
        ⟨Layout.nodes_eq _ ▸ List.forall_mem_cons.mpr (hf free),
          ihrest hrest (free + f.type.strides)⟩
  | dim d dims leaf ih =>
    intro free
    rw [layoutFrom_cons]
    exact ih (free + d.slots)

/-! ## The next var dimension -/

/-- The index is that of the first var dimension from a start on; without one it is the number of
dimensions. -/
structure Layout.IsNextVar (l : Layout) (start index : Nat) : Prop where
  none_before : ∀ j, start ≤ j → j < index → l.dims[j]? ≠ some .var
  found_or_end : (start ≤ index ∧ l.dims[index]? = some .var) ∨ index = l.dims.length

theorem LayoutDim.isVar_iff {d : LayoutDim} : d.isVar = true ↔ d = .var := by
  cases d <;> simp [isVar]

theorem Layout.isNextVar_nextVar (l : Layout) (start : Nat) :
    l.IsNextVar start (l.nextVar start) := by
  unfold nextVar
  cases hfind : (l.dims.drop start).findIdx? LayoutDim.isVar with
  | none =>
    rw [List.findIdx?_eq_none_iff] at hfind
    refine ⟨fun j hj _ hvar => ?_, .inr rfl⟩
    -- counted from the start, it would be among those that were looked through
    have hmem : LayoutDim.var ∈ l.dims.drop start := by
      apply List.mem_of_getElem? (i := j - start)
      rw [List.getElem?_drop, Nat.add_sub_cancel' hj, hvar]
    exact absurd (hfind .var hmem) (by simp [LayoutDim.isVar])
  | some i =>
    rw [List.findIdx?_eq_some_iff_getElem] at hfind
    obtain ⟨hi, hvar, hbefore⟩ := hfind
    refine ⟨fun j hj (hlt : j < start + i) hvar' => ?_, .inl ⟨Nat.le_add_right _ _, ?_⟩⟩
    · have hget : (l.dims.drop start)[j - start]? = some .var := by
        rw [List.getElem?_drop, Nat.add_sub_cancel' hj, hvar']
      obtain ⟨hj', hget⟩ := List.getElem?_eq_some_iff.mp hget
      exact hbefore (j - start) (by omega) (by rw [hget]; rfl)
    · rw [← List.getElem?_drop, List.getElem?_eq_getElem hi, LayoutDim.isVar_iff.mp hvar]

/-! ## The layout of a type -/

/-- The layout has the type, so many slots, and nothing in it is amiss. -/
structure Layout.Mirrors [Machine] (l : Layout) (slots : Nat) (t : ArrayType) : Prop where
  /-- Of each number below the number of slots there is one strided dimension, and in order. -/
  slots : l.slotNumbers = List.range slots
  type : l.type = t
  leaves : ∀ node ∈ l.nodes, node.leaf.Faithful
  nextVar : ∀ node ∈ l.nodes, ∀ start, node.IsNextVar start (node.nextVar start)

/-- **The layout of a type mirrors it**, however deep its records are nested, and whatever a machine
makes of the sizes of its strings. -/
theorem ArrayType.layout_mirrors [Machine] (t : ArrayType) : t.layout.Mirrors t.slots t where
  slots := by rw [layout_eq, slotNumbers_layoutFrom, slots_eq, List.range_eq_range']
  type := t.type_layoutFrom 0
  leaves := t.faithful_layoutFrom 0
  nextVar := fun node _ start => node.isNextVar_nextVar start

/-- Where sizes wrap, the size of a string may be none at all. Its column is then one of nothing, and
so is everything in it. -/
example :
    @ArrayType.layout .wrapping ⟨[.strided], .string ⟨.utf32, some 4611686018427387904⟩⟩ =
      ⟨[.strided 0], .element (.bytes 0) (.string ⟨.utf32, some 4611686018427387904⟩)⟩ ∧
    @LeafType.store .wrapping (.string ⟨.utf32, some 4611686018427387904⟩) (.text "a") =
      .ok (.bytes []) :=
  ⟨rfl, rfl⟩

end Ragged
