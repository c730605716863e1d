import Ragged.Proofs.Layout.Arrays
import Ragged.Proofs.Number.Integers
import Ragged.Proofs.Shape.Survey
import Ragged.Shape.Resolve

/-!
# The type inferred from a value takes the value

Without a hint the type is made up from the shape: a dimension of each level, and for the leaf the
least type that holds the sample. A value that the shape covers conforms to that type, level by level
and field by field; what is left open is only whether the leaves store their scalars.

They do, with one exception. An integer among floats is a sample of floats, and not every integer is
one. So

> a value can be written at the type inferred from it, unless it has an integer where floats were
> inferred and no float is that integer.
-/

set_option autoImplicit false

namespace Ragged

/-! ## Dimensions -/

/-- A level becomes a dimension that admits the lengths seen. -/
theorem Level.admits_dimension {l : Level} {n : Nat} (h : l.lengths.Includes n) (σ : Nat → Nat)
    (slot : Nat) (isLazy : Bool) : l.dimension.Admits σ slot isLazy n := by
  unfold dimension
  split
  · trivial
  · cases hl : l.lengths with
    | unseen => rw [hl] at h; exact absurd h id
    | all m => rw [hl] at h; exact h
    | between lo hi => trivial

namespace Shape

variable {config : Config} {S : Shape} {t : ArrayType}

/-- As leaves stand right below the last level, each level becomes a dimension, and nothing else. -/
theorem type_of_infer (hS : S.Consistent) (h : S.infer config = .ok t) :
    t.dims = S.levels.map Level.dimension ∧ inferLeaf config S.leaf = .ok t.leaf := by
  obtain ⟨levels, leafDepth, leaf⟩ := S
  unfold infer at h
  cases hleaf : inferLeaf config leaf with
  | error e => simp [hleaf, bind, Except.bind] at h
  | ok l =>
    simp only [hleaf, bind, Except.bind, pure, Except.pure, Except.ok.injEq] at h
    subst h
    refine ⟨?_, rfl⟩
    have hrank : rank ⟨levels, leafDepth, .nothing⟩ = levels.length := by
      cases hd : leafDepth with
      | none => rfl
      | some d => exact hS.leafDepth hd
    simp only [dimensions, hrank, Nat.sub_self, List.replicate_zero, List.append_nil,
      List.take_length]

/-- Below a level comes the dimension made of it. -/
theorem inner_of_level (hS : S.Consistent) (h : S.infer config = .ok t) {depth : Nat} {l : Level}
    (hl : S.levels[depth]? = some l) :
    t.inner depth = ⟨l.dimension :: (t.inner (depth + 1)).dims, t.leaf⟩ := by
  obtain ⟨hlt, rfl⟩ := List.getElem?_eq_some_iff.mp hl
  simp only [ArrayType.inner]
  rw [(type_of_infer hS h).1, List.drop_eq_getElem_cons (by rw [List.length_map]; exact hlt),
    List.getElem_map]

/-- Where the leaves stand there are no dimensions left. -/
theorem inner_of_leaf (hS : S.Consistent) (h : S.infer config = .ok t) {depth : Nat}
    (hd : S.leafDepth = some depth) : t.inner depth = ⟨[], t.leaf⟩ := by
  rw [ArrayType.inner, List.drop_eq_nil_iff.mpr]
  rw [(type_of_infer hS h).1, List.length_map, hS.leafDepth hd]

theorem inner_zero (t : ArrayType) : t.inner 0 = t := by
  cases t
  rfl

end Shape

/-! ## Leaves -/

/-- The leaf type was inferred from a sample that includes the scalar. -/
def Sampled (config : Config) (leaf : LeafType) (a : Atom) : Prop :=
  ∃ s, Shape.inferLeaf config s = .ok leaf ∧ s.Includes a

section Sampled

variable {config : Config}

theorem not_sampled_struct {fields : List Field} {a : Atom} : ¬Sampled config (.struct fields) a := by
  rintro ⟨s, hleaf, ha⟩
  cases s with
  | nothing => exact ha
  | struct fields => exact ha
  | int lo hi =>
    unfold Shape.inferLeaf at hleaf
    cases hk : integerKind config.integerWidth lo hi with
    | error e => simp [hk, bind, Except.bind] at hleaf
    | ok k => simp [hk, bind, Except.bind, pure, Except.pure] at hleaf
  | _ => exact absurd hleaf (by simp [Shape.inferLeaf])

/-- The kind chosen for a range of integers is one of three, and has room for the range. -/
theorem integerKind_eq_ok {width : IntegerWidth} {lo hi : Int} {k : ScalarKind}
    (h : integerKind width lo hi = .ok k) :
    (k = .int32 ∨ k = .int64 ∨ k = .uint64) ∧ k.bounds.1 ≤ lo ∧ hi < k.bounds.2 := by
  simp only [integerKind] at h
  split at h
  · rename_i hfits
    obtain rfl := Except.ok.inj h
    exact ⟨.inl rfl, by simpa using hfits.2⟩
  · split at h
    · rename_i hfits
      obtain rfl := Except.ok.inj h
      exact ⟨.inr (.inl rfl), by simpa using hfits⟩
    · split at h
      · rename_i hfits
        obtain rfl := Except.ok.inj h
        exact ⟨.inr (.inr rfl), by simpa using hfits⟩
      · exact absurd h (by simp)

/-- Such a kind stores the integers in its range. -/
theorem ScalarKind.exists_represent? {k : ScalarKind} {a : Atom} {i : Int}
    (hk : k = .int32 ∨ k = .int64 ∨ k = .uint64) (ha : a.integer? = some i)
    (hlow : k.bounds.1 ≤ i) (hhigh : i < k.bounds.2) : ∃ s, k.represent? a = some s := by
  have hrange : k.inRange? a = some i := by
    rw [inRange?, ha]
    exact if_pos ⟨hlow, hhigh⟩
  rcases hk with rfl | rfl | rfl
  · exact ⟨_, by rw [represent?, hrange]; rfl⟩
  · exact ⟨_, by rw [represent?, hrange]; rfl⟩
  · exact ⟨_, by rw [represent?, hrange]; rfl⟩

/-- The numbers that truth values count as are floats. -/
theorem Atom.exists_real?_bool (b : Bool) : ∃ x, (Atom.bool b).real? = some x := by
  have htrue : (Binary64.ofInt? 1).isSome = true := by decide
  have hfalse : (Binary64.ofInt? 0).isSome = true := by decide +kernel
  cases b with
  | true => exact Option.isSome_iff_exists.mp htrue
  | false => exact Option.isSome_iff_exists.mp hfalse

theorem exists_store_of_represent? {k : ScalarKind} {a : Atom}
    (h : ∃ s, k.represent? a = some s) : ∃ s, (LeafType.scalar k).store a = .ok s := by
  obtain ⟨s, hs⟩ := h
  exact ⟨s, by simp only [LeafType.store, hs]⟩

/-- Where floats or complex numbers are wanted, all depends on whether the number is a float. -/
theorem exists_store_of_real? {k : ScalarKind} {a : Atom} {x : Binary64}
    (hk : k = .float64 ∨ k = .cfloat64) (ha : a.real? = some x) :
    ∃ s, (LeafType.scalar k).store a = .ok s := by
  apply exists_store_of_represent?
  rcases hk with rfl | rfl
  · exact ⟨_, by rw [ScalarKind.represent?, ha]; rfl⟩
  · cases a with
    | complex re im => exact ⟨_, rfl⟩
    | text text => exact absurd ha (by simp [Atom.real?])
    | _ => exact ⟨.complex64 x .zero, by simp [ScalarKind.represent?, Atom.complex?, ha]⟩

/-- The scalar is an integer that no float is, and the leaf is one for floats. -/
def Inexact (leaf : LeafType) (a : Atom) : Prop :=
  ∃ i k, a = .int i ∧ leaf = .scalar k ∧ (k = .float64 ∨ k = .cfloat64) ∧
    ∀ x : Binary64, x.integer? ≠ some i

theorem store_of_float {k : ScalarKind} {a : Atom} (hk : k = .float64 ∨ k = .cfloat64)
    (ha : LeafSample.float.Includes a) :
    (∃ s, (LeafType.scalar k).store a = .ok s) ∨ Inexact (.scalar k) a := by
  cases a with
  | bool b =>
    obtain ⟨x, hx⟩ := Atom.exists_real?_bool b
    exact .inl (exists_store_of_real? hk hx)
  | int i =>
    cases hi : Binary64.ofInt? i with
    | none => exact .inr ⟨i, k, rfl, rfl, hk, Binary64.ofInt?_eq_none_iff.mp hi⟩
    | some x => exact .inl (exists_store_of_real? hk hi)
  | float x => exact .inl (exists_store_of_real? hk rfl)
  | _ => exact absurd ha id

/-- **An inferred leaf stores the scalars it was inferred from**, if they are not inexact in it. -/
theorem store_of_sampled {leaf : LeafType} {a : Atom} (h : Sampled config leaf a) :
    (∃ s, leaf.store a = .ok s) ∨ Inexact leaf a := by
  obtain ⟨s, hleaf, ha⟩ := h
  cases s with
  | nothing | struct fields => exact absurd ha id
  | bool =>
    obtain rfl := Except.ok.inj hleaf
    cases a with
    | bool b => exact .inl ⟨_, rfl⟩
    | _ => exact absurd ha id
  | int lo hi =>
    unfold Shape.inferLeaf at hleaf
    cases hk : integerKind config.integerWidth lo hi with
    | error e => simp [hk, bind, Except.bind] at hleaf
    | ok k =>
      simp only [hk, bind, Except.bind, pure, Except.pure, Except.ok.injEq] at hleaf
      subst hleaf
      obtain ⟨hkind, hlow, hhigh⟩ := integerKind_eq_ok hk
      refine .inl (exists_store_of_represent? ?_)
      cases a with
      | bool b =>
        obtain ⟨hlo, hhi⟩ : lo ≤ 0 ∧ 1 ≤ hi := ha
        refine ScalarKind.exists_represent? hkind rfl ?_ ?_
        · cases b <;> simp <;> omega
        · cases b <;> simp <;> omega
      | int i =>
        obtain ⟨hlo, hhi⟩ : lo ≤ i ∧ i ≤ hi := ha
        exact ScalarKind.exists_represent? hkind rfl (by omega) (by omega)
      | _ => exact absurd ha id
  | float =>
    obtain rfl := Except.ok.inj hleaf
    exact store_of_float (.inl rfl) ha
  | complex =>
    obtain rfl := Except.ok.inj hleaf
    cases a with
    | complex re im => exact .inl ⟨_, rfl⟩
    | text text => exact absurd ha id
    | _ => exact store_of_float (.inr rfl) ha
  | text =>
    obtain rfl := Except.ok.inj hleaf
    cases a with
    | text text => exact .inl ⟨.text text, rfl⟩
    | _ => exact absurd ha id

/-- There are such integers. -/
example : (LeafType.scalar .float64).store (.int (2 ^ 53 + 1)) =
    .error (.type (.lossy "int" "9007199254740993" "float64")) := by decide

end Sampled

/-! ## Fields -/

section Fields

variable {config : Config} {σ : Nat → Nat}

theorem Shape.inferFields_cons_eq_ok {name : String} {shape : Shape}
    {rest : List (String × Shape)} {fields : List Field}
    (h : inferFields config ((name, shape) :: rest) = .ok fields) :
    ∃ t fields', shape.infer config = .ok t ∧ inferFields config rest = .ok fields' ∧
      fields = ⟨name, t⟩ :: fields' := by
  unfold inferFields at h
  cases ht : infer config shape with
  | error e => simp [ht, bind, Except.bind] at h
  | ok t =>
    cases hrest : inferFields config rest with
    | error e => simp [ht, hrest, bind, Except.bind] at h
    | ok fields' =>
      simp only [ht, hrest, bind, Except.bind, pure, Except.pure, Except.ok.injEq] at h
      exact ⟨t, fields', rfl, rfl, h.symm⟩

theorem Shape.names_of_inferFields {shapes : List (String × Shape)} :
    ∀ {fields : List Field}, inferFields config shapes = .ok fields →
      Struct.names fields = Entries.keys shapes := by
  induction shapes with
  | nil => intro fields h; rw [← Except.ok.inj h]; rfl
  | cons e rest ih =>
    intro fields h
    obtain ⟨t, fields', -, hrest, rfl⟩ := inferFields_cons_eq_ok h
    show e.1 :: Struct.names fields' = e.1 :: Entries.keys rest
    rw [ih hrest]

/-- The fields of an inferred struct have the types inferred from the shapes under their names. -/
theorem Shape.exists_of_inferFields {shapes : List (String × Shape)} :
    ∀ {fields : List Field}, inferFields config shapes = .ok fields →
      ∀ f ∈ fields, ∃ S, (f.name, S) ∈ shapes ∧ S.infer config = .ok f.type := by
  induction shapes with
  | nil =>
    intro fields h
    obtain rfl := Except.ok.inj h
    exact fun _ hf => absurd hf List.not_mem_nil
  | cons e rest ih =>
    intro fields h
    obtain ⟨t, fields', ht, hrest, rfl⟩ := inferFields_cons_eq_ok h
    refine List.forall_mem_cons.mpr ⟨⟨e.2, List.mem_cons_self, ht⟩, fun f hf => ?_⟩
    obtain ⟨S, hS, hinfer⟩ := ih hrest f hf
    exact ⟨S, List.mem_cons_of_mem _ hS, hinfer⟩

theorem Struct.nodup_of_firstRepeat {names : List String} :
    ∀ {seen : List String}, firstRepeat seen names = none →
      names.Nodup ∧ ∀ name ∈ names, name ∉ seen := by
  induction names with
  | nil => exact fun _ => ⟨List.nodup_nil, fun _ h => absurd h List.not_mem_nil⟩
  | cons name rest ih =>
    intro seen h
    unfold firstRepeat at h
    split at h
    · exact absurd h (by simp)
    · rename_i hseen
      obtain ⟨hnodup, hrest⟩ := ih h
      refine ⟨List.nodup_cons.mpr ⟨fun hmem => hrest name hmem List.mem_cons_self, hnodup⟩, ?_⟩
      refine List.forall_mem_cons.mpr ⟨hseen, fun other hother hmem => ?_⟩
      exact hrest other hother (List.mem_cons_of_mem _ hmem)

/-- A struct is made of fields only if no name comes twice. -/
theorem Struct.of_ofFields {fields : List Field} {s : Struct} (h : ofFields fields = .ok s) :
    s = fields ∧ (names fields).Nodup := by
  unfold ofFields at h
  split at h
  · exact absurd h (by simp)
  next hrepeat => exact ⟨(Except.ok.inj h).symm, (nodup_of_firstRepeat hrepeat).1⟩

/-- A struct that was inferred has the fields of the mappings, each of them once. -/
theorem fields_of_inferLeaf {shapes : List (String × Shape)} {leaf : LeafType}
    (h : Shape.inferLeaf config (.struct shapes) = .ok leaf) :
    ∃ fields, leaf = .struct fields ∧ Shape.inferFields config shapes = .ok fields ∧
      Struct.names fields = Entries.keys shapes ∧ (Struct.names fields).Nodup := by
  unfold Shape.inferLeaf at h
  cases hfields : Shape.inferFields config shapes with
  | error e => simp [hfields, bind, Except.bind] at h
  | ok fields =>
    simp only [hfields, bind, Except.bind] at h
    cases hmade : Struct.ofFields fields with
    | error name => simp [hmade] at h
    | ok made =>
      obtain ⟨rfl, hnodup⟩ := Struct.of_ofFields hmade
      simp only [hmade, pure, Except.pure, Except.ok.injEq] at h
      exact ⟨made, h.symm, rfl, Shape.names_of_inferFields hfields, hnodup⟩

/-- The values of a mapping conform to the inferred fields if each conforms to its own. -/
theorem conform_of_inferFields {accepts : LeafType → Atom → Prop}
    {entries : List (String × Value)} {shapes : List (String × Shape)} :
    ∀ {fields : List Field}, Shape.inferFields config shapes = .ok fields →
      (∀ key ∈ Entries.keys shapes, ∃ v, Entries.get? entries key = some v) →
      (∀ e ∈ shapes, ∀ t, e.2.infer config = .ok t →
        ∀ v, Entries.get? entries e.1 = some v → ∀ free, t.Conforms accepts σ free v) →
      ∃ values, (Struct.names fields).mapM (Entries.get? entries) = some values ∧
        ∀ free, Struct.Conform accepts σ fields free values := by
  induction shapes with
  | nil =>
    intro fields h _ _
    obtain rfl := Except.ok.inj h
    exact ⟨[], rfl, fun _ => trivial⟩
  | cons e rest ih =>
    intro fields h hkeys hall
    obtain ⟨t, fields', ht, hrest, rfl⟩ := Shape.inferFields_cons_eq_ok h
    obtain ⟨hkey, hkeys⟩ := List.forall_mem_cons.mp hkeys
    obtain ⟨he, hall⟩ := List.forall_mem_cons.mp hall
    obtain ⟨v, hv⟩ := hkey
    obtain ⟨values, hvalues, hconform⟩ := ih hrest hkeys hall
    refine ⟨v :: values, mapM_cons_eq_some.mpr ⟨v, values, hv, hvalues, rfl⟩, fun free => ?_⟩
    exact Struct.conform_cons.mpr ⟨he t ht v hv free, hconform _⟩

end Fields

/-! ## Values -/

section Values

variable {config : Config} {σ : Nat → Nat}

/-- **A value that a shape covers conforms to the type inferred from the shape**, as far as the
sample of the leaves goes. -/
theorem conforms_of_covers {S : Shape} {depth : Nat} {v : Value} (hv : S.Covers depth v) :
    ∀ {t : ArrayType}, S.Consistent → S.infer config = .ok t →
      ∀ free, (t.inner depth).Conforms (Sampled config) σ free v := by
  induction hv with
  | items hitems hsaw _ ih =>
    intro t hS ht free
    obtain ⟨l, hl, hincludes⟩ := hsaw
    rw [Shape.inner_of_level hS ht hl, ArrayType.conforms_cons]
    exact ⟨_, hitems, l.admits_dimension hincludes σ free _, fun x hx => ih x hx hS ht _⟩
  | @atom S depth a hdepth hleaf =>
    intro t hS ht free
    rw [Shape.inner_of_leaf hS ht hdepth]
    have hsampled : Sampled config t.leaf a := ⟨S.leaf, (Shape.type_of_infer hS ht).2, hleaf⟩
    cases hl : t.leaf with
    | scalar k => exact ⟨a, rfl, hl ▸ hsampled⟩
    | string s => exact ⟨a, rfl, hl ▸ hsampled⟩
    | struct fields => exact absurd (hl ▸ hsampled) not_sampled_struct
  | @record S depth entries shapes hdepth hleaf hkeys _ ih =>
    intro t hS ht free
    rw [Shape.inner_of_leaf hS ht hdepth]
    have hinferred := (Shape.type_of_infer hS ht).2
    rw [hleaf] at hinferred
    obtain ⟨fields, hl, hfields, hnames, hnodup⟩ := fields_of_inferLeaf hinferred
    have hshapes : (Entries.keys shapes).Nodup := hnames ▸ hnodup
    have heach : ∀ e ∈ shapes, ∀ t, e.2.infer config = .ok t →
        ∀ v, Entries.get? entries e.1 = some v →
          ∀ free, t.Conforms (Sampled config) σ free v := by
      intro e he t ht v hv free
      have hshape := Entries.get?_of_mem hshapes he
      have hconforms := ih (e.1, v) (Entries.mem_of_get? hv) e.2 hshape (hS.field hleaf hshape) ht free
      rw [Shape.inner_zero] at hconforms
      exact hconforms
    obtain ⟨values, hvalues, hconform⟩ := conform_of_inferFields hfields
      (fun key hkey => Entries.mem_keys_iff.mp ((hkeys key).mpr hkey)) heach
    rw [hl]
    refine ⟨values, ?_, hconform free⟩
    have hdeclared : ∀ key ∈ Entries.keys entries, key ∈ Struct.names fields := by
      intro key hkey
      rw [hnames, ← hkeys]
      exact hkey
    rw [Value.record?, if_pos ⟨hnodup, hdeclared⟩, hvalues]

/-- A value conforms to the type inferred from it, as far as the sample of the leaves goes. -/
theorem conforms_of_infer {v : Value} {S : Shape} {t : ArrayType} (hS : (v.shape .infer).2 = .ok S)
    (ht : S.infer config = .ok t) : t.Conforms (Sampled config) σ 0 v := by
  have hgrows := v.gathered 0 false .empty S Shape.consistent_empty (Nat.zero_le _) hS
  have hcovers : S.Covers 0 v := hgrows.covers v (List.mem_singleton_self v)
  have hconforms := conforms_of_covers (σ := σ) hcovers hgrows.consistent ht 0
  rw [Shape.inner_zero] at hconforms
  exact hconforms

/-- **A value can be written at the type inferred from it**, unless an integer in it is no float where
floats were inferred. -/
theorem write_of_infer {v : Value} {S : Shape} {t : ArrayType} (hS : (v.shape .infer).2 = .ok S)
    (ht : S.resolve .infer config = .ok t) :
    (∃ c, (t.write config.growth (v.shape .infer).1).2 = .ok c) ∨
      ∃ e i k, (t.write config.growth (v.shape .infer).1).2 = .error e ∧
        e.category = .typeUnification ∧ (k = .float64 ∨ k = .cfloat64) ∧
          t.LeafAt 0 (.scalar k) (.int i) v ∧ ∀ x : Binary64, x.integer? ≠ some i := by
  have hconforms : t.Conforms (Sampled config) (fun _ => 0) 0 v := conforms_of_infer hS ht
  -- the value that is written is the one looked at, and it is remembered which leaves it has where
  have hwritten : t.Conforms (fun leaf a => Sampled config leaf a ∧ t.LeafAt 0 leaf a v) (fun _ => 0)
      0 (v.shape .infer).1 :=
    ArrayType.conforms_of_drained_eq (v.drained_shape .infer).symm
      (ArrayType.Conforms.imp_of_leafAt hconforms fun leaf a ha hat => ⟨ha, hat⟩)
  rcases @ArrayType.write_of_conforms _ config.growth _ _ _ hwritten with
    ⟨c, hc, -⟩ | ⟨e, leaf, a, he, ⟨hsampled, hat⟩, hstore⟩
  · exact .inl ⟨c, hc⟩
  · rcases store_of_sampled hsampled with ⟨s, hs⟩ | ⟨i, k, rfl, rfl, hk, hi⟩
    · exact absurd (hs.symm.trans hstore) (by simp)
    · refine .inr ⟨e, i, k, he, ?_, hk, hat, hi⟩
      simp only [LeafType.store] at hstore
      split at hstore
      · exact absurd hstore (by simp)
      · rw [← Except.error.inj hstore]
        rfl

/-- A lazy source beside a sequence, and the keys of two records in different order. -/
theorem write_of_infer_records :
    ∃ v S t, v = Value.list [
        .dict [("id", .ofInt 1), ("flags", .iter (.ofSupply 0 (.ofList [.ofBool true])))],
        .dict [("flags", .tuple [.ofInt 5, .ofInt 7]), ("id", .ofInt (2 ^ 40))]] ∧
      (v.shape .infer).2 = .ok S ∧ S.resolve .infer {} = .ok t ∧
      ((∃ c, (t.write {} (v.shape .infer).1).2 = .ok c) ∨
        ∃ e i k, (t.write {} (v.shape .infer).1).2 = .error e ∧
          e.category = .typeUnification ∧ (k = .float64 ∨ k = .cfloat64) ∧
            t.LeafAt 0 (.scalar k) (.int i) v ∧ ∀ x : Binary64, x.integer? ≠ some i) := by
  have htype : ((Value.list [
      .dict [("id", .ofInt 1), ("flags", .iter (.ofSupply 0 (.ofList [.ofBool true])))],
      .dict [("flags", .tuple [.ofInt 5, .ofInt 7]), ("id", .ofInt (2 ^ 40))]]).shape .infer).2.bind
        (·.resolve .infer {}) =
      .ok ⟨[.fixed 2], .struct [⟨"id", ⟨[], .scalar .int64⟩⟩, ⟨"flags", ⟨[.var], .scalar .int32⟩⟩]⟩ := by
    decide +kernel
  cases hS : ((Value.list [
      .dict [("id", .ofInt 1), ("flags", .iter (.ofSupply 0 (.ofList [.ofBool true])))],
      .dict [("flags", .tuple [.ofInt 5, .ofInt 7]), ("id", .ofInt (2 ^ 40))]]).shape .infer).2 with
  | error e => rw [hS] at htype; exact absurd htype (by simp [Except.bind])
  | ok S =>
    rw [hS] at htype
    have htype : S.resolve .infer {} = .ok _ := htype
    have hwrite := write_of_infer hS htype
    exact ⟨_, S, _, rfl, hS, htype, hwrite⟩

end Values

end Ragged
