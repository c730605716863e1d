import Ragged.Proofs.Build.Containers
import Ragged.Proofs.Shape.Choosing
import Ragged.Proofs.Type.Printing

/-!
# Which inferred types can be written down

The fields of a struct that is inferred bear the keys of mappings, and a key can be any text, while
the name of a field that is written down is a word. Nor is there a way to write a struct without
fields. Nothing is done about either when a type is inferred or when it is printed. So

> the text of an inferred type reads back as the type just if all mappings inside the value have
> entries and all their keys are words (`parse_render_of_infer`).

All else that is inferred can be written down: extents are lengths, fields have distinct names, and
the leaf of what has no leaves is that of the configuration, which was written down to begin with. A
text that does not read back as the type may still be read, as another type.
-/

set_option autoImplicit false

namespace Ragged

/-! ## Words for keys -/

namespace Value

variable {v w x : Value} {entries : List (String × Value)}

/-- Every mapping inside the value has entries, and all keys are words. -/
def Nameable (v : Value) : Prop :=
  ∀ entries, v.Contains (.dict entries) →
    entries ≠ [] ∧ ∀ key ∈ Entries.keys entries, Token.IsWord key.toList

/-- The lengths of all containers inside the value are numbers of 64 bits. -/
def Addressable (v : Value) : Prop :=
  ∀ w xs, v.Contains w → w.items? = some xs → xs.length < 0x10000000000000000

@[simp]
theorem addressable_atom (a : Atom) : (atom a).Addressable := by
  intro w xs hw hxs
  obtain rfl := contains_atom_iff.mp hw
  exact absurd hxs (by simp [items?])

theorem addressable_iff_of_items? {xs : List Value} (hxs : v.items? = some xs) :
    v.Addressable ↔ xs.length < 0x10000000000000000 ∧ ∀ x ∈ xs, x.Addressable := by
  constructor
  · exact fun h => ⟨h v xs (.here v) hxs, fun x hx w ys hw hys => h w ys (.element hxs hx hw) hys⟩
  · rintro ⟨hlength, h⟩ w ys hw hys
    rcases (contains_iff_of_items? hxs).mp hw with rfl | ⟨x, hx, hw⟩
    · obtain rfl := Option.some.inj (hxs.symm.trans hys)
      exact hlength
    · exact h x hx w ys hw hys

@[simp]
theorem addressable_dict_iff :
    (dict entries).Addressable ↔ ∀ e ∈ entries, e.2.Addressable := by
  constructor
  · exact fun h e he w xs hw hxs => h w xs (.entry he hw) hxs
  · intro h w xs hw hxs
    rcases contains_dict_iff.mp hw with rfl | ⟨e, he, hw⟩
    · exact absurd hxs (by simp [items?])
    · exact h e he w xs hw hxs

/-! One after the other, these decide it for a value that is written down. -/

@[simp]
theorem addressable_ofInt (i : Int) : (ofInt i).Addressable := addressable_atom _

@[simp]
theorem addressable_list_iff {xs : List Value} :
    (list xs).Addressable ↔ xs.length < 0x10000000000000000 ∧ ∀ x ∈ xs, x.Addressable :=
  addressable_iff_of_items? rfl

@[simp]
theorem addressable_tuple_iff {xs : List Value} :
    (tuple xs).Addressable ↔ xs.length < 0x10000000000000000 ∧ ∀ x ∈ xs, x.Addressable :=
  addressable_iff_of_items? rfl

theorem Contains.trans (h : v.Contains w) (h' : w.Contains x) : v.Contains x := by
  induction h with
  | here => exact h'
  | element hxs hx _ ih => exact .element hxs hx (ih h')
  | entry he _ ih => exact .entry he (ih h')

theorem nameable_dict_iff : (dict entries).Nameable ↔
    (entries ≠ [] ∧ ∀ key ∈ Entries.keys entries, Token.IsWord key.toList) ∧
      ∀ e ∈ entries, e.2.Nameable := by
  constructor
  · exact fun h => ⟨h entries (.here _), fun e he entries' h' => h entries' (.entry he h')⟩
  · rintro ⟨hhere, h⟩ entries' h'
    rcases contains_dict_iff.mp h' with heq | ⟨e, he, h'⟩
    · rwa [← Value.dict.inj heq]
    · exact h e he entries' h'

/-- A mapping inside is itself at some depth, or is inside one that is. -/
theorem Contains.exists_has (h : v.Contains w) {entries : List (String × Value)}
    (hw : w = .dict entries) : ∃ k entries', v.Has k (.dict entries') ∧
      (Value.dict entries').Contains (.dict entries) := by
  induction h with
  | here v =>
    subst hw
    exact ⟨0, entries, .here _, .here _⟩
  | element hxs hx _ ih =>
    obtain ⟨k, entries', hhas, hcontains⟩ := ih hw
    exact ⟨k + 1, entries', .inside hxs hx hhas, hcontains⟩
  | @entry entries' _ _ he h _ =>
    subst hw
    exact ⟨0, entries', .here _, .entry he h⟩

end Value

namespace Layers

/-- The mappings in the layers are nameable. -/
def Named (L : Layers) : Prop := ∀ k entries, .dict entries ∈ L k → (Value.dict entries).Nameable

theorem mem_of_iff {vs : List Value} {k : Nat} {w : Value} :
    w ∈ of vs k ↔ ∃ v ∈ vs, v.Has k w := mem_below_iff k

theorem named_of_iff {vs : List Value} : Named (of vs) ↔ ∀ v ∈ vs, v.Nameable := by
  constructor
  · intro h v hv entries hentries
    obtain ⟨k, entries', hhas, hcontains⟩ := hentries.exists_has rfl
    exact h k entries' (mem_of_iff.mpr ⟨v, hv, hhas⟩) entries hcontains
  · intro h k entries hmem entries' hentries'
    obtain ⟨v, hv, hhas⟩ := mem_of_iff.mp hmem
    exact h v hv entries' (hhas.contains.trans hentries')

/-- Mappings of the same keys are nameable if the keys are, and what is under them. -/
theorem named_iff_of_records {L : Layers} {depth : Nat} {first : List (String × Value)}
    (hleaves : L.LeavesAt depth) (hfirst : .dict first ∈ L depth)
    (hall : ∀ v ∈ L depth, ∃ entries, v = .dict entries ∧
      ∀ key, key ∈ Entries.keys entries ↔ key ∈ Entries.keys first)
    (hkeys : ∀ v ∈ L depth, v.DistinctKeys) :
    L.Named ↔ first ≠ [] ∧ ∀ key ∈ Entries.keys first, Token.IsWord key.toList ∧
      ∀ x ∈ column key (L depth), x.Nameable := by
  constructor
  · intro h
    obtain ⟨⟨hne, hwords⟩, -⟩ := Value.nameable_dict_iff.mp (h depth first hfirst)
    refine ⟨hne, fun key hkey => ⟨hwords key hkey, fun x hx => ?_⟩⟩
    obtain ⟨v, hv, hx⟩ := mem_column.mp hx
    obtain ⟨entries, rfl, -⟩ := hall v hv
    exact (Value.nameable_dict_iff.mp (h depth entries hv)).2 (key, x) (Entries.mem_of_get? hx)
  · rintro ⟨hne, h⟩ k entries hmem
    obtain rfl := hleaves.leaves k _ hmem rfl
    obtain ⟨entries', heq, hsame⟩ := hall _ hmem
    obtain rfl := Value.dict.inj heq
    refine Value.nameable_dict_iff.mpr ⟨⟨?_, fun key hkey => (h key ((hsame key).mp hkey)).1⟩, ?_⟩
    · rintro rfl
      obtain ⟨e, rest, rfl⟩ := List.exists_cons_of_ne_nil hne
      exact absurd ((hsame e.1).mpr List.mem_cons_self) List.not_mem_nil
    · intro e he
      have hnodup := (Value.distinctKeys_dict_iff.mp (hkeys _ hmem)).1
      refine (h e.1 ((hsame e.1).mp (List.mem_map_of_mem he))).2 e.2 (mem_column.mpr ⟨_, hmem, ?_⟩)
      exact Entries.get?_of_mem hnodup he

end Layers

/-! ## Inferred types -/

section Inferred

variable {config : Config} {L : Layers} {S : Shape} {t : ArrayType}

theorem Shape.Sums.consistent (h : S.Sums L) : S.Consistent := by
  induction h with
  | bare => exact .intro (fun _ h => absurd h (by simp)) fun _ h => absurd h (by simp)
  | scalars _ hdepth _ _ _ hsample =>
    refine .intro (fun d hd => (Option.some.inj hd).symm.trans hdepth) ?_
    rintro fields rfl
    exact hsample.elim
  | records _ hdepth _ _ _ _ _ ih =>
    refine .intro (fun d hd => (Option.some.inj hd).symm.trans hdepth) ?_
    rintro fields heq key S hS
    obtain rfl := LeafSample.struct.inj heq
    exact ih key S hS

/-- An extent is the length of some container. -/
theorem Level.Sums.extent_lt {vs : List Value} {l : Level} {bound n : Nat} (h : l.Sums vs)
    (hbound : ∀ m ∈ Layers.lengths vs, m < bound) (hpos : 0 < bound)
    (hn : n ∈ l.dimension.extent?) : n < bound := by
  unfold dimension at hn
  split at hn
  · exact absurd hn (by simp [Dimension.extent?])
  · have hlengths := h.lengths
    cases hl : l.lengths with
    | unseen =>
      rw [hl] at hn
      obtain rfl := Option.some.inj hn
      exact hpos
    | all m =>
      rw [hl] at hn hlengths
      obtain rfl := Option.some.inj hn
      have hsingle : Layers.lengths vs = {m} := hlengths
      exact hbound m (hsingle ▸ rfl)
    | between lo hi =>
      rw [hl] at hn
      exact absurd hn (by simp [Dimension.extent?])

theorem Shape.Sums.extents_lt (h : S.Sums L) (hinside : ∀ k, ∀ w ∈ L k, w.Addressable)
    (ht : S.infer config = .ok t) :
    ∀ d ∈ t.dims, ∀ n ∈ d.extent?, n < 0x10000000000000000 := by
  intro d hd n hn
  rw [(type_of_infer h.consistent ht).1] at hd
  obtain ⟨l, hl, rfl⟩ := List.mem_map.mp hd
  obtain ⟨k, hk⟩ := List.mem_iff_getElem?.mp hl
  refine (h.levels.level k l hk).extent_lt ?_ (by decide) hn
  rintro m ⟨w, hw, xs, hxs, rfl⟩
  exact hinside k w hw w xs (.here w) hxs

/-- What is asked of all that is inside is so in a column. -/
theorem inside_column {key : String} {depth : Nat}
    (hinside : ∀ k, ∀ w ∈ L k, w.Addressable ∧ w.DistinctKeys) {k : Nat} {w : Value}
    (hw : w ∈ Layers.of (Layers.column key (L depth)) k) : w.Addressable ∧ w.DistinctKeys := by
  obtain ⟨x, hx, hhas⟩ := Layers.mem_of_iff.mp hw
  obtain ⟨v, hv, hx⟩ := Layers.mem_column.mp hx
  have hcontains : v.Contains w := by
    cases v with
    | dict entries => exact .entry (Entries.mem_of_get? hx) hhas.contains
    | _ => exact absurd hx (by simp [Value.entry?])
  obtain ⟨haddress, hkeys⟩ := hinside depth v hv
  exact ⟨fun u xs hu => haddress u xs (hcontains.trans hu),
    fun entries h => hkeys entries (hcontains.trans h)⟩

theorem wellFormed_of_inferLeaf {s : LeafSample} {leaf : LeafType}
    (hdefault : config.defaultLeaf.WellFormed) (hs : ∀ fields, s ≠ .struct fields)
    (h : Shape.inferLeaf config s = .ok leaf) : leaf.WellFormed := by
  cases s with
  | nothing => exact Except.ok.inj h ▸ hdefault
  | struct fields => exact absurd rfl (hs fields)
  | int lo hi =>
    obtain ⟨k, -, rfl⟩ := map_eq_ok.mp h
    trivial
  | text =>
    obtain rfl := Except.ok.inj h
    exact fun _ hn => absurd hn (by simp)
  | bool | float | complex =>
    obtain rfl := Except.ok.inj h
    trivial

theorem ArrayType.wellFormed_iff {t : ArrayType} : t.WellFormed ↔
    (∀ d ∈ t.dims, ∀ n ∈ d.extent?, n < 0x10000000000000000) ∧ t.leaf.WellFormed := by
  cases t
  rfl

/-- **The type inferred from layers can be written down just if their mappings are nameable.** -/
theorem Shape.Sums.wellFormed_iff (hdefault : config.defaultLeaf.WellFormed) (h : S.Sums L) :
    ∀ {t : ArrayType}, (∀ k, ∀ w ∈ L k, w.Addressable ∧ w.DistinctKeys) →
      S.infer config = .ok t → (t.WellFormed ↔ L.Named) := by
  induction h with
  | bare hlevels hbare =>
    intro t hinside ht
    have hsums := Sums.bare hlevels hbare
    have hleaf := (type_of_infer hsums.consistent ht).2
    rw [ArrayType.wellFormed_iff]
    refine iff_of_true ⟨hsums.extents_lt (fun k w hw => (hinside k w hw).1) ht, ?_⟩ ?_
    · exact wellFormed_of_inferLeaf hdefault (by simp) hleaf
    · exact fun k entries hmem => absurd rfl (hbare k _ hmem)
  | scalars hlevels hdepth hleaves hsome hall hsample =>
    intro t hinside ht
    have hsums := Sums.scalars hlevels hdepth hleaves hsome hall hsample
    have hleaf := (type_of_infer hsums.consistent ht).2
    rw [ArrayType.wellFormed_iff]
    refine iff_of_true ⟨hsums.extents_lt (fun k w hw => (hinside k w hw).1) ht, ?_⟩ ?_
    · refine wellFormed_of_inferLeaf hdefault ?_ hleaf
      rintro fields rfl
      exact hsample
    · intro k entries hmem
      obtain rfl := hleaves.leaves k _ hmem rfl
      obtain ⟨a, heq⟩ := hall _ hmem
      exact absurd heq (by simp)
  | @records L levels depth fields first hlevels hdepth hleaves hfirst hkeys hall hfields ih =>
    intro t hinside ht
    have hsums := Sums.records hlevels hdepth hleaves hfirst hkeys hall hfields
    obtain ⟨fs, hstruct, hinfer, hnames, hnodup⟩ :=
      fields_of_inferLeaf (type_of_infer hsums.consistent ht).2
    have hextents := hsums.extents_lt (fun k w hw => (hinside k w hw).1) ht
    have hmem := List.mem_of_head? hfirst
    have hsame : Struct.names fs = Entries.keys first := hnames.trans hkeys
    have htypes : ∀ f ∈ fs, (f.type.WellFormed ↔
        ∀ x ∈ Layers.column f.name (L depth), x.Nameable) := by
      intro f hf
      obtain ⟨T, hT, hinferred⟩ := exists_of_inferFields hinfer f hf
      have hget := Entries.get?_of_mem (hnames ▸ hnodup) hT
      rw [← Layers.named_of_iff]
      exact ih f.name T hget (fun k w hw => inside_column hinside hw) hinferred
    rw [ArrayType.wellFormed_iff, hstruct, LeafType.WellFormed, Struct.fieldsWellFormed_iff,
      Layers.named_iff_of_records hleaves hmem hall fun w hw => (hinside _ w hw).2]
    have hnil : fs ≠ [] ↔ first ≠ [] := by
      have hlength := congrArg List.length hsame
      simp only [Struct.names, Entries.keys, List.length_map] at hlength
      rw [← List.length_pos_iff, ← List.length_pos_iff, hlength]
    have heach : (∀ f ∈ fs, Token.IsWord f.name.toList ∧ f.type.WellFormed) ↔
        ∀ key ∈ Entries.keys first, Token.IsWord key.toList ∧
          ∀ x ∈ Layers.column key (L depth), x.Nameable := by
      rw [← hsame, Struct.names, List.forall_mem_map]
      exact forall₂_congr fun f hf => and_congr_right fun _ => htypes f hf
    rw [hnil, heach, and_iff_right hextents, and_iff_right hnodup]

/-- **Which inferred types can be written down.** The text of the type of an array, inferred from a
value, reads back as that type just if all mappings inside the value have entries and words for keys.
-/
theorem parse_render_of_infer {v : Value} {a : PackedArray}
    (hdefault : config.defaultLeaf.WellFormed) (hkeys : v.DistinctKeys) (hlengths : v.Addressable)
    (h : (build config .infer v).2 = .ok a) :
    ArrayType.parse a.type.render = .ok a.type ↔ v.Nameable := by
  obtain ⟨S, hS, htype, -⟩ := build_eq_ok_iff.mp h
  have hsums := Value.sums_of_shape hkeys hS
  have hinside : ∀ k, ∀ w ∈ Layers.of [v] k, w.Addressable ∧ w.DistinctKeys := by
    intro k w hw
    obtain ⟨u, hu, hhas⟩ := Layers.mem_of_iff.mp hw
    obtain rfl := List.mem_singleton.mp hu
    exact ⟨fun x xs hx => hlengths x xs (hhas.contains.trans hx),
      fun entries hx => hkeys entries (hhas.contains.trans hx)⟩
  have hnamed := hsums.wellFormed_iff hdefault hinside htype
  rw [Layers.named_of_iff, List.forall_mem_singleton] at hnamed
  rw [← hnamed]
  exact ⟨ArrayType.wellFormed_of_parse, ArrayType.parse_render_of_wellFormed⟩

end Inferred

/-- The leaf in the configuration was written down where the configuration was read. -/
theorem Config.wellFormed_defaultLeaf {source : String} {config : Config}
    (h : Config.parse source = .ok config) : config.defaultLeaf.WellFormed := by
  have hcheck : ∀ d : Draft, d.check = .ok config → config.defaultLeaf.WellFormed := by
    intro d hd
    unfold Draft.check at hd
    cases hleaf : LeafType.parse d.defaultLeaf with
    | error e => simp [hleaf] at hd
    | ok leaf =>
      simp only [hleaf] at hd
      split at hd
      · exact absurd hd (by simp)
      · split at hd
        · obtain rfl := Except.ok.inj hd
          exact (ArrayType.wellFormed_of_parse (LeafType.parse_eq_ok_iff.mp hleaf)).2
        · exact absurd hd (by simp)
  unfold Config.parse at h
  split at h
  · exact absurd h (by simp)
  · rename_i d _
    cases hd : d.check with
    | error e => simp [hd, Except.mapError] at h
    | ok config' =>
      simp only [hd, Except.mapError, Except.ok.injEq] at h
      exact hcheck d (h ▸ hd)

/-- Records with a field that has none of its own elements, and one under a name like a keyword. The
leaf of what has no leaves is the one that is configured. -/
theorem parse_render_of_infer_records :
    ∃ config v a, Config.parse "default_leaf = \"string(3, 'utf16')\"" = .ok config ∧
      v = Value.list [.dict [("var", .list []), ("_1", .ofInt 1)],
        .dict [("_1", .ofInt 2), ("var", .tuple [])]] ∧
      config.defaultLeaf.WellFormed ∧ v.DistinctKeys ∧ v.Addressable ∧
      (build config .infer v).2 = .ok a ∧
      a.type = ⟨[.fixed 2], .struct [⟨"var", ⟨[.fixed 0], .string ⟨.utf16, some 3⟩⟩⟩,
        ⟨"_1", ⟨[], .scalar .int32⟩⟩]⟩ ∧
      v.Nameable ∧ ArrayType.parse a.type.render = .ok a.type := by
  let t : ArrayType := ⟨[.fixed 2], .struct [⟨"var", ⟨[.fixed 0], .string ⟨.utf16, some 3⟩⟩⟩,
    ⟨"_1", ⟨[], .scalar .int32⟩⟩]⟩
  let first := Value.dict [("var", .list []), ("_1", .ofInt 1)]
  let second := Value.dict [("_1", .ofInt 2), ("var", .tuple [])]
  let v := Value.list [first, second]
  have hconfig : ∃ config, Config.parse "default_leaf = \"string(3, 'utf16')\"" = .ok config ∧
      (build config .infer v).2.map PackedArray.type = .ok t := by
    apply bind_eq_ok.mp
    decide +kernel
  obtain ⟨config, hconfig, hbuilt⟩ := hconfig
  obtain ⟨a, ha, htype⟩ := map_eq_ok.mp hbuilt
  have hkeys : v.DistinctKeys := by simp [v, first, second, Entries.keys]
  have hlengths : v.Addressable := by simp [v, first, second]
  have hparse : ArrayType.parse a.type.render = .ok a.type := by
    rw [htype]
    decide +kernel
  have hdefault := Config.wellFormed_defaultLeaf hconfig
  exact ⟨config, v, a, hconfig, rfl, hdefault, hkeys, hlengths, ha, htype,
    (parse_render_of_infer hdefault hkeys hlengths ha).mp hparse, hparse⟩

/-- A key of two words; a key that reads as a field and the name of another, so that the text reads as
a type of two fields; a mapping without entries; and a leaf that was configured without being read. -/
theorem not_parse_render_of_infer :
    (∃ a, (build {} .infer (.dict [("a b", .ofInt 1)])).2 = .ok a ∧
      a.type.render = "\x7ba b: int32\x7d" ∧ (ArrayType.parse a.type.render).isOk = false) ∧
    (∃ a, (build {} .infer (.dict [("a: int32; b", .ofInt 1)])).2 = .ok a ∧
      ArrayType.parse a.type.render ≠ .ok a.type ∧
      ArrayType.parse a.type.render = .ok ⟨[], .struct [⟨"a", ⟨[], .scalar .int32⟩⟩,
        ⟨"b", ⟨[], .scalar .int32⟩⟩]⟩) ∧
    (∃ a, (build {} .infer (.dict [])).2 = .ok a ∧
      (ArrayType.parse a.type.render).isOk = false) ∧
    ∃ a, (build ⟨.struct [], .int32, {}⟩ .infer (.list [])).2 = .ok a ∧
      (ArrayType.parse a.type.render).isOk = false := by
  refine ⟨?_, ?_, ?_, ?_⟩
  · have htype : (build {} .infer (.dict [("a b", .ofInt 1)])).2.map PackedArray.type =
        .ok ⟨[], .struct [⟨"a b", ⟨[], .scalar .int32⟩⟩]⟩ := by
      decide +kernel
    obtain ⟨a, ha, htype⟩ := map_eq_ok.mp htype
    refine ⟨a, ha, ?_, ?_⟩
    · rw [htype]
      decide +kernel
    · rw [htype]
      decide +kernel
  · have htype : (build {} .infer (.dict [("a: int32; b", .ofInt 1)])).2.map PackedArray.type =
        .ok ⟨[], .struct [⟨"a: int32; b", ⟨[], .scalar .int32⟩⟩]⟩ := by
      decide +kernel
    obtain ⟨a, ha, htype⟩ := map_eq_ok.mp htype
    refine ⟨a, ha, ?_, ?_⟩
    · rw [htype]
      decide +kernel
    · rw [htype]
      decide +kernel
  · have htype : (build {} .infer (.dict [])).2.map PackedArray.type = .ok ⟨[], .struct []⟩ := by
      decide +kernel
    obtain ⟨a, ha, htype⟩ := map_eq_ok.mp htype
    refine ⟨a, ha, ?_⟩
    rw [htype]
    decide +kernel
  · have htype : (build ⟨.struct [], .int32, {}⟩ .infer (.list [])).2.map PackedArray.type =
        .ok ⟨[.fixed 0], .struct []⟩ := by
      decide +kernel
    obtain ⟨a, ha, htype⟩ := map_eq_ok.mp htype
    refine ⟨a, ha, ?_⟩
    rw [htype]
    decide +kernel

end Ragged
