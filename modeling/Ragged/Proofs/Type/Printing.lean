import Ragged.Proofs.Type.Accepting
import Ragged.Proofs.Type.Structure

/-!
# What is printed reads back

The written form of a type can be read only if its parts can: numbers below 2^64, and structs that
have fields, under distinct names that are words. Such types are `WellFormed`.

> A well-formed type reads back from its written form. Reading makes no other types, so what is
> printed is a normal form of what was read.

A written form has a derivation, and it is cut into the tokens of that whatever stands behind it, as
long as that does not go on with a word (`Prints`). Marks and blanks do not, and nothing else is ever
printed behind a word or a number.
-/

set_option autoImplicit false

namespace Ragged

open Scan

/-! ## Types with a written form -/

mutual

/-- The extents and widths are below 2^64, and every struct has fields, under distinct names that
are words. -/
def ArrayType.WellFormed : ArrayType → Prop
  | ⟨dims, leaf⟩ => (∀ d ∈ dims, ∀ n ∈ d.extent?, n < 0x10000000000000000) ∧ leaf.WellFormed

def LeafType.WellFormed : LeafType → Prop
  | .scalar _ => True
  | .string s => ∀ n ∈ s.width, n < 0x10000000000000000
  | .struct fields => fields ≠ [] ∧ (Struct.names fields).Nodup ∧ Struct.FieldsWellFormed fields

def Struct.FieldsWellFormed : List Field → Prop
  | [] => True
  | ⟨name, type⟩ :: rest =>
    Token.IsWord name.toList ∧ type.WellFormed ∧ Struct.FieldsWellFormed rest

end

theorem Struct.fieldsWellFormed_iff {fields : List Field} : FieldsWellFormed fields ↔
    ∀ f ∈ fields, Token.IsWord f.name.toList ∧ f.type.WellFormed := by
  induction fields with
  | nil => simp [FieldsWellFormed]
  | cons f fields ih =>
    obtain ⟨name, type⟩ := f
    rw [FieldsWellFormed, ih, List.forall_mem_cons, and_assoc]

/-! ## Cutting what is printed -/

section Cutting

variable {cs : List Char} {ts : List Terminal}

/-- A word or a number ends before the text. -/
def EndsWord (cs : List Char) : Prop := ∀ c ∈ cs.head?, inWord c = false

theorem endsWord_cons {c : Char} (h : inWord c = false) : EndsWord (c :: cs) := by
  rintro _ ⟨⟩
  exact h

theorem Lexes.space (h : Lexes cs ts) : Lexes (' ' :: cs) ts := .blank rfl h

theorem Lexes.mark {t : Token} (c : Char) (s : String) (hs : s.toList = [c])
    (ht : Token.ofPunctuation? c = some t) (h : Lexes cs ts) : Lexes (c :: cs) (⟨t, s⟩ :: ts) := by
  have htake : take c ([] ++ cs) = (some t, []) := take_of_punctuation ht
  have hs : s = String.ofList [c] := by rw [← hs, String.ofList_toList]
  rw [hs]
  exact lexes_of_take htake h

theorem Lexes.word {s : String} (hs : Token.IsWord s.toList) (hstop : EndsWord cs)
    (h : Lexes cs ts) : Lexes (s.toList ++ cs) (⟨Token.ofWord s.toList, s⟩ :: ts) := by
  obtain ⟨w, rfl⟩ : ∃ w, s = String.ofList w := ⟨s.toList, String.ofList_toList.symm⟩
  rw [String.toList_ofList] at hs ⊢
  cases w with
  | nil => exact absurd hs id
  | cons c more =>
    have htake : take c (more ++ cs) = (some (Token.ofWord (c :: more)), more) := by
      rw [take_of_startsWord hs.1, takeWhile_append_stop hs.2 hstop]
    exact lexes_of_take htake h

theorem Lexes.number (n : Nat) (hstop : EndsWord cs) (h : Lexes cs ts) :
    Lexes ((toString n).toList ++ cs) (⟨.integer, toString n⟩ :: ts) := by
  have hdigits : ∀ c ∈ Nat.toDigits 10 n, c.isDigit = true := fun c =>
    Nat.isDigit_of_mem_toDigits (by decide) (by decide)
  rw [Nat.toString_eq_repr, Nat.toList_repr, Nat.repr_eq_ofList_toDigits]
  cases hn : Nat.toDigits 10 n with
  | nil => exact absurd hn Nat.toDigits_ne_nil
  | cons c more =>
    rw [hn] at hdigits
    obtain ⟨hc, hmore⟩ := List.forall_mem_cons.mp hdigits
    have hend : ∀ c ∈ cs.head?, c.isDigit = false := by
      intro d hd
      have hword := hstop d hd
      simp only [inWord, Char.isAlphanum, Bool.or_eq_false_iff] at hword
      exact hword.1.2
    have htake : take c (more ++ cs) = (some .integer, more) := by
      rw [take_of_isDigit hc, takeWhile_append_stop hmore hend]
    exact lexes_of_take htake h

theorem Lexes.encoding (e : Encoding) (h : Lexes cs ts) :
    Lexes ('"' :: (e.name.toList ++ '"' :: cs)) (⟨.quoted, "\"" ++ e.name ++ "\""⟩ :: ts) := by
  have hbody : ∀ c ∈ e.name.toList, inQuotes '"' c = true :=
    List.all_eq_true.mp (by cases e <;> rfl)
  have htake : take '"' ((e.name.toList ++ ['"']) ++ cs) =
      (some .quoted, e.name.toList ++ ['"']) := by
    rw [List.append_assoc]
    exact take_of_quote (.inl rfl) hbody
  have hlexes := lexes_of_take htake h
  have htext : "\"" ++ e.name ++ "\"" = String.ofList ('"' :: (e.name.toList ++ ['"'])) :=
    String.toList_inj.mp (by simp)
  rw [htext]
  simpa using hlexes

/-- The tokens of a text, whatever is cut off behind it. -/
def Prints (text : String) (tokens : List Terminal) : Prop :=
  ∀ {cs ts}, EndsWord cs → Lexes cs ts → Lexes (text.toList ++ cs) (tokens ++ ts)

end Cutting

/-! ## Derivations of what is printed -/

theorem numberOf?_toString {n : Nat} (hn : n < 0x10000000000000000) :
    numberOf? (toString n) = some n := by
  rw [numberOf?, Nat.toString_eq_repr, Nat.toList_repr, Nat.ofDigitChars_ten_toDigits]
  exact if_pos hn

theorem encodingOf?_name (e : Encoding) : encodingOf? ("\"" ++ e.name ++ "\"") = some e := by
  cases e <;> rfl

/-- The derivation of a dimension from its written form. -/
def Dimension.tree : Dimension → DimensionTree
  | .fixed n => .integer (toString n)
  | .strided => .strided
  | .var => .var

theorem Dimension.value?_tree {d : Dimension} (hd : ∀ n ∈ d.extent?, n < 0x10000000000000000) :
    d.tree.value? = some d := by
  cases d with
  | fixed n => rw [tree, DimensionTree.value?, numberOf?_toString (hd n rfl)]; rfl
  | strided | var => rfl

theorem Dimension.prints (d : Dimension) : Prints d.render [d.tree.terminal] := by
  intro cs ts hstop h
  cases d with
  | fixed n => exact .number n hstop h
  | strided => exact .word (s := "strided") (by decide) hstop h
  | var => exact .word (s := "var") (by decide) hstop h

/-- The derivation of what stands behind `string` in the written form of a string type. -/
def StringType.tree (s : StringType) : ParamsTree :=
  match s.width, s.encoding with
  | none, .utf8 => .none
  | none, e => .encoding ("\"" ++ e.name ++ "\"")
  | some w, .utf8 => .width (toString w)
  | some w, e => .both (toString w) ("\"" ++ e.name ++ "\"")

theorem StringType.value?_tree {s : StringType} (hs : ∀ n ∈ s.width, n < 0x10000000000000000) :
    s.tree.value? = some s := by
  obtain ⟨e, width⟩ := s
  cases width with
  | none => cases e <;> rfl
  | some w =>
    have hw := numberOf?_toString (hs w rfl)
    cases e with
    | utf8 => rw [tree, ParamsTree.value?, hw]; rfl
    | _ => rw [tree, ParamsTree.value?, hw, encodingOf?_name]; rfl

theorem StringType.prints (s : StringType) :
    Prints s.render (⟨.string, "string"⟩ :: s.tree.terminals) := by
  intro cs ts hstop h
  obtain ⟨e, width⟩ := s
  have hclose : Lexes (')' :: cs) (⟨.closeParen, ")"⟩ :: ts) := h.mark ')' ")" rfl rfl
  have hstring {cs ts} (hstop : EndsWord cs) (h : Lexes cs ts) :
      Lexes ("string".toList ++ cs) (⟨.string, "string"⟩ :: ts) :=
    .word (s := "string") (by decide) hstop h
  have hopen {cs ts} (h : Lexes cs ts) :
      Lexes ("string(".toList ++ cs) (⟨.string, "string"⟩ :: ⟨.openParen, "("⟩ :: ts) :=
    hstring (endsWord_cons rfl) (h.mark '(' "(" rfl rfl)
  cases width with
  | none =>
    cases e with
    | utf8 => exact hstring hstop h
    | _ => simpa [render, tree, ParamsTree.terminals] using hopen (hclose.encoding _)
  | some w =>
    cases e with
    | utf8 =>
      simpa [render, tree, ParamsTree.terminals] using hopen (.number w (endsWord_cons rfl) hclose)
    | _ =>
      have hboth (e : Encoding) := ((hclose.encoding e).space.mark ',' "," rfl rfl).number w
        (endsWord_cons rfl)
      simpa [render, tree, ParamsTree.terminals] using hopen (hboth _)

/-! ## Reading what was printed -/

theorem ArrayType.render_cons (d : Dimension) (dims : List Dimension) (leaf : LeafType) :
    ArrayType.render ⟨d :: dims, leaf⟩ = d.render ++ ", " ++ ArrayType.render ⟨dims, leaf⟩ := by
  simp only [render, List.map_cons, String.join_cons, String.append_assoc]

theorem ArrayType.render_nil (leaf : LeafType) : ArrayType.render ⟨[], leaf⟩ = leaf.render :=
  String.empty_append

theorem Token.canNameField_ofWord (w : List Char) : (ofWord w).canNameField = true := by
  unfold ofWord
  split <;> rfl

/-- If the types of some fields have derivations, so have the fields up to the closing brace. -/
theorem exists_fieldTrees {fields : List Field} (hne : fields ≠ [])
    (hfields : ∀ f ∈ fields, Token.IsWord f.name.toList ∧
      ∃ d : TypeTree, d.value? = some f.type ∧ Prints f.type.render d.terminals) :
    ∃ d : FieldTrees, d.value? = some fields ∧ ∀ {cs ts}, Lexes cs ts →
      Lexes (("; ".intercalate (Field.renderEach fields)).toList ++ '}' :: cs)
        (d.terminals ++ ts) := by
  induction fields with
  | nil => exact absurd rfl hne
  | cons f fields ih =>
    obtain ⟨⟨hword, d, hd, hprints⟩, hrest⟩ := List.forall_mem_cons.mp hfields
    obtain ⟨name, type⟩ := f
    have hfield {cs ts} (hstop : EndsWord cs) (h : Lexes cs ts) :
        Lexes ((name ++ ": " ++ type.render).toList ++ cs)
          (⟨Token.ofWord name.toList, name⟩ :: ⟨.colon, ":"⟩ :: (d.terminals ++ ts)) := by
      have hlexes := ((hprints hstop h).space.mark ':' ":" rfl rfl).word hword (endsWord_cons rfl)
      simpa using hlexes
    have hname : (Token.ofWord name.toList).canNameField = true := Token.canNameField_ofWord _
    generalize Token.ofWord name.toList = t at hname hfield
    cases fields with
    | nil =>
      refine ⟨.last ⟨⟨t, name⟩, hname⟩ d false, ?_, fun h => ?_⟩
      · rw [FieldTrees.value?, hd]
        rfl
      · have hlexes := hfield (endsWord_cons rfl) (h.mark '}' "\x7d" rfl rfl)
        simpa [Field.renderEach, FieldTrees.terminals] using hlexes
    | cons g rest =>
      obtain ⟨ds, hds, hmore⟩ := ih (by simp) hrest
      refine ⟨.cons ⟨⟨t, name⟩, hname⟩ d ds, ?_, fun h => ?_⟩
      · rw [FieldTrees.value?, hd, hds]
        rfl
      · have hlexes := hfield (endsWord_cons rfl) ((hmore h).space.mark ';' ";" rfl rfl)
        have hne : Field.renderEach (g :: rest) ≠ [] := by
          cases g
          simp [Field.renderEach]
        rw [Field.renderEach, String.intercalate_cons_of_ne_nil hne]
        simpa [FieldTrees.terminals] using hlexes

theorem ArrayType.exists_tree (t : ArrayType) (ht : t.WellFormed) :
    ∃ d : TypeTree, d.value? = some t ∧ Prints t.render d.terminals := by
  induction t using ArrayType.induction with
  | scalar k =>
    refine ⟨.mk [] (.scalar k.name k k.ofName?_name), rfl, fun hstop h => ?_⟩
    have hword : Token.IsWord k.name.toList := by cases k <;> decide
    have hname : Token.ofWord k.name.toList = .identifier := by cases k <;> rfl
    have hlexes := h.word hword hstop
    rw [hname] at hlexes
    rw [render_nil]
    exact hlexes
  | string s =>
    refine ⟨.mk [] (.string s.tree), ?_, ?_⟩
    · rw [TypeTree.value?, LeafTree.value?, s.value?_tree ht.2]
      rfl
    · rw [render_nil]
      exact s.prints
  | struct fields ih =>
    obtain ⟨hne, hnodup, hfields⟩ := ht.2
    rw [Struct.fieldsWellFormed_iff] at hfields
    obtain ⟨d, hd, hlexes⟩ := exists_fieldTrees hne fun f hf =>
      ⟨(hfields f hf).1, ih f hf (hfields f hf).2⟩
    refine ⟨.mk [] (.struct d), ?_, fun hstop h => ?_⟩
    · simp [TypeTree.value?, LeafTree.value?, hd, hnodup]
    · have hopen := (hlexes h).mark '{' "\x7b" rfl rfl
      rw [render_nil]
      simpa [LeafType.render, TypeTree.terminals, LeafTree.terminals, dimensionTerminals]
        using hopen
  | dim dim dims leaf ih =>
    obtain ⟨hdims, hleaf⟩ := ht
    obtain ⟨hdim, hdims⟩ := List.forall_mem_cons.mp hdims
    obtain ⟨⟨trees, d⟩, hd, hprints⟩ := ih ⟨hdims, hleaf⟩
    refine ⟨.mk ((dim.tree, .comma) :: trees) d, ?_, fun hstop h => ?_⟩
    · obtain ⟨ds, hds, hd⟩ := Option.bind_eq_some_iff.mp hd
      obtain ⟨l, hl, hd⟩ := Option.bind_eq_some_iff.mp hd
      cases hd
      rw [TypeTree.value?, List.mapM_cons, dim.value?_tree hdim, hds, hl]
      rfl
    · have hlexes := dim.prints (endsWord_cons rfl) ((hprints hstop h).space.mark ',' "," rfl rfl)
      rw [render_cons]
      simpa [TypeTree.terminals, dimensionTerminals, Separator.terminal] using hlexes

theorem ArrayType.parse_render_of_wellFormed {t : ArrayType} (ht : t.WellFormed) :
    ArrayType.parse t.render = .ok t := by
  obtain ⟨d, hd, hprints⟩ := t.exists_tree ht
  refine ArrayType.parse_eq_ok.mpr ⟨d, ?_, hd⟩
  have hlexes : Lexes (t.render.toList ++ []) (d.terminals ++ []) :=
    hprints (by simp [EndsWord]) .nil
  rwa [List.append_nil, List.append_nil] at hlexes

/-! ## Reading makes well-formed types -/

theorem lt_of_numberOf? {digits : String} {n : Nat} (h : numberOf? digits = some n) :
    n < 0x10000000000000000 := by
  rw [numberOf?] at h
  split at h
  · cases h
    assumption
  · exact absurd h (by simp)

theorem DimensionTree.lt_of_value? {d : DimensionTree} {x : Dimension} (h : d.value? = some x) :
    ∀ n ∈ x.extent?, n < 0x10000000000000000 := by
  cases d with
  | integer digits =>
    obtain ⟨n, hn, rfl⟩ := Option.map_eq_some_iff.mp h
    rintro _ ⟨⟩
    exact lt_of_numberOf? hn
  | _ =>
    cases h
    simp [Dimension.extent?]

theorem lt_of_mapM_value? {dims : List (DimensionTree × Separator)} :
    ∀ {ds : List Dimension}, dims.mapM (·.1.value?) = some ds →
      ∀ d ∈ ds, ∀ n ∈ d.extent?, n < 0x10000000000000000 := by
  induction dims with
  | nil =>
    rintro ds ⟨⟩
    simp
  | cons d dims ih =>
    intro ds h
    rw [List.mapM_cons] at h
    obtain ⟨x, hx, h⟩ := Option.bind_eq_some_iff.mp h
    obtain ⟨xs, hxs, h⟩ := Option.bind_eq_some_iff.mp h
    cases h
    exact List.forall_mem_cons.mpr ⟨d.1.lt_of_value? hx, ih hxs⟩

theorem ParamsTree.lt_of_value? {p : ParamsTree} {s : StringType} (h : p.value? = some s) :
    ∀ n ∈ s.width, n < 0x10000000000000000 := by
  cases p with
  | none =>
    cases h
    simp
  | width digits =>
    obtain ⟨n, hn, rfl⟩ := Option.map_eq_some_iff.mp h
    rintro _ ⟨⟩
    exact lt_of_numberOf? hn
  | encoding literal =>
    obtain ⟨e, he, rfl⟩ := Option.map_eq_some_iff.mp h
    simp
  | both digits literal =>
    obtain ⟨n, hn, h⟩ := Option.bind_eq_some_iff.mp h
    obtain ⟨e, he, h⟩ := Option.bind_eq_some_iff.mp h
    cases h
    rintro _ ⟨⟩
    exact lt_of_numberOf? hn

/-- A token that can name a field is a word. -/
theorem isWord_of_canNameField {x : Terminal} (hx : x.Genuine)
    (hname : x.token.canNameField = true) : Token.IsWord x.text.toList := by
  obtain ⟨t, text⟩ := x
  cases t with
  | identifier => exact hx.1
  | var | strided | string =>
    have htext := Option.some.inj hx
    rw [← htext]
    decide
  | _ => exact absurd hname (by simp [Token.canNameField])

mutual

theorem TypeTree.wellFormed_of_value? {t : ArrayType} : (d : TypeTree) →
    (∀ x ∈ d.terminals, x.Genuine) → d.value? = some t → t.WellFormed
  | .mk dims d, hgenuine, h => by
    obtain ⟨ds, hds, h⟩ := Option.bind_eq_some_iff.mp h
    obtain ⟨l, hl, h⟩ := Option.bind_eq_some_iff.mp h
    cases h
    refine ⟨?_, d.wellFormed_of_value? (fun x hx => ?_) hl⟩
    · exact lt_of_mapM_value? hds
    · exact hgenuine x (List.mem_append_right _ hx)

theorem LeafTree.wellFormed_of_value? {t : LeafType} : (d : LeafTree) →
    (∀ x ∈ d.terminals, x.Genuine) → d.value? = some t → t.WellFormed
  | .scalar _ _ _, _, h => by
    cases h
    exact trivial
  | .string p, _, h => by
    obtain ⟨s, hs, rfl⟩ := Option.map_eq_some_iff.mp h
    exact p.lt_of_value? hs
  | .struct d, hgenuine, h => by
    obtain ⟨fs, hfs, h⟩ := Option.bind_eq_some_iff.mp h
    split at h
    · rename_i hnodup
      cases h
      obtain ⟨hne, hfields⟩ := d.wellFormed_of_value? (fun x hx => hgenuine x (.tail _ hx)) hfs
      exact ⟨hne, hnodup, hfields⟩
    · exact absurd h (by simp)

theorem FieldTrees.wellFormed_of_value? {fs : List Field} : (d : FieldTrees) →
    (∀ x ∈ d.terminals, x.Genuine) → d.value? = some fs →
      fs ≠ [] ∧ Struct.FieldsWellFormed fs
  | .last name d semicolon, hgenuine, h => by
    obtain ⟨t, ht, h⟩ := Option.bind_eq_some_iff.mp h
    cases h
    obtain ⟨hname, hgenuine⟩ := List.forall_mem_cons.mp hgenuine
    have htype := d.wellFormed_of_value?
      (fun x hx => hgenuine x (.tail _ (List.mem_append_left _ hx))) ht
    exact ⟨by simp, isWord_of_canNameField hname name.2, htype, trivial⟩
  | .cons name d rest, hgenuine, h => by
    obtain ⟨t, ht, h⟩ := Option.bind_eq_some_iff.mp h
    obtain ⟨fs, hfs, h⟩ := Option.bind_eq_some_iff.mp h
    cases h
    obtain ⟨hname, hgenuine⟩ := List.forall_mem_cons.mp hgenuine
    have htype := d.wellFormed_of_value?
      (fun x hx => hgenuine x (.tail _ (List.mem_append_left _ hx))) ht
    have hrest := rest.wellFormed_of_value?
      (fun x hx => hgenuine x (.tail _ (List.mem_append_right _ (.tail _ hx)))) hfs
    exact ⟨by simp, isWord_of_canNameField hname name.2, htype, hrest.2⟩

end

theorem ArrayType.wellFormed_of_parse {source : String} {t : ArrayType}
    (h : ArrayType.parse source = .ok t) : t.WellFormed := by
  obtain ⟨d, hlexes, hd⟩ := ArrayType.parse_eq_ok.mp h
  exact d.wellFormed_of_value? hlexes.genuine hd

/-- **What is printed reads back**, and so it is a normal form of what was read. -/
theorem parse_render :
    (∀ t : ArrayType, t.WellFormed → ArrayType.parse t.render = .ok t) ∧
    (∀ l : LeafType, l.WellFormed → LeafType.parse l.render = .ok l) ∧
    ∀ source t, ArrayType.parse source = .ok t →
      t.WellFormed ∧ ArrayType.parse t.render = .ok t := by
  refine ⟨fun t => ArrayType.parse_render_of_wellFormed, fun l hl => ?_, fun source t h => ?_⟩
  · have hparse := ArrayType.parse_render_of_wellFormed (t := ⟨[], l⟩) ⟨by simp, hl⟩
    rw [ArrayType.render_nil] at hparse
    exact LeafType.parse_eq_ok_iff.mpr hparse
  · have ht := ArrayType.wellFormed_of_parse h
    exact ⟨ht, ArrayType.parse_render_of_wellFormed ht⟩

/-- Fields named like keywords and like dimensions, and strings of two forms. -/
theorem parse_render_nested :
    let inner : LeafType := .struct [⟨"N", ⟨[], .string ⟨.utf16, some 10⟩⟩⟩,
      ⟨"strided", ⟨[.strided], .string ⟨.ascii, none⟩⟩⟩]
    let outer : ArrayType := ⟨[.fixed 3, .var], .struct [⟨"var", ⟨[.var], inner⟩⟩,
      ⟨"_x1", ⟨[], .scalar .cfloat64⟩⟩]⟩
    let read : ArrayType := ⟨[.fixed 3], .struct [⟨"var", ⟨[.strided], .scalar .cfloat64⟩⟩]⟩
    (outer.WellFormed ∧ ArrayType.parse outer.render = .ok outer) ∧
      (inner.WellFormed ∧ LeafType.parse inner.render = .ok inner) ∧
      ArrayType.parse "3*\x7bvar:N,complex;\x7d" = .ok read ∧
      read.WellFormed ∧ ArrayType.parse read.render = .ok read := by
  intro inner outer read
  have hinner : inner.WellFormed := by
    refine ⟨by simp, by decide, ⟨by decide, ⟨by simp, ?_⟩, ?_⟩⟩
    · rintro _ ⟨⟩
      decide
    · exact ⟨by decide, ⟨by simp [Dimension.extent?], by simp [LeafType.WellFormed]⟩, trivial⟩
  have houter : outer.WellFormed := by
    refine ⟨by simp [Dimension.extent?], by simp, by decide, ?_⟩
    exact ⟨by decide, ⟨by simp [Dimension.extent?], hinner⟩, by decide, ⟨by simp, trivial⟩, trivial⟩
  have hread : ArrayType.parse "3*\x7bvar:N,complex;\x7d" = .ok read := by
    have hsome : (ArrayType.parse "3*\x7bvar:N,complex;\x7d").toOption = some
        ⟨[.fixed 3], .struct [⟨"var", ⟨[.strided], .scalar .cfloat64⟩⟩]⟩ := by decide +kernel
    cases hparse : ArrayType.parse "3*\x7bvar:N,complex;\x7d" with
    | error e => simp [hparse, Except.toOption] at hsome
    | ok t =>
      rw [hparse] at hsome
      rw [Option.some.inj hsome]
  exact ⟨⟨houter, parse_render.1 outer houter⟩, ⟨hinner, parse_render.2.1 inner hinner⟩, hread,
    parse_render.2.2 _ read hread⟩

end Ragged
