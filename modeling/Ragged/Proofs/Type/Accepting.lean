import Ragged.Proofs.Type.Reading

/-!
# What has a derivation is read

The other half of what the reader does, and with it all of it.

> A text reads as a type just if the tokens it is cut into are those of a derivation with that value
> (`ArrayType.parse_eq_ok`, `LeafType.parse_eq_ok`).

The induction is on the derivation, so the reader must not run out of calls before the derivation
ends. A node has no more of them below it than three for each of its tokens. It also must not meet a
stretch that is no token, and there is none if the text is cut into tokens at all.
-/

set_option autoImplicit false

namespace Ragged

namespace TypeReader

/-! ## What has a derivation is read -/

variable {ending : Ending} {xs rest : List Lexeme}

theorem map_terminal_eq_cons {x : Terminal} {ts : List Terminal} :
    xs.map Lexeme.terminal = x :: ts ↔
      ∃ span xs', xs = ⟨x.token, x.text, span⟩ :: xs' ∧ xs'.map Lexeme.terminal = ts := by
  rw [List.map_eq_cons_iff]
  constructor
  · rintro ⟨l, xs', rfl, rfl, rfl⟩
    exact ⟨l.span, xs', rfl, rfl⟩
  · rintro ⟨span, xs', rfl, rfl⟩
    exact ⟨_, xs', rfl, rfl, rfl⟩

theorem arrive_of_fault (hend : ending.fault = none) : arrive ending rest = .ok () := by
  simp [arrive, hend]

theorem takeAny_complete {expected : String} {l : Lexeme} (hend : ending.fault = none) :
    takeAny ending expected (l :: rest) = .ok (l, rest) := by
  simp [takeAny, arrive_of_fault hend, bind, Except.bind, pure, Except.pure]

theorem expect_complete {l : Lexeme} {t : Token} (hend : ending.fault = none) (ht : l.token = t) :
    expect ending t (l :: rest) = .ok (l, rest) := by
  simp [expect, ht, arrive_of_fault hend, bind, Except.bind, pure, Except.pure]

theorem encoding_complete {literal : String} {span : Span} {e : Encoding}
    (hend : ending.fault = none) (he : encodingOf? literal = some e) :
    encoding ending (⟨.quoted, literal, span⟩ :: rest) = .ok (e, rest) :=
  encoding_eq_ok.mpr ⟨_, expect_complete hend rfl, he⟩

theorem dimension_complete {d : DimensionTree} {x : Dimension} {span : Span}
    (h : d.value? = some x) : dimension ⟨d.terminal.token, d.terminal.text, span⟩ = .ok x := by
  cases d with
  | integer digits =>
    obtain ⟨n, hn, rfl⟩ := Option.map_eq_some_iff.mp h
    exact bind_eq_ok.mpr ⟨n, number_eq_ok.mpr hn, rfl⟩
  | _ =>
    cases h
    rfl

theorem dimensions_complete (rest : List Lexeme) (hend : ending.fault = none)
    (hrest : ∀ l ∈ rest.head?, startsDimension l = false) :
    ∀ {dims : List (DimensionTree × Separator)} {ds : List Dimension} {xs : List Lexeme},
      dims.mapM (·.1.value?) = some ds → xs.map Lexeme.terminal = dimensionTerminals dims →
        dimensions ending (xs ++ rest) = .ok (ds, rest) := by
  intro dims
  induction dims with
  | nil =>
    intro ds xs hds hxs
    cases hds
    obtain rfl := List.map_eq_nil_iff.mp hxs
    cases rest with
    | nil => rfl
    | cons l rest =>
      rw [List.nil_append, dimensions, hrest l rfl]
      rfl
  | cons d dims ih =>
    intro ds xs hds hxs
    obtain ⟨d, sep⟩ := d
    rw [List.mapM_cons] at hds
    obtain ⟨x, hx, hds⟩ := Option.bind_eq_some_iff.mp hds
    obtain ⟨ds', hds', hds⟩ := Option.bind_eq_some_iff.mp hds
    cases hds
    obtain ⟨span, xs, rfl, hsep⟩ := map_terminal_eq_cons.mp hxs
    obtain ⟨span', xs, rfl, hdims⟩ := map_terminal_eq_cons.mp hsep
    have hstart : startsDimension ⟨d.terminal.token, d.terminal.text, span⟩ = true :=
      d.startsDimension_terminal
    have hsep' : sep.terminal.token.isSeparator = true := by cases sep <;> rfl
    simp only [List.cons_append, dimensions, hstart, if_true, arrive_of_fault hend,
      dimension_complete hx, hsep', ih hds' hdims]
    rfl

theorem stringParams_complete {p : ParamsTree} {s : StringType} (hend : ending.fault = none)
    (hp : p.value? = some s) (hxs : xs.map Lexeme.terminal = p.terminals)
    (hrest : NoParams (rest.map Lexeme.terminal)) :
    stringParams ending (xs ++ rest) = .ok (s, rest) := by
  cases p with
  | none =>
    cases hp
    obtain rfl := List.map_eq_nil_iff.mp hxs
    cases rest with
    | nil => rfl
    | cons l rest =>
      have hparen : l.token ≠ .openParen := hrest l.terminal rfl
      rw [List.nil_append, stringParams, if_neg hparen]
  | width digits =>
    obtain ⟨width, hwidth, rfl⟩ := Option.map_eq_some_iff.mp hp
    obtain ⟨_, xs, rfl, hinteger⟩ := map_terminal_eq_cons.mp hxs
    obtain ⟨span, xs, rfl, hclose⟩ := map_terminal_eq_cons.mp hinteger
    obtain ⟨_, xs, rfl, hnil⟩ := map_terminal_eq_cons.mp hclose
    obtain rfl := List.map_eq_nil_iff.mp hnil
    have hwidth : number ⟨.integer, digits, span⟩ = .ok width := number_eq_ok.mpr hwidth
    simp [stringParams, stringParams.inside, next, takeAny_complete hend, expect_complete hend,
      arrive_of_fault hend, hwidth, bind, Except.bind, pure, Except.pure]
  | encoding literal =>
    obtain ⟨e, he, rfl⟩ := Option.map_eq_some_iff.mp hp
    obtain ⟨_, xs, rfl, hquoted⟩ := map_terminal_eq_cons.mp hxs
    obtain ⟨_, xs, rfl, hclose⟩ := map_terminal_eq_cons.mp hquoted
    obtain ⟨_, xs, rfl, hnil⟩ := map_terminal_eq_cons.mp hclose
    obtain rfl := List.map_eq_nil_iff.mp hnil
    simp [stringParams, stringParams.inside, next, expect_complete hend, arrive_of_fault hend,
      encoding_complete hend he, bind, Except.bind, pure, Except.pure]
  | both digits literal =>
    obtain ⟨width, hwidth, hp⟩ := Option.bind_eq_some_iff.mp hp
    obtain ⟨e, he, hp⟩ := Option.bind_eq_some_iff.mp hp
    cases hp
    obtain ⟨_, xs, rfl, hinteger⟩ := map_terminal_eq_cons.mp hxs
    obtain ⟨span, xs, rfl, hcomma⟩ := map_terminal_eq_cons.mp hinteger
    obtain ⟨_, xs, rfl, hquoted⟩ := map_terminal_eq_cons.mp hcomma
    obtain ⟨_, xs, rfl, hclose⟩ := map_terminal_eq_cons.mp hquoted
    obtain ⟨_, xs, rfl, hnil⟩ := map_terminal_eq_cons.mp hclose
    obtain rfl := List.map_eq_nil_iff.mp hnil
    have hwidth : number ⟨.integer, digits, span⟩ = .ok width := number_eq_ok.mpr hwidth
    simp [stringParams, stringParams.inside, next, takeAny_complete hend, expect_complete hend,
      arrive_of_fault hend, hwidth, encoding_complete hend he, bind, Except.bind, pure, Except.pure]

/-- What the reader of fields does once it has read a field. -/
theorem fields_of_type {x : Terminal} {span span' opened : Span} {n : Nat} {done : List Field}
    {ls ls' : List Lexeme} {t : ArrayType} (hend : ending.fault = none)
    (hname : x.token.canNameField = true)
    (hnodup : (Struct.names (done ++ [⟨x.text, t⟩])).Nodup)
    (ht : type ending n ls = .ok (t, ls')) :
    fields ending (n + 1) opened done (⟨x.token, x.text, span⟩ :: ⟨.colon, ":", span'⟩ :: ls) =
      if next .semicolon ls' then
        (takeAny ending Token.semicolon.describe ls').bind fun read =>
          fields ending n opened (done ++ [⟨x.text, t⟩]) read.2
      else
        (expect ending .closeBrace ls').bind fun read => .ok (done ++ [⟨x.text, t⟩], read.2) := by
  have hclose : ¬(x.token = .closeBrace ∧ done ≠ []) := by
    rintro ⟨hx, -⟩
    rw [hx] at hname
    exact Bool.false_ne_true hname
  rw [fields, if_neg hclose, if_pos hname, arrive_of_fault hend]
  simp only [if_neg (nodup_names_concat.mp hnodup).2, expect_complete hend, bind, Except.bind, ht]
  rfl

mutual

theorem type_complete {xs : List Lexeme} {t : ArrayType} {n : Nat} (rest : List Lexeme)
    (hend : ending.fault = none) : (d : TypeTree) → d.value? = some t →
      xs.map Lexeme.terminal = d.terminals → NoParams (rest.map Lexeme.terminal) →
      3 * xs.length ≤ n → type ending n (xs ++ rest) = .ok (t, rest)
  | .mk dims d, ht, hxs, hrest, hn => by
    obtain ⟨ds, hds, ht⟩ := Option.bind_eq_some_iff.mp ht
    obtain ⟨l, hl, ht⟩ := Option.bind_eq_some_iff.mp ht
    cases ht
    obtain ⟨xs₁, xs₂, rfl, hxs₁, hxs₂⟩ := List.map_eq_append_iff.mp hxs
    obtain ⟨x, ts, hd, hstart⟩ := d.terminals_eq_cons
    obtain ⟨span, xs', rfl, -⟩ := map_terminal_eq_cons.mp (hxs₂.trans hd)
    rw [List.length_append, List.length_cons] at hn
    obtain ⟨n, rfl⟩ : ∃ m, n = m + 1 := ⟨n - 1, by omega⟩
    have hleaf := leaf_complete rest hend d hl hxs₂ hrest (n := n) (by rw [List.length_cons]; omega)
    have hdims := dimensions_complete (⟨x.token, x.text, span⟩ :: (xs' ++ rest)) hend
      (by rintro _ ⟨⟩; exact hstart) hds hxs₁
    rw [List.append_assoc, type]
    exact bind_eq_ok.mpr ⟨_, hdims, bind_eq_ok.mpr ⟨_, hleaf, rfl⟩⟩

theorem leaf_complete {xs : List Lexeme} {t : LeafType} {n : Nat} (rest : List Lexeme)
    (hend : ending.fault = none) : (d : LeafTree) → d.value? = some t →
      xs.map Lexeme.terminal = d.terminals → NoParams (rest.map Lexeme.terminal) →
      3 * xs.length ≤ n + 1 → leaf ending n (xs ++ rest) = .ok (t, rest)
  | .scalar name kind known, ht, hxs, _, hn => by
    cases ht
    obtain ⟨span, xs, rfl, hnil⟩ := map_terminal_eq_cons.mp hxs
    obtain rfl := List.map_eq_nil_iff.mp hnil
    rw [List.length_singleton] at hn
    obtain ⟨n, rfl⟩ : ∃ m, n = m + 1 := ⟨n - 1, by omega⟩
    rw [leaf]
    refine bind_eq_ok.mpr ⟨_, takeAny_complete hend, ?_⟩
    simp only [known]
    rfl
  | .string params, ht, hxs, hrest, hn => by
    obtain ⟨s, hs, rfl⟩ := Option.map_eq_some_iff.mp ht
    obtain ⟨span, xs, rfl, hparams⟩ := map_terminal_eq_cons.mp hxs
    rw [List.length_cons] at hn
    obtain ⟨n, rfl⟩ : ∃ m, n = m + 1 := ⟨n - 1, by omega⟩
    rw [leaf]
    refine bind_eq_ok.mpr ⟨_, takeAny_complete hend, ?_⟩
    exact bind_eq_ok.mpr ⟨_, stringParams_complete hend hs hparams hrest, rfl⟩
  | .struct d, ht, hxs, _, hn => by
    obtain ⟨fs, hfs, ht⟩ := Option.bind_eq_some_iff.mp ht
    split at ht
    · rename_i hnodup
      cases ht
      obtain ⟨span, xs, rfl, hfields⟩ := map_terminal_eq_cons.mp hxs
      rw [List.length_cons] at hn
      obtain ⟨n, rfl⟩ : ∃ m, n = m + 1 := ⟨n - 1, by omega⟩
      rw [leaf]
      refine bind_eq_ok.mpr ⟨_, takeAny_complete hend, ?_⟩
      exact bind_eq_ok.mpr ⟨_, fields_complete _ rest hend d hfs hnodup hfields (by omega), rfl⟩
    · exact absurd ht (by simp)

theorem fields_complete {xs : List Lexeme} {done fs : List Field} {n : Nat} (opened : Span)
    (rest : List Lexeme) (hend : ending.fault = none) : (d : FieldTrees) → d.value? = some fs →
      (Struct.names (done ++ fs)).Nodup → xs.map Lexeme.terminal = d.terminals →
      3 * xs.length + 1 ≤ n → fields ending n opened done (xs ++ rest) = .ok (done ++ fs, rest)
  | .last name d semicolon, hfs, hnodup, hxs, hn => by
    obtain ⟨t, ht, hfs⟩ := Option.bind_eq_some_iff.mp hfs
    cases hfs
    obtain ⟨_, xs, rfl, hcolon⟩ := map_terminal_eq_cons.mp hxs
    obtain ⟨_, xs, rfl, hafter⟩ := map_terminal_eq_cons.mp hcolon
    obtain ⟨xs₁, xs₂, rfl, hxs₁, hxs₂⟩ := List.map_eq_append_iff.mp hafter
    simp only [List.length_cons, List.length_append] at hn
    obtain ⟨n, rfl⟩ : ∃ m, n = m + 1 := ⟨n - 1, by omega⟩
    have htype := type_complete (xs₂ ++ rest) hend d ht hxs₁
      (by rw [List.map_append, hxs₂]; cases semicolon <;> simp [NoParams]) (n := n) (by omega)
    rw [List.cons_append, List.cons_append, List.append_assoc,
      fields_of_type hend name.2 hnodup htype]
    cases semicolon with
    | false =>
      obtain ⟨_, xs₂, rfl, hnil⟩ := map_terminal_eq_cons.mp hxs₂
      obtain rfl := List.map_eq_nil_iff.mp hnil
      simp [next, expect_complete hend, Except.bind]
    | true =>
      obtain ⟨_, xs₂, rfl, hclose⟩ := map_terminal_eq_cons.mp hxs₂
      obtain ⟨_, xs₂, rfl, hnil⟩ := map_terminal_eq_cons.mp hclose
      obtain rfl := List.map_eq_nil_iff.mp hnil
      simp only [List.length_cons] at hn
      obtain ⟨n, rfl⟩ : ∃ m, n = m + 1 := ⟨n - 1, by omega⟩
      simp [next, takeAny_complete hend, Except.bind, fields, arrive_of_fault hend, bind, pure,
        Except.pure]
  | .cons name d more, hfs, hnodup, hxs, hn => by
    obtain ⟨t, ht, hfs⟩ := Option.bind_eq_some_iff.mp hfs
    obtain ⟨fs', hmore, hfs⟩ := Option.bind_eq_some_iff.mp hfs
    cases hfs
    obtain ⟨_, xs, rfl, hcolon⟩ := map_terminal_eq_cons.mp hxs
    obtain ⟨_, xs, rfl, hafter⟩ := map_terminal_eq_cons.mp hcolon
    obtain ⟨xs₁, xs₂, rfl, hxs₁, hxs₂⟩ := List.map_eq_append_iff.mp hafter
    obtain ⟨span, xs₂, rfl, hfields⟩ := map_terminal_eq_cons.mp hxs₂
    simp only [List.length_cons, List.length_append] at hn
    obtain ⟨n, rfl⟩ : ∃ m, n = m + 1 := ⟨n - 1, by omega⟩
    have htype := type_complete (⟨.semicolon, ";", span⟩ :: (xs₂ ++ rest)) hend d ht hxs₁
      (by simp [NoParams, Lexeme.terminal]) (n := n) (by omega)
    rw [List.append_cons] at hnodup
    have hfields := fields_complete opened rest hend more hmore hnodup hfields (n := n)
      (by omega)
    have hfirst : (Struct.names (done ++ [⟨name.1.text, t⟩])).Nodup := by
      rw [Struct.names, List.map_append] at hnodup
      exact (List.nodup_append.mp hnodup).1
    rw [List.cons_append, List.cons_append, List.append_assoc, List.cons_append,
      fields_of_type hend name.2 hfirst htype, List.append_cons]
    simpa [next, takeAny_complete hend, Except.bind] using hfields

end

/-! ## Reading a whole text -/

theorem splitScanned_eq_none_iff {items : List Scanned} :
    ∀ {ls : List Lexeme}, splitScanned items = (ls, none) ↔ items = ls.map .ok := by
  induction items with
  | nil => simp [splitScanned, eq_comm]
  | cons item items ih =>
    intro ls
    cases item with
    | error e => cases ls <;> simp [splitScanned]
    | ok l =>
      cases ls with
      | nil => simp [splitScanned]
      | cons l' ls =>
        rw [splitScanned, List.map_cons, List.cons.injEq, ← ih, Except.ok.injEq]
        generalize splitScanned items = found
        simp only [Prod.ext_iff, List.cons.injEq, and_assoc]

theorem mem_of_mem_splitScanned {items : List Scanned} {l : Lexeme}
    (h : l ∈ (splitScanned items).1) : .ok l ∈ items := by
  induction items with
  | nil => exact absurd h List.not_mem_nil
  | cons item items ih =>
    cases item with
    | error e => exact absurd h List.not_mem_nil
    | ok l' =>
      rcases List.mem_cons.mp h with rfl | h
      · exact List.mem_cons_self
      · exact List.mem_cons_of_mem _ (ih h)

/-- The lexemes of a text have texts that their tokens can have. -/
theorem genuine_splitScanned (source : String) : Genuine (splitScanned (scan source)).1 := by
  intro x hx
  obtain ⟨l, hl, rfl⟩ := List.mem_map.mp hx
  exact Scan.genuine_of_mem_run (mem_of_mem_splitScanned hl)

/-- If what a reader finds in lexemes is the value of a derivation of their tokens, what it finds in
a text is the value of a derivation of the tokens that the text is cut into. -/
theorem onText_eq_ok {α δ : Type} {reader : Ending → List Lexeme → Except ParseError α}
    {terminals : δ → List Terminal} {value? : δ → Option α} {a : α} {source : String}
    (hreader : ∀ {ending ls}, Genuine ls → arrive ending ls = .ok () →
      (reader ending ls = .ok a ↔
        ending.fault = none ∧ ∃ d, terminals d = ls.map Lexeme.terminal ∧ value? d = some a)) :
    onText reader source = .ok a ↔ ∃ d, Lexes source.toList (terminals d) ∧ value? d = some a := by
  have hgenuine := genuine_splitScanned source
  rw [onText]
  constructor
  · intro h
    obtain ⟨⟨⟩, harrive, h⟩ := bind_eq_ok.mp h
    obtain ⟨hfault, d, hd, hvalue⟩ := (hreader hgenuine harrive).mp h
    have hscan := splitScanned_eq_none_iff.mp (Prod.ext rfl hfault)
    exact ⟨d, exists_scan_iff.mp ⟨_, hscan, hd.symm⟩, hvalue⟩
  · rintro ⟨d, hlexes, hvalue⟩
    obtain ⟨ls, hscan, hls⟩ := exists_scan_iff.mpr hlexes
    have hsplit := splitScanned_eq_none_iff.mpr hscan
    rw [hsplit] at hgenuine
    simp only [hsplit]
    have harrive : arrive ⟨endSpan source, none⟩ ls = .ok () := arrive_of_fault rfl
    have hread := (hreader hgenuine harrive).mpr ⟨rfl, d, hls.symm, hvalue⟩
    exact bind_eq_ok.mpr ⟨(), harrive, hread⟩

theorem finish_eq_ok {α : Type} {a b : α} : finish (a, rest) = .ok b ↔ a = b ∧ rest = [] := by
  cases rest <;> simp [finish]

theorem fault_of_arrive (h : arrive ending [] = .ok ()) : ending.fault = none := by
  cases hfault : ending.fault with
  | none => rfl
  | some e => exact absurd h (by simp [arrive, hfault])

end TypeReader

open TypeReader

variable {source : String}

theorem ArrayType.parse_eq_ok {t : ArrayType} : ArrayType.parse source = .ok t ↔
    ∃ d : TypeTree, Lexes source.toList d.terminals ∧ d.value? = some t := by
  refine onText_eq_ok fun {ending ls} hls harrive => ⟨fun h => ?_, ?_⟩
  · obtain ⟨⟨t', rest⟩, ht, h⟩ := bind_eq_ok.mp h
    obtain ⟨rfl, rfl⟩ := finish_eq_ok.mp h
    obtain ⟨d, htook, hd⟩ := type_sound _ hls harrive ht
    exact ⟨fault_of_arrive htook.arrives, d, by rw [htook.terminals, List.map_nil,
      List.append_nil], hd⟩
  · rintro ⟨hend, d, hterminals, hd⟩
    have hread := type_complete [] hend (n := steps ls) d hd hterminals.symm
      (by simp [NoParams]) (by rw [steps]; omega)
    rw [List.append_nil] at hread
    exact bind_eq_ok.mpr ⟨_, hread, rfl⟩

theorem LeafType.parse_eq_ok {t : LeafType} : LeafType.parse source = .ok t ↔
    ∃ d : LeafTree, Lexes source.toList d.terminals ∧ d.value? = some t := by
  refine onText_eq_ok fun {ending ls} hls harrive => ⟨fun h => ?_, ?_⟩
  · have hleaf : (leaf ending (steps ls) ls).bind finish = .ok t := by
      split at h
      · split at h
        · exact absurd h (by simp)
        · exact h
      · exact h
    obtain ⟨⟨t', rest⟩, ht, h⟩ := bind_eq_ok.mp hleaf
    obtain ⟨rfl, rfl⟩ := finish_eq_ok.mp h
    obtain ⟨d, htook, hd⟩ := leaf_sound _ hls ht
    exact ⟨fault_of_arrive htook.arrives, d, by rw [htook.terminals, List.map_nil,
      List.append_nil], hd⟩
  · rintro ⟨hend, d, hterminals, hd⟩
    have hread := leaf_complete [] hend (n := steps ls) d hd hterminals.symm
      (by simp [NoParams]) (by rw [steps]; omega)
    rw [List.append_nil] at hread
    obtain ⟨x, ts, hx, hstart⟩ := d.terminals_eq_cons
    obtain ⟨span, ls, rfl, -⟩ := map_terminal_eq_cons.mp (hterminals.symm.trans hx)
    simp only
    rw [if_neg (by rw [show startsDimension ⟨x.token, x.text, span⟩ = false from hstart]; simp)]
    exact bind_eq_ok.mpr ⟨_, hread, rfl⟩

/-- A leaf is read where a type without dimensions is. -/
theorem LeafType.parse_eq_ok_iff {t : LeafType} :
    LeafType.parse source = .ok t ↔ ArrayType.parse source = .ok ⟨[], t⟩ := by
  rw [LeafType.parse_eq_ok, ArrayType.parse_eq_ok]
  constructor
  · rintro ⟨d, hlexes, hd⟩
    refine ⟨.mk [] d, hlexes, ?_⟩
    rw [TypeTree.value?, hd]
    rfl
  · rintro ⟨⟨dims, d⟩, hlexes, hd⟩
    obtain ⟨ds, hds, hd⟩ := Option.bind_eq_some_iff.mp hd
    obtain ⟨l, hl, hd⟩ := Option.bind_eq_some_iff.mp hd
    cases hd
    cases dims with
    | nil => exact ⟨d, hlexes, hl⟩
    | cons dim dims => simp [List.mapM_cons, Option.bind_eq_some_iff] at hds

/-- **What is read is what the grammar derives**, in the one way in which it does. A leaf is a type
without dimensions. -/
theorem parse_iff_derivable (source : String) :
    (∀ t, ArrayType.parse source = .ok t ↔
      ∃ d : TypeTree, Lexes source.toList d.terminals ∧ d.value? = some t) ∧
    (∀ d d' : TypeTree, Lexes source.toList d.terminals → Lexes source.toList d'.terminals →
      d = d') ∧
    ∀ l, LeafType.parse source = .ok l ↔ ArrayType.parse source = .ok ⟨[], l⟩ := by
  refine ⟨fun t => ArrayType.parse_eq_ok, fun d d' h h' => ?_, fun l => LeafType.parse_eq_ok_iff⟩
  exact TypeTree.terminals_injective (h.unique h')

end Ragged
