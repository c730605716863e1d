import Ragged.Proofs.Except
import Ragged.Proofs.Type.Grammar
import Ragged.Type.Parser

/-!
# What is read has a derivation

The reader makes no tree. It calls one function where a derivation has a node, and hands on what the
node is worth.

> If it succeeds, the lexemes it has taken are those of a derivation, whose value is the result
> (`type_sound`, `leaf_sound`, `fields_sound`).

The induction is on the number of calls allowed. What is taken at a time is taken with the check that
what follows it scans, and `Took` keeps both.
-/

set_option autoImplicit false

namespace Ragged

/-- A token with a single text has that text. -/
theorem Terminal.eq_of_spelling {x : Terminal} {t : Token} {s : String} (hx : x.Genuine)
    (ht : x.token = t) (hs : t.spelling? = some s) : x = ⟨t, s⟩ := by
  obtain ⟨t', text⟩ := x
  obtain rfl : t' = t := ht
  have htext : t'.spelling?.map String.toList = some text.toList := by
    cases t' with
    | integer | quoted | identifier => exact absurd hs (by simp [Token.spelling?])
    | _ => exact hx
  rw [hs] at htext
  rw [String.toList_inj.mp (Option.some.inj htext)]

namespace TypeReader

variable {ending : Ending} {ls rest : List Lexeme}

/-! ## What a step takes -/

/-- Some lexemes were taken, of the given tokens, and what follows them scans. -/
structure Took (ending : Ending) (ts : List Terminal) (ls rest : List Lexeme) : Prop where
  terminals : ls.map Lexeme.terminal = ts ++ rest.map Lexeme.terminal
  arrives : arrive ending rest = .ok ()

/-- Lexemes with texts that their tokens can have. -/
def Genuine (ls : List Lexeme) : Prop := ∀ x ∈ ls.map Lexeme.terminal, x.Genuine

theorem Took.trans {ts ts' : List Terminal} {ls' : List Lexeme} (h : Took ending ts ls ls')
    (h' : Took ending ts' ls' rest) : Took ending (ts ++ ts') ls rest :=
  ⟨by rw [h.terminals, h'.terminals, List.append_assoc], h'.arrives⟩

theorem Took.genuine {ts : List Terminal} (h : Took ending ts ls rest) (hls : Genuine ls) :
    Genuine rest := by
  intro x hx
  refine hls x ?_
  rw [h.terminals]
  exact List.mem_append_right ts hx

theorem took_cons {l : Lexeme} (h : arrive ending rest = .ok ()) :
    Took ending [l.terminal] (l :: rest) rest := ⟨rfl, h⟩

theorem took_of_takeAny {expected : String} {l : Lexeme}
    (h : takeAny ending expected ls = .ok (l, rest)) : Took ending [l.terminal] ls rest := by
  cases ls with
  | nil => exact absurd h (by simp [takeAny])
  | cons l' ls =>
    obtain ⟨⟨⟩, harrive, h⟩ := bind_eq_ok.mp h
    cases h
    exact took_cons harrive

theorem Took.of_spelling {l : Lexeme} {t : Token} {s : String} (h : Took ending [l.terminal] ls rest)
    (hls : Genuine ls) (ht : l.token = t) (hs : t.spelling? = some s) :
    Took ending [⟨t, s⟩] ls rest := by
  have hl : l.terminal.Genuine := hls _ (by rw [h.terminals]; exact List.mem_cons_self ..)
  rw [← Terminal.eq_of_spelling hl ht hs]
  exact h

/-- Taking the token that was looked ahead to. -/
theorem token_of_takeAny {t : Token} {expected : String} {l : Lexeme} (hnext : next t ls = true)
    (h : takeAny ending expected ls = .ok (l, rest)) : l.token = t := by
  cases ls with
  | nil => exact absurd hnext (by simp [next])
  | cons l' ls =>
    obtain ⟨⟨⟩, -, h⟩ := bind_eq_ok.mp h
    cases h
    simpa [next] using hnext

theorem took_of_expect {t : Token} {l : Lexeme} (h : expect ending t ls = .ok (l, rest)) :
    l.token = t ∧ Took ending [l.terminal] ls rest := by
  cases ls with
  | nil => exact absurd h (by simp [expect])
  | cons l' ls =>
    rw [expect] at h
    split at h
    · rename_i ht
      obtain ⟨⟨⟩, harrive, h⟩ := bind_eq_ok.mp h
      cases h
      exact ⟨ht, took_cons harrive⟩
    · exact absurd h (by simp)

/-- Taking a token with a single text. -/
theorem took_of_expect_spelling {t : Token} {l : Lexeme} {s : String} (hls : Genuine ls)
    (hs : t.spelling? = some s) (h : expect ending t ls = .ok (l, rest)) :
    Took ending [⟨t, s⟩] ls rest := by
  obtain ⟨ht, htook⟩ := took_of_expect h
  exact htook.of_spelling hls ht hs

/-! ## What numbers and quoted names are worth -/

theorem number_eq_ok {l : Lexeme} {n : Nat} : number l = .ok n ↔ numberOf? l.text = some n := by
  have hfold : l.text.toList.foldl (fun n c => n * 10 + (c.toNat - 48)) 0 =
      Nat.ofDigitChars 10 l.text.toList 0 := by
    rw [Nat.ofDigitChars_eq_foldl]
    exact congrArg (fun f => List.foldl f 0 l.text.toList)
      (funext fun n => funext fun c => by rw [Nat.mul_comm]; rfl)
  simp only [number, numberOf?, hfold]
  split
  · rw [Except.ok.injEq, Option.some.injEq]
  · exact ⟨fun h => absurd h (by simp), fun h => absurd h (by simp)⟩

/-- Reading an encoding takes a literal and looks up what is between its quotes. -/
theorem encoding_eq_ok {e : Encoding} : encoding ending ls = .ok (e, rest) ↔
    ∃ l, expect ending .quoted ls = .ok (l, rest) ∧ encodingOf? l.text = some e := by
  have hlookup (l : Lexeme) : encodingOf? l.text = Encoding.ofName? (unquote l.text) := rfl
  constructor
  · intro h
    obtain ⟨⟨l, ls'⟩, hexpect, h⟩ := bind_eq_ok.mp h
    cases hname : Encoding.ofName? (unquote l.text) with
    | none => simp [hname] at h
    | some e' =>
      simp only [hname] at h
      cases h
      exact ⟨l, hexpect, hname⟩
  · rintro ⟨l, hexpect, he⟩
    refine bind_eq_ok.mpr ⟨(l, rest), hexpect, ?_⟩
    simp only [← hlookup, he]
    rfl

/-! ## What is read has a derivation -/

theorem dimension_sound {l : Lexeme} {x : Dimension} (hl : l.terminal.Genuine)
    (hstart : startsDimension l = true) (h : dimension l = .ok x) :
    ∃ d : DimensionTree, d.terminal = l.terminal ∧ d.value? = some x := by
  obtain ⟨t, text, span⟩ := l
  cases t with
  | integer =>
    obtain ⟨n, hn, h⟩ := bind_eq_ok.mp h
    cases h
    exact ⟨.integer text, rfl, by rw [DimensionTree.value?, number_eq_ok.mp hn]; rfl⟩
  | var =>
    cases h
    exact ⟨.var, (Terminal.eq_of_spelling hl rfl rfl).symm, rfl⟩
  | strided =>
    cases h
    exact ⟨.strided, (Terminal.eq_of_spelling hl rfl rfl).symm, rfl⟩
  | identifier =>
    cases h
    exact ⟨.symbolic text hstart, rfl, rfl⟩
  | _ => exact absurd hstart (by simp [startsDimension])

theorem separator_sound {l : Lexeme} (hl : l.terminal.Genuine)
    (h : l.token.isSeparator = true) : ∃ sep : Separator, sep.terminal = l.terminal := by
  obtain ⟨t, text, span⟩ := l
  cases t with
  | comma => exact ⟨.comma, (Terminal.eq_of_spelling hl rfl rfl).symm⟩
  | star => exact ⟨.star, (Terminal.eq_of_spelling hl rfl rfl).symm⟩
  | _ => exact absurd h (by simp [Token.isSeparator])

theorem dimensions_sound {dims : List Dimension} (hls : Genuine ls)
    (harrive : arrive ending ls = .ok ()) (h : dimensions ending ls = .ok (dims, rest)) :
    ∃ ds, Took ending (dimensionTerminals ds) ls rest ∧
      ds.mapM (·.1.value?) = some dims := by
  fun_induction dimensions ending ls generalizing dims with
  | case1 =>
    cases h
    exact ⟨[], ⟨rfl, harrive⟩, rfl⟩
  | case2 l rest' hstart ih =>
    obtain ⟨hl, hrest'⟩ := List.forall_mem_cons.mp hls
    obtain ⟨⟨⟩, hsep, h⟩ := bind_eq_ok.mp h
    obtain ⟨x, hx, h⟩ := bind_eq_ok.mp h
    obtain ⟨d, hd, hvalue⟩ := dimension_sound hl hstart hx
    cases rest' with
    | nil => exact absurd h (by simp)
    | cons l' rest' =>
      simp only at h
      split at h
      · rename_i hl'
        obtain ⟨⟨⟩, harrive', h⟩ := bind_eq_ok.mp h
        obtain ⟨⟨xs, ls'⟩, hxs, h⟩ := bind_eq_ok.mp h
        cases h
        obtain ⟨hgenuine, hrest'⟩ := List.forall_mem_cons.mp hrest'
        obtain ⟨sep, hsep'⟩ := separator_sound hgenuine hl'
        obtain ⟨ds, htook, hvalues⟩ := ih hrest' harrive' hxs
        refine ⟨(d, sep) :: ds, ?_, ?_⟩
        · rw [dimensionTerminals, hd, hsep']
          exact (took_cons hsep).trans ((took_cons harrive').trans htook)
        · rw [List.mapM_cons, hvalue, hvalues]
          rfl
      · exact absurd h (by simp)
  | case3 l rest' hstart =>
    cases h
    exact ⟨[], ⟨rfl, harrive⟩, rfl⟩

theorem encoding_sound {e : Encoding} (h : encoding ending ls = .ok (e, rest)) :
    ∃ literal, Took ending [⟨.quoted, literal⟩] ls rest ∧ encodingOf? literal = some e := by
  obtain ⟨l, hexpect, he⟩ := encoding_eq_ok.mp h
  obtain ⟨hl, htook⟩ := took_of_expect hexpect
  refine ⟨l.text, ?_, he⟩
  rw [← hl]
  exact htook

/-- What stands in the parentheses behind `string`. -/
theorem inside_sound {s : StringType} (hls : Genuine ls)
    (h : stringParams.inside ending ls = .ok (s, rest)) :
    ∃ (p : ParamsTree) (ts : List Terminal), Took ending ts ls rest ∧ p.value? = some s ∧
      p.terminals = ⟨.openParen, "("⟩ :: (ts ++ [⟨.closeParen, ")"⟩]) := by
  rw [stringParams.inside] at h
  split at h
  · rename_i hinteger
    obtain ⟨⟨l, ls₁⟩, htake, h⟩ := bind_eq_ok.mp h
    obtain ⟨width, hwidth, h⟩ := bind_eq_ok.mp h
    have hl : l.terminal = ⟨.integer, l.text⟩ :=
      congrArg (Terminal.mk · l.text) (token_of_takeAny hinteger htake)
    have htook := took_of_takeAny htake
    have hwidth := number_eq_ok.mp hwidth
    rw [hl] at htook
    simp only at h
    split at h
    · rename_i hcomma
      obtain ⟨⟨l', ls₂⟩, htake', h⟩ := bind_eq_ok.mp h
      obtain ⟨⟨e, ls₃⟩, he, h⟩ := bind_eq_ok.mp h
      cases h
      obtain ⟨literal, htook₃, he⟩ := encoding_sound he
      have htook₂ := (took_of_takeAny htake').of_spelling (htook.genuine hls)
        (token_of_takeAny hcomma htake') rfl
      refine ⟨.both l.text literal, _, htook.trans (htook₂.trans htook₃), ?_, rfl⟩
      rw [ParamsTree.value?, hwidth, he]
      rfl
    · cases h
      refine ⟨.width l.text, _, htook, ?_, rfl⟩
      rw [ParamsTree.value?, hwidth]
      rfl
  · obtain ⟨⟨e, ls₁⟩, he, h⟩ := bind_eq_ok.mp h
    cases h
    obtain ⟨literal, htook, he⟩ := encoding_sound he
    refine ⟨.encoding literal, _, htook, ?_, rfl⟩
    rw [ParamsTree.value?, he]
    rfl

theorem stringParams_sound {s : StringType} (hls : Genuine ls)
    (harrive : arrive ending ls = .ok ()) (h : stringParams ending ls = .ok (s, rest)) :
    ∃ p : ParamsTree, Took ending p.terminals ls rest ∧ p.value? = some s := by
  cases ls with
  | nil =>
    cases h
    exact ⟨.none, ⟨rfl, harrive⟩, rfl⟩
  | cons l ls =>
    obtain ⟨hl, hls⟩ := List.forall_mem_cons.mp hls
    rw [stringParams] at h
    split at h
    · rename_i hopen
      obtain ⟨⟨⟩, harrive, h⟩ := bind_eq_ok.mp h
      obtain ⟨⟨s', ls₁⟩, hinside, h⟩ := bind_eq_ok.mp h
      obtain ⟨⟨l', ls₂⟩, hclose, h⟩ := bind_eq_ok.mp h
      cases h
      obtain ⟨p, ts, htook, hvalue, hp⟩ := inside_sound hls hinside
      have hlast := took_of_expect_spelling (htook.genuine hls) rfl hclose
      refine ⟨p, ?_, hvalue⟩
      rw [hp, ← Terminal.eq_of_spelling hl hopen rfl]
      exact (took_cons harrive).trans (htook.trans hlast)
    · cases h
      exact ⟨.none, ⟨rfl, harrive⟩, rfl⟩

theorem nodup_names_concat {done : List Field} {f : Field} :
    (Struct.names (done ++ [f])).Nodup ↔
      (Struct.names done).Nodup ∧ ¬done.any (·.name = f.name) = true := by
  simp [Struct.names, List.nodup_append]

/-- Behind the fields already read stands the brace that closes them, or the derivation of more. The
names of all of them are distinct. -/
def ReadsFields (ending : Ending) (done fs : List Field) (ls rest : List Lexeme) : Prop :=
  (Struct.names fs).Nodup ∧
    (done ≠ [] ∧ fs = done ∧ Took ending [⟨.closeBrace, "\x7d"⟩] ls rest ∨
      ∃ (d : FieldTrees) (more : List Field), Took ending d.terminals ls rest ∧
        d.value? = some more ∧ fs = done ++ more)

/-- What the reader of fields can do: it takes the brace that closes them, or the name of a field and
its type. Behind the type it takes the brace, or a semicolon and goes on. -/
theorem fields_cases {opened : Span} {done fs : List Field} {n : Nat} (hls : Genuine ls)
    (h : fields ending (n + 1) opened done ls = .ok (fs, rest)) :
    (done ≠ [] ∧ fs = done ∧ Took ending [⟨.closeBrace, "\x7d"⟩] ls rest) ∨
      ∃ (x : Terminal) (t : ArrayType) (ls₁ ls₂ : List Lexeme),
        x.token.canNameField = true ∧ ¬done.any (·.name = x.text) = true ∧
        Took ending [x, ⟨.colon, ":"⟩] ls ls₁ ∧ type ending n ls₁ = .ok (t, ls₂) ∧
        (Genuine ls₂ →
          (fs = done ++ [⟨x.text, t⟩] ∧ Took ending [⟨.closeBrace, "\x7d"⟩] ls₂ rest) ∨
          ∃ ls₃, Took ending [⟨.semicolon, ";"⟩] ls₂ ls₃ ∧
            fields ending n opened (done ++ [⟨x.text, t⟩]) ls₃ = .ok (fs, rest)) := by
  cases ls with
  | nil => exact absurd h (by simp [fields])
  | cons l ls =>
    obtain ⟨hl, hls⟩ := List.forall_mem_cons.mp hls
    rw [fields] at h
    split at h
    · rename_i hclose
      obtain ⟨⟨⟩, harrive, h⟩ := bind_eq_ok.mp h
      cases h
      refine .inl ⟨hclose.2, rfl, ?_⟩
      rw [← Terminal.eq_of_spelling hl hclose.1 rfl]
      exact took_cons harrive
    split at h
    · rename_i hname
      obtain ⟨⟨⟩, harrive, h⟩ := bind_eq_ok.mp h
      split at h
      · exact absurd h (by simp)
      rename_i hfresh
      obtain ⟨⟨colon, ls₁⟩, hcolon, h⟩ := bind_eq_ok.mp h
      obtain ⟨⟨t, ls₂⟩, ht, h⟩ := bind_eq_ok.mp h
      have htook := (took_cons (l := l) harrive).trans (took_of_expect_spelling hls rfl hcolon)
      refine .inr ⟨l.terminal, t, ls₁, ls₂, hname, hfresh, htook, ht, fun hls₂ => ?_⟩
      simp only at h
      split at h
      · rename_i hsemicolon
        obtain ⟨⟨semicolon, ls₃⟩, htake, h⟩ := bind_eq_ok.mp h
        exact .inr ⟨ls₃, (took_of_takeAny htake).of_spelling hls₂
          (token_of_takeAny hsemicolon htake) rfl, h⟩
      · obtain ⟨⟨brace, ls₃⟩, hclose, h⟩ := bind_eq_ok.mp h
        cases h
        exact .inl ⟨rfl, took_of_expect_spelling hls₂ rfl hclose⟩
    · exact absurd h (by simp)

mutual

theorem type_sound {ls rest : List Lexeme} {t : ArrayType} :
    (n : Nat) → Genuine ls → arrive ending ls = .ok () → type ending n ls = .ok (t, rest) →
      ∃ d : TypeTree, Took ending d.terminals ls rest ∧ d.value? = some t
  | 0, _, _, h => absurd h (by simp [type])
  | n + 1, hls, harrive, h => by
    rw [type] at h
    obtain ⟨⟨dims, ls₁⟩, hdims, h⟩ := bind_eq_ok.mp h
    obtain ⟨⟨l, ls₂⟩, hleaf, h⟩ := bind_eq_ok.mp h
    cases h
    obtain ⟨ds, htook, hds⟩ := dimensions_sound hls harrive hdims
    obtain ⟨d, htook', hd⟩ := leaf_sound n (htook.genuine hls) hleaf
    refine ⟨.mk ds d, htook.trans htook', ?_⟩
    rw [TypeTree.value?, hds, hd]
    rfl

theorem leaf_sound {ls rest : List Lexeme} {t : LeafType} :
    (n : Nat) → Genuine ls → leaf ending n ls = .ok (t, rest) →
      ∃ d : LeafTree, Took ending d.terminals ls rest ∧ d.value? = some t
  | 0, _, h => absurd h (by simp [leaf])
  | n + 1, hls, h => by
    rw [leaf] at h
    obtain ⟨⟨l, ls₁⟩, htake, h⟩ := bind_eq_ok.mp h
    have htook := took_of_takeAny htake
    have hls₁ := htook.genuine hls
    simp only at h
    split at h
    · rename_i hl
      obtain ⟨⟨s, ls₂⟩, hs, h⟩ := bind_eq_ok.mp h
      cases h
      obtain ⟨p, htook', hp⟩ := stringParams_sound hls₁ htook.arrives hs
      refine ⟨.string p, (htook.of_spelling hls hl rfl).trans htook', ?_⟩
      rw [LeafTree.value?, hp]
      rfl
    · rename_i hl
      obtain ⟨⟨fs, ls₂⟩, hfs, h⟩ := bind_eq_ok.mp h
      cases h
      obtain ⟨hnodup, ⟨hnil, -⟩ | ⟨d, more, htook', hd, rfl⟩⟩ :=
        fields_sound n (by simp [Struct.names]) hls₁ hfs
      · exact absurd rfl hnil
      · refine ⟨.struct d, (htook.of_spelling hls hl rfl).trans htook', ?_⟩
        rw [LeafTree.value?, hd]
        exact if_pos hnodup
    · rename_i hl
      split at h
      · rename_i kind hkind
        cases h
        refine ⟨.scalar l.text kind hkind, ?_, rfl⟩
        rw [LeafTree.terminals, ← hl]
        exact htook
      · exact absurd h (by simp)
    · exact absurd h (by simp)

theorem fields_sound {ls rest : List Lexeme} {opened : Span} {done fs : List Field} :
    (n : Nat) → (Struct.names done).Nodup → Genuine ls →
      fields ending n opened done ls = .ok (fs, rest) → ReadsFields ending done fs ls rest
  | 0, _, _, h => absurd h (by simp [fields])
  | n + 1, hnodup, hls, h => by
    rcases fields_cases hls h with
      hclose | ⟨x, t, ls₁, ls₂, hname, hfresh, htook, ht, hafter⟩
    · exact ⟨by rw [hclose.2.1]; exact hnodup, .inl hclose⟩
    obtain ⟨d, htook', hd⟩ := type_sound n (htook.genuine hls) htook.arrives ht
    have htook := htook.trans htook'
    have hnodup : (Struct.names (done ++ [⟨x.text, t⟩])).Nodup :=
      nodup_names_concat.mpr ⟨hnodup, hfresh⟩
    rcases hafter (htook.genuine hls) with ⟨rfl, hclose⟩ | ⟨ls₃, hsemicolon, hfields⟩
    · refine ⟨hnodup, .inr ⟨.last ⟨x, hname⟩ d false, [⟨x.text, t⟩], ?_, ?_, rfl⟩⟩
      · simpa [FieldTrees.terminals] using htook.trans hclose
      · rw [FieldTrees.value?, hd]
        rfl
    -- a brace right behind the semicolon ends the fields, and then this was the last
    have htook := htook.trans hsemicolon
    obtain ⟨hnodup', ⟨-, rfl, hclose⟩ | ⟨d', more, htook'', hd', rfl⟩⟩ :=
      fields_sound n hnodup (htook.genuine hls) hfields
    · refine ⟨hnodup', .inr ⟨.last ⟨x, hname⟩ d true, [⟨x.text, t⟩], ?_, ?_, rfl⟩⟩
      · simpa [FieldTrees.terminals] using htook.trans hclose
      · rw [FieldTrees.value?, hd]
        rfl
    · refine ⟨hnodup', .inr ⟨.cons ⟨x, hname⟩ d d', ⟨x.text, t⟩ :: more, ?_, ?_,
        List.append_assoc ..⟩⟩
      · simpa [FieldTrees.terminals] using htook.trans htook''
      · rw [FieldTrees.value?, hd, hd']
        rfl

end

end TypeReader

end Ragged
