import Ragged.Proofs.Type.Accepting

/-!
# What the reader complains about

A reader fails for one of three reasons: behind the lexemes is a stretch that is no token, a lexeme
is not what it should be, or the lexemes end too early (`Blames`). An error of the second kind is
about a lexeme that there is, and shows its text and its place (`Concerns`). As to the third,

> if the lexemes end too early then all of them were taken: they are tokens with which a derivation
> that has a value begins.

So that is never the error of a reader that gave up before the end of its lexemes. It is not the
error of one that ran out of calls either: three for each lexeme, and a few more, are enough.
-/

set_option autoImplicit false

namespace Ragged

namespace TypeReader

variable {ending : Ending} {ls rest : List Lexeme} {e : ParseError}

/-! ## What is left of the lexemes -/

theorem eq_cons_of_takeAny {expected : String} {l : Lexeme}
    (h : takeAny ending expected ls = .ok (l, rest)) : ls = l :: rest := by
  cases ls with
  | nil => exact absurd h (by simp [takeAny])
  | cons l' ls =>
    obtain ⟨⟨⟩, -, h⟩ := bind_eq_ok.mp h
    cases h
    rfl

theorem eq_cons_of_expect {t : Token} {l : Lexeme} (h : expect ending t ls = .ok (l, rest)) :
    ls = l :: rest := by
  cases ls with
  | nil => exact absurd h (by simp [expect])
  | cons l' ls =>
    rw [expect] at h
    split at h
    · obtain ⟨⟨⟩, -, h⟩ := bind_eq_ok.mp h
      cases h
      rfl
    · exact absurd h (by simp)

theorem suffix_of_takeAny {expected : String} {l : Lexeme}
    (h : takeAny ending expected ls = .ok (l, rest)) : rest <:+ ls := by
  rw [eq_cons_of_takeAny h]
  exact List.suffix_cons l rest

theorem suffix_of_expect {t : Token} {l : Lexeme} (h : expect ending t ls = .ok (l, rest)) :
    rest <:+ ls := by
  rw [eq_cons_of_expect h]
  exact List.suffix_cons l rest

theorem suffix_of_dimensions {dims : List Dimension}
    (h : dimensions ending ls = .ok (dims, rest)) : rest <:+ ls := by
  fun_induction dimensions ending ls generalizing dims with
  | case1 =>
    cases h
    exact List.suffix_refl []
  | case2 l rest' hstart ih =>
    obtain ⟨⟨⟩, -, h⟩ := bind_eq_ok.mp h
    obtain ⟨d, -, h⟩ := bind_eq_ok.mp h
    cases rest' with
    | nil => exact absurd h (by simp)
    | cons sep rest' =>
      simp only at h
      split at h
      · obtain ⟨⟨⟩, -, h⟩ := bind_eq_ok.mp h
        obtain ⟨⟨ds, ls'⟩, hds, h⟩ := bind_eq_ok.mp h
        cases h
        exact (ih hds).trans ((List.suffix_cons sep rest').trans (List.suffix_cons l _))
      · exact absurd h (by simp)
  | case3 l rest' hstart =>
    cases h
    exact List.suffix_refl _

theorem suffix_of_encoding {e : Encoding} (h : encoding ending ls = .ok (e, rest)) :
    rest <:+ ls := by
  obtain ⟨l, hexpect, -⟩ := encoding_eq_ok.mp h
  exact suffix_of_expect hexpect

theorem suffix_of_inside {s : StringType} (h : stringParams.inside ending ls = .ok (s, rest)) :
    rest <:+ ls := by
  rw [stringParams.inside] at h
  split at h
  · obtain ⟨⟨l, ls₁⟩, htake, h⟩ := bind_eq_ok.mp h
    obtain ⟨width, -, h⟩ := bind_eq_ok.mp h
    simp only at h
    split at h
    · obtain ⟨⟨l', ls₂⟩, htake', h⟩ := bind_eq_ok.mp h
      obtain ⟨⟨e, ls₃⟩, he, h⟩ := bind_eq_ok.mp h
      cases h
      exact (suffix_of_encoding he).trans
        ((suffix_of_takeAny htake').trans (suffix_of_takeAny htake))
    · cases h
      exact suffix_of_takeAny htake
  · obtain ⟨⟨e, ls₁⟩, he, h⟩ := bind_eq_ok.mp h
    cases h
    exact suffix_of_encoding he

theorem suffix_of_stringParams {s : StringType} (h : stringParams ending ls = .ok (s, rest)) :
    rest <:+ ls := by
  cases ls with
  | nil =>
    cases h
    exact List.suffix_refl []
  | cons l ls =>
    rw [stringParams] at h
    split at h
    · obtain ⟨⟨⟩, -, h⟩ := bind_eq_ok.mp h
      obtain ⟨⟨s', ls₁⟩, hinside, h⟩ := bind_eq_ok.mp h
      obtain ⟨⟨l', ls₂⟩, hclose, h⟩ := bind_eq_ok.mp h
      cases h
      exact (suffix_of_expect hclose).trans
        ((suffix_of_inside hinside).trans (List.suffix_cons l ls))
    · cases h
      exact List.suffix_refl _

mutual

theorem suffix_of_type {ls rest : List Lexeme} {t : ArrayType} :
    (n : Nat) → type ending n ls = .ok (t, rest) → rest <:+ ls
  | 0, h => absurd h (by simp [type])
  | n + 1, h => by
    rw [type] at h
    obtain ⟨⟨dims, ls₁⟩, hdims, h⟩ := bind_eq_ok.mp h
    obtain ⟨⟨l, ls₂⟩, hleaf, h⟩ := bind_eq_ok.mp h
    cases h
    exact (suffix_of_leaf n hleaf).trans (suffix_of_dimensions hdims)

theorem suffix_of_leaf {ls rest : List Lexeme} {t : LeafType} :
    (n : Nat) → leaf ending n ls = .ok (t, rest) → rest <:+ ls
  | 0, h => absurd h (by simp [leaf])
  | n + 1, h => by
    rw [leaf] at h
    obtain ⟨⟨l, ls₁⟩, htake, h⟩ := bind_eq_ok.mp h
    have hsuffix := suffix_of_takeAny htake
    simp only at h
    split at h
    · obtain ⟨⟨s, ls₂⟩, hs, h⟩ := bind_eq_ok.mp h
      cases h
      exact (suffix_of_stringParams hs).trans hsuffix
    · obtain ⟨⟨fs, ls₂⟩, hfs, h⟩ := bind_eq_ok.mp h
      cases h
      exact (suffix_of_fields n hfs).trans hsuffix
    · split at h
      · cases h
        exact hsuffix
      · exact absurd h (by simp)
    · exact absurd h (by simp)

theorem suffix_of_fields {ls rest : List Lexeme} {opened : Span} {done fs : List Field} :
    (n : Nat) → fields ending n opened done ls = .ok (fs, rest) → rest <:+ ls
  | 0, h => absurd h (by simp [fields])
  | n + 1, h => by
    cases ls with
    | nil => exact absurd h (by simp [fields])
    | cons l ls =>
      have hsuffix := List.suffix_cons l ls
      rw [fields] at h
      split at h
      · obtain ⟨⟨⟩, -, h⟩ := bind_eq_ok.mp h
        cases h
        exact hsuffix
      split at h
      · obtain ⟨⟨⟩, -, h⟩ := bind_eq_ok.mp h
        split at h
        · exact absurd h (by simp)
        obtain ⟨⟨colon, ls₁⟩, hcolon, h⟩ := bind_eq_ok.mp h
        obtain ⟨⟨t, ls₂⟩, ht, h⟩ := bind_eq_ok.mp h
        have hsuffix := (suffix_of_type n ht).trans ((suffix_of_expect hcolon).trans hsuffix)
        simp only at h
        split at h
        · obtain ⟨⟨semicolon, ls₃⟩, htake, h⟩ := bind_eq_ok.mp h
          exact (suffix_of_fields n h).trans ((suffix_of_takeAny htake).trans hsuffix)
        · obtain ⟨⟨brace, ls₃⟩, hclose, h⟩ := bind_eq_ok.mp h
          cases h
          exact (suffix_of_expect hclose).trans hsuffix
      · exact absurd h (by simp)

end

/-! ## Reasons to fail -/

/-- The error is about a lexeme: it shows its text, and where it stands. -/
inductive Concerns (l : Lexeme) : ParseError → Prop
  | unexpectedToken {expected : String} : Concerns l (.unexpectedToken l.text expected l.span)
  | numberTooLarge : Concerns l (.numberTooLarge l.text l.span)
  | unknownType : Concerns l (.unknownType l.text l.span)
  /-- Of a literal, what stands between its quotes is shown. -/
  | unknownEncoding (hl : l.token = .quoted) : Concerns l (.unknownEncoding (unquote l.text) l.span)
  | repeatedField : Concerns l (.repeatedField l.text l.span)
  | dimensionInLeaf : Concerns l (.dimensionInLeaf l.text l.span)

/-- Why a reader fails that is to find tokens of a language in lexemes. -/
inductive Blames (ending : Ending) (L : List Terminal → Prop) (ls : List Lexeme) : ParseError → Prop
  /-- What stands behind them is no token. -/
  | fault {e : ParseError} (h : ending.fault = some e) : Blames ending L ls e
  | lexeme {l : Lexeme} {e : ParseError} (hl : l ∈ ls) (h : Concerns l e) : Blames ending L ls e
  /-- They are all, and could go on. -/
  | tooEarly {expected : String} (more : List Terminal) (hend : ending.fault = none)
      (hmore : more ≠ []) (h : L (ls.map Lexeme.terminal ++ more)) :
      Blames ending L ls (.unexpectedEnd expected ending.endOfText)

/-- The tokens of derivations that have a value. -/
def TypeTokens (ts : List Terminal) : Prop :=
  ∃ (d : TypeTree) (t : ArrayType), d.terminals = ts ∧ d.value? = some t

def LeafTokens (ts : List Terminal) : Prop :=
  ∃ (d : LeafTree) (t : LeafType), d.terminals = ts ∧ d.value? = some t

def ParamsTokens (ts : List Terminal) : Prop :=
  ∃ (p : ParamsTree) (s : StringType), p.terminals = ts ∧ p.value? = some s

/-- What may stand in the parentheses behind `string`. -/
def InsideTokens (ts : List Terminal) : Prop :=
  ParamsTokens (⟨.openParen, "("⟩ :: (ts ++ [⟨.closeParen, ")"⟩]))

def EncodingTokens (ts : List Terminal) : Prop :=
  ∃ (literal : String) (e : Encoding), ts = [⟨.quoted, literal⟩] ∧ encodingOf? literal = some e

/-- Behind the fields already read: the brace that closes them, or more fields. -/
def FieldTokens (done : List Field) (ts : List Terminal) : Prop :=
  done ≠ [] ∧ ts = [⟨.closeBrace, "\x7d"⟩] ∨
    ∃ (d : FieldTrees) (more : List Field), d.terminals = ts ∧ d.value? = some more ∧
      (Struct.names (done ++ more)).Nodup

theorem typeTokens_bool : TypeTokens [⟨.identifier, "bool"⟩] :=
  ⟨.mk [] (.scalar "bool" .bool rfl), ⟨[], .scalar .bool⟩, rfl, rfl⟩

section Blames

variable {L L' : List Terminal → Prop} {ts : List Terminal}

/-- What fails behind some lexemes fails with them, if what is missing there can be completed. -/
theorem Blames.behind (h : Blames ending L' rest e) (htook : Took ending ts ls rest)
    (hsuffix : rest <:+ ls) (hL : ∀ us, L' us → ∃ vs, L (ts ++ (us ++ vs))) :
    Blames ending L ls e := by
  cases h with
  | fault h => exact .fault h
  | lexeme hl h => exact .lexeme (hsuffix.subset hl) h
  | tooEarly more hend hmore h =>
    obtain ⟨vs, hvs⟩ := hL _ h
    refine .tooEarly (more ++ vs) hend (by simp [hmore]) ?_
    rwa [htook.terminals, List.append_assoc, ← List.append_assoc _ more vs]

theorem Blames.after (h : Blames ending L' rest e) (htook : Took ending ts ls rest)
    (hsuffix : rest <:+ ls) (hL : ∀ us, L' us → L (ts ++ us)) : Blames ending L ls e :=
  h.behind htook hsuffix fun us hus => ⟨[], by rw [List.append_nil]; exact hL us hus⟩

theorem Took.length_eq (h : Took ending ts ls rest) : ls.length = ts.length + rest.length := by
  have hlength := congrArg List.length h.terminals
  rwa [List.length_append, List.length_map, List.length_map] at hlength

theorem fault_of_arrive_error (h : arrive ending rest = .error e) : ending.fault = some e := by
  unfold arrive at h
  split at h
  · rename_i hfault
    rw [hfault, Except.error.inj h]
  · exact absurd h (by simp)

theorem blames_takeAny {expected : String} (harrive : arrive ending ls = .ok ())
    (hL : ls = [] → ∃ more, more ≠ [] ∧ L more) (h : takeAny ending expected ls = .error e) :
    Blames ending L ls e := by
  cases ls with
  | nil =>
    cases h
    obtain ⟨more, hmore, hL⟩ := hL rfl
    exact .tooEarly more (fault_of_arrive harrive) hmore hL
  | cons l ls => exact .fault (fault_of_arrive_error (error_of_bind_ok h fun _ => ⟨_, rfl⟩))

/-- Taking the token that was looked ahead to fails for what stands behind it. -/
theorem fault_of_takeAny {t : Token} {expected : String} (hnext : next t ls = true)
    (h : takeAny ending expected ls = .error e) : ending.fault = some e := by
  cases ls with
  | nil => exact absurd hnext (by simp [next])
  | cons l ls => exact fault_of_arrive_error (error_of_bind_ok h fun _ => ⟨_, rfl⟩)

theorem blames_expect {t : Token} (harrive : arrive ending ls = .ok ()) {x : Terminal} (hL : L [x])
    (h : expect ending t ls = .error e) : Blames ending L ls e := by
  cases ls with
  | nil =>
    cases h
    exact .tooEarly [x] (fault_of_arrive harrive) (by simp) hL
  | cons l ls =>
    rw [expect] at h
    split at h
    · exact .fault (fault_of_arrive_error (error_of_bind_ok h fun _ => ⟨_, rfl⟩))
    · cases h
      exact .lexeme List.mem_cons_self .unexpectedToken

theorem concerns_of_number {l : Lexeme} (h : number l = .error e) : Concerns l e := by
  simp only [number] at h
  split at h
  · exact absurd h (by simp)
  · cases h
    exact .numberTooLarge

theorem concerns_of_dimension {l : Lexeme} (h : dimension l = .error e) : Concerns l e := by
  unfold dimension at h
  split at h
  · exact concerns_of_number (error_of_bind_ok h fun _ => ⟨_, rfl⟩)
  · exact absurd h (by simp)
  · exact absurd h (by simp)

end Blames

/-! ## The languages, node by node -/

theorem TypeTokens.dimension {d : DimensionTree} {x : Dimension} {us : List Terminal}
    (hd : d.value? = some x) (sep : Separator) :
    TypeTokens us → TypeTokens (d.terminal :: sep.terminal :: us) := by
  rintro ⟨⟨dims, leaf⟩, t, rfl, ht⟩
  obtain ⟨ds, hds, ht⟩ := Option.bind_eq_some_iff.mp ht
  obtain ⟨l, hl, ht⟩ := Option.bind_eq_some_iff.mp ht
  refine ⟨.mk ((d, sep) :: dims) leaf, ⟨x :: ds, l⟩, rfl, ?_⟩
  rw [TypeTree.value?, List.mapM_cons, hd, hds, hl]
  rfl

/-- Dimensions go on with a leaf. -/
theorem LeafTokens.typeTokens {dims : List (DimensionTree × Separator)} {ds : List Dimension}
    {us : List Terminal} (hds : dims.mapM (·.1.value?) = some ds) :
    LeafTokens us → TypeTokens (dimensionTerminals dims ++ us) := by
  rintro ⟨d, l, rfl, hd⟩
  refine ⟨.mk dims d, ⟨ds, l⟩, rfl, ?_⟩
  rw [TypeTree.value?, hds, hd]
  rfl

theorem ParamsTokens.leafTokens {us : List Terminal} :
    ParamsTokens us → LeafTokens (⟨.string, "string"⟩ :: us) := by
  rintro ⟨p, s, rfl, hp⟩
  exact ⟨.string p, .string s, rfl, by rw [LeafTree.value?, hp]; rfl⟩

theorem FieldTokens.leafTokens {us : List Terminal} :
    FieldTokens [] us → LeafTokens (⟨.openBrace, "\x7b"⟩ :: us) := by
  rintro (⟨hnil, -⟩ | ⟨d, more, rfl, hd, hnodup⟩)
  · exact absurd rfl hnil
  · exact ⟨.struct d, .struct more, rfl, by rw [LeafTree.value?, hd]; exact if_pos hnodup⟩

section Field

variable {done : List Field} {x : Terminal} {t : ArrayType} {d : TypeTree} {us : List Terminal}

/-- A field may be the last. -/
theorem FieldTokens.last (hname : x.token.canNameField = true)
    (hnodup : (Struct.names (done ++ [⟨x.text, t⟩])).Nodup) (hd : d.value? = some t) :
    FieldTokens done ([x, ⟨.colon, ":"⟩] ++ (d.terminals ++ [⟨.closeBrace, "\x7d"⟩])) := by
  refine .inr ⟨.last ⟨x, hname⟩ d false, [⟨x.text, t⟩], rfl, ?_, hnodup⟩
  rw [FieldTrees.value?, hd]
  rfl

/-- Or others follow it, or just the brace. -/
theorem FieldTokens.semicolon (hname : x.token.canNameField = true)
    (hnodup : (Struct.names (done ++ [⟨x.text, t⟩])).Nodup) (hd : d.value? = some t) :
    FieldTokens (done ++ [⟨x.text, t⟩]) us → FieldTokens done
      ([x, ⟨.colon, ":"⟩] ++ d.terminals ++ [⟨.semicolon, ";"⟩] ++ us) := by
  rintro (⟨-, rfl⟩ | ⟨d', more, rfl, hd', hnodup'⟩)
  · refine .inr ⟨.last ⟨x, hname⟩ d true, [⟨x.text, t⟩], ?_, ?_, hnodup⟩
    · simp [FieldTrees.terminals]
    · rw [FieldTrees.value?, hd]
      rfl
  · refine .inr ⟨.cons ⟨x, hname⟩ d d', ⟨x.text, t⟩ :: more, ?_, ?_, ?_⟩
    · simp [FieldTrees.terminals]
    · rw [FieldTrees.value?, hd, hd']
      rfl
    · rwa [List.append_assoc, List.singleton_append] at hnodup'

/-- Whatever was read of them, fields can be brought to an end. -/
theorem exists_fieldTokens (done : List Field) : ∃ more, more ≠ [] ∧ FieldTokens done more := by
  by_cases hdone : done = []
  · subst hdone
    obtain ⟨d, t, -, hd⟩ := typeTokens_bool
    have hnodup : (Struct.names ([] ++ [⟨"a", t⟩])).Nodup := by simp [Struct.names]
    have hlast : FieldTokens [] _ := .last (x := ⟨.identifier, "a"⟩) rfl hnodup hd
    exact ⟨_, by simp, hlast⟩
  · exact ⟨[⟨.closeBrace, "\x7d"⟩], by simp, .inl ⟨hdone, rfl⟩⟩

end Field

/-! ## Every failure has a reason -/

theorem blames_dimensions (hls : Genuine ls) (harrive : arrive ending ls = .ok ())
    (h : dimensions ending ls = .error e) : Blames ending TypeTokens ls e := by
  fun_induction dimensions ending ls with
  | case1 => exact absurd h (by simp)
  | case2 l rest' hstart ih =>
    obtain ⟨hl, hrest'⟩ := List.forall_mem_cons.mp hls
    rcases bind_eq_error.mp h with hfault | ⟨⟨⟩, hsep, h⟩
    · exact .fault (fault_of_arrive_error hfault)
    rcases bind_eq_error.mp h with hdimension | ⟨x, hx, h⟩
    · exact .lexeme List.mem_cons_self (concerns_of_dimension hdimension)
    obtain ⟨d, hd, hvalue⟩ := dimension_sound hl hstart hx
    cases rest' with
    | nil =>
      cases h
      refine .tooEarly [⟨.comma, ","⟩, ⟨.identifier, "bool"⟩] (fault_of_arrive hsep) (by simp) ?_
      have hmore := typeTokens_bool.dimension hvalue .comma
      rwa [hd] at hmore
    | cons l' rest' =>
      simp only at h
      split at h
      · rename_i hl'
        rcases bind_eq_error.mp h with hfault | ⟨⟨⟩, harrive', h⟩
        · exact .fault (fault_of_arrive_error hfault)
        have hdims := error_of_bind_ok h fun _ => ⟨_, rfl⟩
        obtain ⟨hgenuine, hrest'⟩ := List.forall_mem_cons.mp hrest'
        obtain ⟨sep, hsep'⟩ := separator_sound hgenuine hl'
        refine (ih hrest' harrive' hdims).after ((took_cons hsep).trans (took_cons harrive'))
          ((List.suffix_cons l' rest').trans (List.suffix_cons l _)) fun us hus => ?_
        have hmore := hus.dimension hvalue sep
        rwa [hd, hsep'] at hmore
      · cases h
        exact .lexeme (List.mem_cons_of_mem l List.mem_cons_self) .unexpectedToken
  | case3 => exact absurd h (by simp)

theorem blames_encoding (harrive : arrive ending ls = .ok ()) (h : encoding ending ls = .error e) :
    Blames ending EncodingTokens ls e := by
  rcases bind_eq_error.mp h with hexpect | ⟨⟨l, rest'⟩, hexpect, h⟩
  · exact blames_expect harrive (x := ⟨.quoted, "\"A\""⟩) ⟨_, .ascii, rfl, rfl⟩ hexpect
  · simp only at h
    split at h
    · exact absurd h (by simp [pure, Except.pure])
    · cases h
      rw [eq_cons_of_expect hexpect]
      exact .lexeme List.mem_cons_self (.unknownEncoding (took_of_expect hexpect).1)

theorem blames_inside (hls : Genuine ls) (harrive : arrive ending ls = .ok ())
    (h : stringParams.inside ending ls = .error e) : Blames ending InsideTokens ls e := by
  rw [stringParams.inside] at h
  split at h
  · rename_i hinteger
    rcases bind_eq_error.mp h with htake | ⟨⟨l, ls₁⟩, htake, h⟩
    · exact .fault (fault_of_takeAny hinteger htake)
    rcases bind_eq_error.mp h with hwidth | ⟨width, hwidth, h⟩
    · rw [eq_cons_of_takeAny htake]
      exact .lexeme List.mem_cons_self (concerns_of_number hwidth)
    have hl : l.terminal = ⟨.integer, l.text⟩ :=
      congrArg (Terminal.mk · l.text) (token_of_takeAny hinteger htake)
    have htook := took_of_takeAny htake
    rw [hl] at htook
    simp only at h
    split at h
    · rename_i hcomma
      rcases bind_eq_error.mp h with htake' | ⟨⟨l', ls₂⟩, htake', h⟩
      · exact .fault (fault_of_takeAny hcomma htake')
      have htook' := (took_of_takeAny htake').of_spelling (htook.genuine hls)
        (token_of_takeAny hcomma htake') rfl
      have hencoding := error_of_bind_ok h fun _ => ⟨_, rfl⟩
      refine (blames_encoding htook'.arrives hencoding).after (htook.trans htook')
        ((suffix_of_takeAny htake').trans (suffix_of_takeAny htake)) ?_
      rintro us ⟨literal, e', rfl, he'⟩
      refine ⟨.both l.text literal, ⟨e', some width⟩, rfl, ?_⟩
      rw [ParamsTree.value?, number_eq_ok.mp hwidth, he']
      rfl
    · exact absurd h (by simp [pure, Except.pure])
  · have hencoding := error_of_bind_ok h fun _ => ⟨_, rfl⟩
    have htook : Took ending [] ls ls := ⟨rfl, harrive⟩
    refine (blames_encoding harrive hencoding).after htook (List.suffix_refl ls) ?_
    rintro us ⟨literal, e', rfl, he'⟩
    refine ⟨.encoding literal, { encoding := e' }, rfl, ?_⟩
    rw [ParamsTree.value?, he']
    rfl

theorem blames_stringParams (hls : Genuine ls) (h : stringParams ending ls = .error e) :
    Blames ending ParamsTokens ls e := by
  cases ls with
  | nil => exact absurd h (by simp [stringParams])
  | cons l ls =>
    obtain ⟨hl, hls⟩ := List.forall_mem_cons.mp hls
    rw [stringParams] at h
    split at h
    · rename_i hopen
      have hl := Terminal.eq_of_spelling hl hopen rfl
      rcases bind_eq_error.mp h with hfault | ⟨⟨⟩, harrive, h⟩
      · exact .fault (fault_of_arrive_error hfault)
      have htook := took_cons (l := l) harrive
      rw [hl] at htook
      rcases bind_eq_error.mp h with hinside | ⟨⟨s, ls₁⟩, hinside, h⟩
      · exact (blames_inside hls harrive hinside).behind htook (List.suffix_cons l ls)
          fun us hus => ⟨[⟨.closeParen, ")"⟩], hus⟩
      obtain ⟨p, ts, htook', hvalue, hp⟩ := inside_sound hls hinside
      have hclose := error_of_bind_ok h fun _ => ⟨_, rfl⟩
      have hblames := blames_expect (L := fun us => us = [⟨.closeParen, ")"⟩]) htook'.arrives rfl
        hclose
      refine hblames.after (htook.trans htook')
        ((suffix_of_inside hinside).trans (List.suffix_cons l ls)) ?_
      rintro us rfl
      exact ⟨p, s, hp, hvalue⟩
    · exact absurd h (by simp)

mutual

theorem blames_type {ls : List Lexeme} {e : ParseError} : (n : Nat) → 3 * ls.length + 3 ≤ n →
    Genuine ls → arrive ending ls = .ok () → type ending n ls = .error e →
      Blames ending TypeTokens ls e
  | 0, hn, _, _, _ => absurd hn (by omega)
  | n + 1, hn, hls, harrive, h => by
    rw [type] at h
    rcases bind_eq_error.mp h with hdims | ⟨⟨ds, ls₁⟩, hds, h⟩
    · exact blames_dimensions hls harrive hdims
    obtain ⟨dims, htook, hvalues⟩ := dimensions_sound hls harrive hds
    have hlength := htook.length_eq
    have hleaf := error_of_bind_ok h fun _ => ⟨_, rfl⟩
    exact (blames_leaf n (by omega) (htook.genuine hls) htook.arrives hleaf).after htook
      (suffix_of_dimensions hds) fun us hus => hus.typeTokens hvalues

theorem blames_leaf {ls : List Lexeme} {e : ParseError} : (n : Nat) → 3 * ls.length + 2 ≤ n →
    Genuine ls → arrive ending ls = .ok () → leaf ending n ls = .error e →
      Blames ending LeafTokens ls e
  | 0, hn, _, _, _ => absurd hn (by omega)
  | n + 1, hn, hls, harrive, h => by
    rw [leaf] at h
    rcases bind_eq_error.mp h with htake | ⟨⟨l, ls₁⟩, htake, h⟩
    · exact blames_takeAny harrive
        (fun _ => ⟨[⟨.identifier, "bool"⟩], by simp, .scalar "bool" .bool rfl, _, rfl, rfl⟩) htake
    have htook := took_of_takeAny htake
    have hsuffix := suffix_of_takeAny htake
    have hlength := htook.length_eq
    have hl : l ∈ ls := by rw [eq_cons_of_takeAny htake]; exact List.mem_cons_self
    simp only at h
    split at h
    · rename_i htoken
      have htook := htook.of_spelling hls htoken rfl
      have hparams := error_of_bind_ok h fun _ => ⟨_, rfl⟩
      exact (blames_stringParams (htook.genuine hls) hparams).after htook hsuffix
        fun us hus => hus.leafTokens
    · rename_i htoken
      have htook := htook.of_spelling hls htoken rfl
      have hfields := error_of_bind_ok h fun _ => ⟨_, rfl⟩
      have hsteps : 3 * ls₁.length + 4 ≤ n := by rw [List.length_singleton] at hlength; omega
      exact (blames_fields n hsteps (by simp [Struct.names]) (htook.genuine hls) htook.arrives
        hfields).after htook hsuffix fun us hus => hus.leafTokens
    · split at h
      · exact absurd h (by simp [pure, Except.pure])
      · cases h
        exact .lexeme hl .unknownType
    · cases h
      exact .lexeme hl .unexpectedToken

theorem blames_fields {ls : List Lexeme} {e : ParseError} {opened : Span} {done : List Field} :
    (n : Nat) → 3 * ls.length + 4 ≤ n → (Struct.names done).Nodup → Genuine ls →
      arrive ending ls = .ok () → fields ending n opened done ls = .error e →
        Blames ending (FieldTokens done) ls e
  | 0, hn, _, _, _, _ => absurd hn (by omega)
  | n + 1, hn, hnodup, hls, harrive, h => by
    cases ls with
    | nil =>
      cases h
      obtain ⟨more, hmore, htokens⟩ := exists_fieldTokens done
      exact .tooEarly more (fault_of_arrive harrive) hmore htokens
    | cons l ls =>
      obtain ⟨hl, hls⟩ := List.forall_mem_cons.mp hls
      rw [List.length_cons] at hn
      rw [fields] at h
      split at h
      · exact .fault (fault_of_arrive_error (error_of_bind_ok h fun _ => ⟨_, rfl⟩))
      split at h
      case isFalse hname =>
        cases h
        exact .lexeme List.mem_cons_self .unexpectedToken
      case isTrue hname =>
        rcases bind_eq_error.mp h with hfault | ⟨⟨⟩, harrive', h⟩
        · exact .fault (fault_of_arrive_error hfault)
        split at h
        · cases h
          exact .lexeme List.mem_cons_self .repeatedField
        rename_i hfresh
        have hnames (t : ArrayType) : (Struct.names (done ++ [⟨l.terminal.text, t⟩])).Nodup :=
          nodup_names_concat.mpr ⟨hnodup, hfresh⟩
        have hsuffix := List.suffix_cons l ls
        rcases bind_eq_error.mp h with hcolon | ⟨⟨colon, ls₁⟩, hcolon, h⟩
        · have hblames := blames_expect (L := fun us => us = [⟨.colon, ":"⟩]) harrive' rfl hcolon
          refine hblames.behind (took_cons harrive') hsuffix ?_
          rintro us rfl
          obtain ⟨d, t, -, hd⟩ := typeTokens_bool
          exact ⟨d.terminals ++ [⟨.closeBrace, "\x7d"⟩], .last hname (hnames t) hd⟩
        have htook := (took_cons (l := l) harrive').trans (took_of_expect_spelling hls rfl hcolon)
        have hsuffix := (suffix_of_expect hcolon).trans hsuffix
        have hlength := htook.length_eq
        have hls₁ := htook.genuine (List.forall_mem_cons.mpr ⟨hl, hls⟩)
        simp only [List.length_cons, List.length_append, List.length_nil] at hlength
        rcases bind_eq_error.mp h with ht | ⟨⟨t, ls₂⟩, ht, h⟩
        · refine (blames_type n (by omega) hls₁ htook.arrives ht).behind htook hsuffix ?_
          rintro us ⟨d, t, rfl, hd⟩
          exact ⟨[⟨.closeBrace, "\x7d"⟩], .last hname (hnames t) hd⟩
        obtain ⟨d, htook', hd⟩ := type_sound n hls₁ htook.arrives ht
        have hls₂ := htook'.genuine hls₁
        have hlength' := htook'.length_eq
        have htook := htook.trans htook'
        have hsuffix := (suffix_of_type n ht).trans hsuffix
        simp only at h
        split at h
        · rename_i hsemicolon
          rcases bind_eq_error.mp h with htake | ⟨⟨semicolon, ls₃⟩, htake, h⟩
          · exact .fault (fault_of_takeAny hsemicolon htake)
          have htook₃ := (took_of_takeAny htake).of_spelling hls₂
            (token_of_takeAny hsemicolon htake) rfl
          have hlength₃ := htook₃.length_eq
          exact (blames_fields n (by omega) (hnames t) (htook₃.genuine hls₂) htook₃.arrives
            h).after (htook.trans htook₃) ((suffix_of_takeAny htake).trans hsuffix)
            fun us hus => hus.semicolon hname (hnames t) hd
        · have hclose := error_of_bind_ok h fun _ => ⟨_, rfl⟩
          have hblames := blames_expect (L := fun us => us = [⟨.closeBrace, "\x7d"⟩])
            htook'.arrives rfl hclose
          refine hblames.after htook hsuffix ?_
          rintro us rfl
          rw [List.append_assoc]
          exact .last hname (hnames t) hd

end

end TypeReader

end Ragged
