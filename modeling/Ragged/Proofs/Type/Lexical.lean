import Ragged.Type.Token

/-!
# What a text is cut into

Each token has a rule that says which texts are that token. `Lexes` cuts a text by these rules and
by nothing else: blanks are dropped, and of the texts at a place that are some token the longest is
taken. It has no clause for what is no token, so it speaks of texts that can be read to their end.

> `scan` finds just the tokens that the rules cut a text into, or an error if they do not.

The scanner looks at one character and knows from it which rules are left (`matches_cons_iff`), and
then takes as much as that rule allows (`length_le_take`).
-/

set_option autoImplicit false

namespace Ragged

/-- A token with its text, wherever it stands. -/
structure Terminal where
  token : Token
  text : String
deriving DecidableEq, Repr

def Lexeme.terminal (l : Lexeme) : Terminal := ⟨l.token, l.text⟩

open Scan

namespace Token

/-- The text of the tokens that have just one. -/
def spelling? : Token → Option String
  | .var => some "var"
  | .strided => some "strided"
  | .string => some "string"
  | .comma => some ","
  | .star => some "*"
  | .semicolon => some ";"
  | .colon => some ":"
  | .openBrace => some "\x7b"
  | .closeBrace => some "\x7d"
  | .openParen => some "("
  | .closeParen => some ")"
  | .integer | .quoted | .identifier => none

/-- A letter or an underscore, and letters, digits and underscores behind it. -/
def IsWord : List Char → Prop
  | [] => False
  | c :: more => startsWord c = true ∧ ∀ d ∈ more, inWord d = true

instance : DecidablePred IsWord
  | [] => isFalse id
  | _ :: more => @instDecidableAnd _ _ inferInstance (List.decidableBAll _ more)

/-- The rule of a token: which texts it has. An identifier is a word that is no keyword. -/
def Matches : Token → List Char → Prop
  | .integer, w => w ≠ [] ∧ ∀ c ∈ w, c.isDigit = true
  | .quoted, w => ∃ quote body, (quote = '"' ∨ quote = '\'') ∧ w = quote :: body ++ [quote] ∧
      ∀ c ∈ body, inQuotes quote c = true
  | .identifier, w => IsWord w ∧ ∀ keyword ∈ ["var", "strided", "string"], w ≠ keyword.toList
  | t, w => t.spelling?.map String.toList = some w

end Token

/-- The text of a token is one that it can have. -/
def Terminal.Genuine (x : Terminal) : Prop := x.token.Matches x.text.toList

/-- The text is blanks and tokens, each as long as it can be. -/
inductive Lexes : List Char → List Terminal → Prop
  | nil : Lexes [] []
  | blank {c : Char} {cs : List Char} {ts : List Terminal} (hc : isBlank c = true)
    (hcs : Lexes cs ts) : Lexes (c :: cs) ts
  | token {t : Token} {w cs : List Char} {ts : List Terminal} (hw : t.Matches w)
    (longest : ∀ t' w', Token.Matches t' w' → w' <+: w ++ cs → w'.length ≤ w.length)
    (hcs : Lexes cs ts) : Lexes (w ++ cs) (⟨t, String.ofList w⟩ :: ts)

/-! ## The first character tells the rule -/

theorem not_startsWord_of_isDigit {c : Char} (h : c.isDigit = true) : startsWord c = false := by
  have hle : 48 ≤ c.val.toNat ∧ c.val.toNat ≤ 57 := by
    simpa [Char.isDigit, UInt32.le_iff_toNat_le] using h
  have hunderscore : c ≠ '_' := by
    rintro rfl
    exact absurd hle (by decide)
  have hupper : 'A'.val.toNat = 65 := rfl
  have hlower : 'a'.val.toNat = 97 := rfl
  have halpha : c.isAlpha = false := by
    show (decide (c.val ≥ 'A'.val ∧ c.val ≤ 'Z'.val) ||
      decide (c.val ≥ 'a'.val) && decide (c.val ≤ 'z'.val)) = false
    simp only [Bool.or_eq_false_iff, Bool.and_eq_false_iff, decide_eq_false_iff_not, ge_iff_le,
      UInt32.le_iff_toNat_le]
    omega
  rw [startsWord, halpha, Bool.false_or]
  exact beq_eq_false_iff_ne.mpr hunderscore

namespace Token

/-- A word is the token that is made of it. -/
theorem matches_ofWord {w : List Char} (hw : IsWord w) : (ofWord w).Matches w := by
  unfold ofWord
  split
  · rfl
  · rfl
  · rfl
  · rename_i hvar hstrided hstring
    exact ⟨hw, by simpa using ⟨hvar, hstrided, hstring⟩⟩

theorem not_matches_nil {t : Token} : ¬t.Matches [] := by
  cases t <;> simp [Matches, IsWord, spelling?]

theorem matches_of_ofPunctuation? {t : Token} {c : Char} (h : ofPunctuation? c = some t) :
    t.Matches [c] := by
  unfold ofPunctuation? at h
  split at h
  all_goals cases h
  all_goals rfl

/-- How the text of a token starts and goes on. -/
theorem starts_of_matches {t : Token} {c : Char} {more : List Char} (h : t.Matches (c :: more)) :
    (ofPunctuation? c = some t ∧ more = []) ∨
      (c.isDigit = true ∧ t = .integer ∧ ∀ d ∈ more, d.isDigit = true) ∨
      (startsWord c = true ∧ t = ofWord (c :: more) ∧ ∀ d ∈ more, inWord d = true) ∨
      ((c = '"' ∨ c = '\'') ∧ t = .quoted ∧
        ∃ body, more = body ++ [c] ∧ ∀ d ∈ body, inQuotes c d = true) := by
  cases t with
  | integer =>
    have hall := List.forall_mem_cons.mp h.2
    exact .inr (.inl ⟨hall.1, rfl, hall.2⟩)
  | quoted =>
    obtain ⟨quote, body, hquote, hw, hbody⟩ := h
    obtain ⟨rfl, rfl⟩ := List.cons.inj hw
    exact .inr (.inr (.inr ⟨hquote, rfl, body, rfl, hbody⟩))
  | identifier => exact .inr (.inr (.inl ⟨h.1.1, (ofWord_of_ne h.2).symm, h.1.2⟩))
  | var | strided | string =>
    obtain ⟨rfl, rfl⟩ := List.cons.inj (Option.some.inj h)
    exact .inr (.inr (.inl ⟨rfl, rfl, List.all_eq_true.mp rfl⟩))
  | _ =>
    obtain ⟨rfl, rfl⟩ := List.cons.inj (Option.some.inj h)
    exact .inl ⟨rfl, rfl⟩

/-- **Which texts are which token**, by the first character. -/
theorem matches_cons_iff {t : Token} {c : Char} {more : List Char} :
    t.Matches (c :: more) ↔
      (ofPunctuation? c = some t ∧ more = []) ∨
      (c.isDigit = true ∧ t = .integer ∧ ∀ d ∈ more, d.isDigit = true) ∨
      (startsWord c = true ∧ t = ofWord (c :: more) ∧ ∀ d ∈ more, inWord d = true) ∨
      ((c = '"' ∨ c = '\'') ∧ t = .quoted ∧
        ∃ body, more = body ++ [c] ∧ ∀ d ∈ body, inQuotes c d = true) := by
  refine ⟨starts_of_matches, ?_⟩
  rintro (⟨h, rfl⟩ | ⟨hc, rfl, hmore⟩ | ⟨hc, rfl, hmore⟩ | ⟨hc, rfl, body, rfl, hbody⟩)
  · exact matches_of_ofPunctuation? h
  · exact ⟨List.cons_ne_nil _ _, List.forall_mem_cons.mpr ⟨hc, hmore⟩⟩
  · exact matches_ofWord ⟨hc, hmore⟩
  · exact ⟨c, body, hc, rfl, hbody⟩

end Token

/-! ## What is taken at a place -/

namespace Scan

variable {c : Char} {rest : List Char}

theorem takeWhile_append_stop {p : Char → Bool} {more cs : List Char}
    (hmore : ∀ d ∈ more, p d = true) (hstop : ∀ d ∈ cs.head?, p d = false) :
    (more ++ cs).takeWhile p = more := by
  rw [List.takeWhile_append_of_pos hmore]
  cases cs with
  | nil => exact List.append_nil more
  | cons d cs => rw [List.takeWhile_cons_of_neg (by simp [hstop d rfl]), List.append_nil]

/-- A mark starts nothing but itself. -/
theorem ofPunctuation?_eq_none
    (h : c.isDigit = true ∨ startsWord c = true ∨ c = '"' ∨ c = '\'') :
    Token.ofPunctuation? c = none := by
  unfold Token.ofPunctuation?
  split
  all_goals first | rfl | exact absurd h (by decide)

theorem take_of_punctuation {t : Token} (h : Token.ofPunctuation? c = some t) :
    take c rest = (some t, []) := by
  simp only [take, h]

theorem take_of_isDigit (h : c.isDigit = true) :
    take c rest = (some .integer, rest.takeWhile Char.isDigit) := by
  simp only [take, ofPunctuation?_eq_none (.inl h), h, if_true]

theorem take_of_startsWord (h : startsWord c = true) :
    take c rest = (some (Token.ofWord (c :: rest.takeWhile inWord)), rest.takeWhile inWord) := by
  have hdigit : ¬c.isDigit = true := fun hdigit =>
    absurd (h.symm.trans (not_startsWord_of_isDigit hdigit)) (by simp)
  simp only [take, ofPunctuation?_eq_none (.inr (.inl h)), if_neg hdigit, h, if_true]

theorem take_of_quote (h : c = '"' ∨ c = '\'') {body cs : List Char}
    (hbody : ∀ d ∈ body, inQuotes c d = true) :
    take c (body ++ c :: cs) = (some .quoted, body ++ [c]) := by
  have hdigit : ¬c.isDigit = true := by rcases h with rfl | rfl <;> decide
  have hword : ¬startsWord c = true := by rcases h with rfl | rfl <;> decide
  have hquote : (c == '"' || c == '\'') = true := by rcases h with rfl | rfl <;> decide
  have htake : (body ++ c :: cs).takeWhile (inQuotes c) = body :=
    takeWhile_append_stop hbody (by simp [inQuotes])
  simp only [take, ofPunctuation?_eq_none (.inr (.inr h)), if_neg hdigit, if_neg hword, hquote,
    if_true, htake, List.drop_left]

theorem length_le_takeWhile {p : Char → Bool} {more : List Char} (hstarts : more <+: rest)
    (hmore : ∀ d ∈ more, p d = true) : more.length ≤ (rest.takeWhile p).length := by
  obtain ⟨cs, rfl⟩ := hstarts
  rw [List.takeWhile_append_of_pos hmore, List.length_append]
  exact Nat.le_add_right _ _

/-- Something is taken only at a mark, a digit, the start of a word, or a quote that is closed
further on. -/
theorem starts_of_take (h : (take c rest).1.isSome = true) :
    (Token.ofPunctuation? c).isSome = true ∨ c.isDigit = true ∨ startsWord c = true ∨
      ((c = '"' ∨ c = '\'') ∧
        ∃ body cs, rest = body ++ c :: cs ∧ ∀ d ∈ body, inQuotes c d = true) := by
  cases hmark : Token.ofPunctuation? c with
  | some t => exact .inl rfl
  | none =>
    by_cases hdigit : c.isDigit = true
    · exact .inr (.inl hdigit)
    by_cases hword : startsWord c = true
    · exact .inr (.inr (.inl hword))
    simp only [take, hmark, if_neg hdigit, if_neg hword] at h
    split at h
    · rename_i hquote
      have hrest : rest.takeWhile (inQuotes c) ++ rest.drop (rest.takeWhile (inQuotes c)).length =
          rest := List.prefix_iff_eq_append.mp (List.takeWhile_prefix _)
      split at h
      · rename_i d cs hdrop
        split at h
        · rename_i hd
          rw [hdrop, hd] at hrest
          exact .inr (.inr (.inr ⟨by simpa using hquote, _, cs, hrest.symm,
            List.all_eq_true.mp List.all_takeWhile⟩))
        · exact absurd h (by simp)
      · exact absurd h (by simp)
    · exact absurd h (by simp)

/-- What is taken is the token it is said to be. -/
theorem matches_take {t : Token} (h : (take c rest).1 = some t) :
    t.Matches (c :: (take c rest).2) ∧ (take c rest).2 <+: rest := by
  rcases starts_of_take (by rw [h]; rfl) with
    hmark | hdigit | hword | ⟨hquote, body, cs, rfl, hbody⟩
  · obtain ⟨t', hmark⟩ := Option.isSome_iff_exists.mp hmark
    rw [take_of_punctuation hmark] at h ⊢
    obtain rfl := Option.some.inj h
    exact ⟨Token.matches_cons_iff.mpr (.inl ⟨hmark, rfl⟩), List.nil_prefix⟩
  · rw [take_of_isDigit hdigit] at h ⊢
    obtain rfl := Option.some.inj h
    have hmore := List.all_eq_true.mp (List.all_takeWhile (l := rest) (p := Char.isDigit))
    exact ⟨Token.matches_cons_iff.mpr (.inr (.inl ⟨hdigit, rfl, hmore⟩)), List.takeWhile_prefix _⟩
  · rw [take_of_startsWord hword] at h ⊢
    obtain rfl := Option.some.inj h
    have hmore := List.all_eq_true.mp (List.all_takeWhile (l := rest) (p := inWord))
    exact ⟨Token.matches_cons_iff.mpr (.inr (.inr (.inl ⟨hword, rfl, hmore⟩))),
      List.takeWhile_prefix _⟩
  · rw [take_of_quote hquote hbody] at h ⊢
    obtain rfl := Option.some.inj h
    refine ⟨Token.matches_cons_iff.mpr (.inr (.inr (.inr ⟨hquote, rfl, body, rfl, hbody⟩))), cs, ?_⟩
    rw [List.append_assoc, List.singleton_append]

/-- No text at the place that is some token is longer than what is taken. -/
theorem length_le_take {t : Token} {more : List Char} (h : t.Matches (c :: more))
    (hstarts : more <+: rest) :
    (take c rest).1.isSome = true ∧ more.length ≤ (take c rest).2.length := by
  rcases Token.starts_of_matches h with ⟨hmark, rfl⟩ | ⟨hdigit, -, hmore⟩ | ⟨hword, -, hmore⟩ |
    ⟨hquote, -, body, rfl, hbody⟩
  · exact ⟨by rw [take_of_punctuation hmark]; rfl, Nat.zero_le _⟩
  · rw [take_of_isDigit hdigit]
    exact ⟨rfl, length_le_takeWhile hstarts hmore⟩
  · rw [take_of_startsWord hword]
    exact ⟨rfl, length_le_takeWhile hstarts hmore⟩
  · obtain ⟨cs, rfl⟩ := hstarts
    rw [List.append_assoc, List.singleton_append, take_of_quote hquote hbody]
    exact ⟨rfl, Nat.le_refl _⟩

/-- The same of a whole text, which is not empty. -/
theorem length_le_of_matches {t : Token} {w : List Char} (h : t.Matches w)
    (hstarts : w <+: c :: rest) :
    (take c rest).1.isSome = true ∧ w.length ≤ (take c rest).2.length + 1 := by
  cases w with
  | nil => exact absurd h Token.not_matches_nil
  | cons d more =>
    obtain ⟨rfl, hmore⟩ := List.cons_prefix_cons.mp hstarts
    exact (length_le_take h hmore).imp_right Nat.succ_le_succ

/-- **What is taken is the longest text there that is some token.** -/
theorem take_of_matches {t : Token} {more cs : List Char} (h : t.Matches (c :: more))
    (longest : ∀ t' more', Token.Matches t' (c :: more') → more' <+: more ++ cs →
      more'.length ≤ more.length) :
    take c (more ++ cs) = (some t, more) := by
  obtain ⟨hsome, hle⟩ := length_le_take h (List.prefix_append more cs)
  obtain ⟨t', ht'⟩ := Option.isSome_iff_exists.mp hsome
  obtain ⟨hmatches, hstarts⟩ := matches_take ht'
  have hmore : (take c (more ++ cs)).2 = more :=
    (List.prefix_of_prefix_length_le hstarts (List.prefix_append more cs)
      (longest t' _ hmatches hstarts)).eq_of_length_le hle
  refine Prod.ext ?_ hmore
  rcases Token.starts_of_matches h with ⟨hmark, -⟩ | ⟨hdigit, rfl, -⟩ | ⟨hword, rfl, -⟩ |
    ⟨hquote, rfl, body, rfl, hbody⟩
  · rw [take_of_punctuation hmark]
  · rw [take_of_isDigit hdigit]
  · rw [take_of_startsWord hword] at hmore ⊢
    exact congrArg (fun more => some (Token.ofWord (c :: more))) hmore
  · rw [List.append_assoc, List.singleton_append, take_of_quote hquote hbody]

end Scan

/-! ## Scanning a whole text -/

namespace Scan

variable {map : LineMap}

/-- What was taken already is passed over. -/
theorem run_append (taken cs : List Char) :
    ∀ offset, run map offset taken.length (taken ++ cs) =
      run map (offset + byteLength taken) 0 cs := by
  induction taken with
  | nil => exact fun _ => rfl
  | cons c taken ih =>
    intro offset
    rw [List.length_cons, List.cons_append, run, ih, byteLength, Nat.add_assoc]

/-- No token has a text that starts with a blank. -/
theorem not_isBlank_of_matches {t : Token} {c : Char} {more : List Char}
    (h : t.Matches (c :: more)) : isBlank c = false := by
  have hfirst : (Token.ofPunctuation? c).isSome = true ∨ c.isDigit = true ∨ startsWord c = true ∨
      c = '"' ∨ c = '\'' := by
    rcases Token.starts_of_matches h with ⟨hmark, -⟩ | ⟨hdigit, -⟩ | ⟨hword, -⟩ | ⟨hquote, -⟩
    · exact .inl (by rw [hmark]; rfl)
    · exact .inr (.inl hdigit)
    · exact .inr (.inr (.inl hword))
    · exact .inr (.inr (.inr hquote))
  rw [Bool.eq_false_iff]
  intro hblank
  simp only [isBlank, Bool.or_eq_true, beq_iff_eq] at hblank
  rcases hblank with (((rfl | rfl) | rfl) | rfl) | rfl
  all_goals exact absurd hfirst (by decide)

/-- What the scanner takes is what the rules cut off. -/
theorem lexes_of_take {t : Token} {c : Char} {more cs : List Char} {ts : List Terminal}
    (htake : take c (more ++ cs) = (some t, more)) (hcs : Lexes cs ts) :
    Lexes (c :: more ++ cs) (⟨t, String.ofList (c :: more)⟩ :: ts) := by
  have hmatches := (matches_take (congrArg Prod.fst htake)).1
  rw [htake] at hmatches
  refine .token hmatches (fun t' w hw hstarts => ?_) hcs
  rw [List.cons_append] at hstarts
  have hle := (length_le_of_matches hw hstarts).2
  rwa [htake] at hle

theorem lexes_of_run {cs : List Char} :
    ∀ {offset skip : Nat} {ls : List Lexeme}, run map offset skip cs = ls.map .ok →
      Lexes (cs.drop skip) (ls.map Lexeme.terminal) := by
  induction cs with
  | nil =>
    intro offset skip ls h
    rw [run] at h
    obtain rfl := List.map_eq_nil_iff.mp h.symm
    rw [List.drop_nil]
    exact .nil
  | cons c rest ih =>
    intro offset skip ls h
    cases skip with
    | succ skip => exact ih h
    | zero =>
      rw [run] at h
      split at h
      · rename_i hblank
        exact .blank hblank (ih h)
      · -- the item is a lexeme, so a token was taken, and scanning goes on behind it
        obtain ⟨l, ls, rfl, hitem, hrest⟩ := List.map_eq_cons_iff.mp h.symm
        cases ht : (take c rest).1 with
        | none => simp [ht] at hitem
        | some t =>
          simp only [ht, Except.ok.injEq] at hitem
          obtain ⟨-, cs, hcs⟩ := matches_take ht
          have htake : take c rest = (some t, (take c rest).2) := Prod.ext ht rfl
          have hlexes := ih hrest.symm
          subst hitem
          generalize (take c rest).2 = more at *
          subst hcs
          rw [List.drop_left] at hlexes
          exact lexes_of_take htake hlexes

theorem exists_run_of_lexes {cs : List Char} {ts : List Terminal} (h : Lexes cs ts) :
    ∀ offset, ∃ ls : List Lexeme, run map offset 0 cs = ls.map .ok ∧
      ls.map Lexeme.terminal = ts := by
  induction h with
  | nil => exact fun _ => ⟨[], rfl, rfl⟩
  | @blank c cs ts hc hcs ih =>
    intro offset
    obtain ⟨ls, hrun, hls⟩ := ih (offset + c.utf8Size)
    exact ⟨ls, by rw [run, if_pos hc, hrun], hls⟩
  | @token t w cs ts hw longest hcs ih =>
    intro offset
    cases w with
    | nil => exact absurd hw Token.not_matches_nil
    | cons c more =>
      have htake : take c (more ++ cs) = (some t, more) :=
        take_of_matches hw fun t' more' hmore' hstarts =>
          Nat.le_of_succ_le_succ (longest t' _ hmore' (List.cons_prefix_cons.mpr ⟨rfl, hstarts⟩))
      obtain ⟨ls, hrun, hls⟩ := ih (offset + c.utf8Size + byteLength more)
      refine ⟨⟨t, String.ofList (c :: more),
        map.span offset (offset + c.utf8Size + byteLength more)⟩ :: ls, ?_, ?_⟩
      · rw [List.cons_append, run, if_neg (by rw [not_isBlank_of_matches hw]; simp)]
        simp only [htake, run_append, hrun, List.map_cons]
      · rw [List.map_cons, hls]
        rfl

/-- Every token scanned has a text that it can have. -/
theorem genuine_of_mem_run {cs : List Char} :
    ∀ {offset skip : Nat} {l : Lexeme}, .ok l ∈ run map offset skip cs → l.terminal.Genuine := by
  induction cs with
  | nil =>
    intro offset skip l h
    rw [run] at h
    exact absurd h List.not_mem_nil
  | cons c rest ih =>
    intro offset skip l h
    cases skip with
    | succ skip => exact ih h
    | zero =>
      rw [run] at h
      split at h
      · exact ih h
      · rcases List.mem_cons.mp h with hitem | hrest
        · cases ht : (take c rest).1 with
          | none => simp [ht] at hitem
          | some t =>
            simp only [ht, Except.ok.injEq] at hitem
            subst hitem
            rw [Terminal.Genuine, Lexeme.terminal, String.toList_ofList]
            exact (matches_take ht).1
        · exact ih hrest

end Scan

/-- **Scanning finds the tokens that the rules cut a text into.** -/
theorem exists_scan_iff {source : String} {ts : List Terminal} :
    (∃ ls : List Lexeme, scan source = ls.map .ok ∧ ls.map Lexeme.terminal = ts) ↔
      Lexes source.toList ts := by
  constructor
  · rintro ⟨ls, hscan, rfl⟩
    exact Scan.lexes_of_run hscan
  · intro h
    exact Scan.exists_run_of_lexes h 0

/-- A text is cut in one way. -/
theorem Lexes.unique {cs : List Char} {ts ts' : List Terminal} (h : Lexes cs ts)
    (h' : Lexes cs ts') : ts = ts' := by
  obtain ⟨ls, hrun, rfl⟩ := @Scan.exists_run_of_lexes ⟨[]⟩ cs ts h 0
  obtain ⟨ls', hrun', rfl⟩ := @Scan.exists_run_of_lexes ⟨[]⟩ cs ts' h' 0
  rw [(List.map_inj_right fun _ _ => Except.ok.inj).mp (hrun.symm.trans hrun')]

theorem Lexes.genuine {cs : List Char} {ts : List Terminal} (h : Lexes cs ts) :
    ∀ x ∈ ts, x.Genuine := by
  obtain ⟨ls, hrun, rfl⟩ := @Scan.exists_run_of_lexes ⟨[]⟩ cs ts h 0
  intro x hx
  obtain ⟨l, hl, rfl⟩ := List.mem_map.mp hx
  have hmem : .ok l ∈ Scan.run ⟨[]⟩ 0 0 cs := by
    rw [hrun]
    exact List.mem_map_of_mem hl
  exact Scan.genuine_of_mem_run hmem

end Ragged
