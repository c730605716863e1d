import Ragged.Proofs.Type.Lexical

/-!
# Nothing of a text is lost

Scanning goes through a text from its start to its end. Blanks are passed over, and at any other
character a stretch is cut off, which is a token as long as it can be, or no token (`Scan.Cut`); the
next one starts behind it (`Scan.Tiles`).

> The stretches are not empty, follow each other, and leave nothing but blanks between them, before
> the first and behind the last (`scan_covers`).

That is what `scan` gives, all of it at once. A scanner gives it item by item and can be looked ahead
in; what it answers depends on how often the next item was asked for, and not on any look ahead
(`Scanner.Holds.after`).
-/

set_option autoImplicit false

namespace Ragged

namespace Scan

/-- Where in the text an item stands. -/
def spanOf : Scanned → Span
  | .ok l => l.span
  | .error e => e.span

/-- The characters `w`, behind which stand `cs`, are cut off as an item. -/
inductive Cut (map : LineMap) (start : Nat) (w cs : List Char) : Scanned → Prop
  /-- A token, of which no other is longer. -/
  | token {t : Token} (hw : t.Matches w)
      (longest : ∀ t' w', Token.Matches t' w' → w' <+: w ++ cs → w'.length ≤ w.length) :
      Cut map start w cs (.ok ⟨t, String.ofList w, map.span start (start + byteLength w)⟩)
  /-- A quote without its match before the end of the line. -/
  | quote {quote : Char} {body : List Char} (hquote : quote = '"' ∨ quote = '\'')
      (hw : w = quote :: body) (hbody : ∀ c ∈ body, inQuotes quote c = true)
      (hend : ∀ c ∈ cs.head?, c = '\n') :
      Cut map start w cs (.error (.unrecognized (map.span start (start + byteLength w))))
  /-- A character with which no token starts. -/
  | character {c : Char} (hw : w = [c]) (hblank : isBlank c = false) (hquote : c ≠ '"' ∧ c ≠ '\'')
      (hnone : ∀ t w', Token.Matches t w' → ¬w' <+: c :: cs) :
      Cut map start w cs (.error (.unrecognized (map.span start (start + byteLength w))))

/-- The characters, of which the first stands at byte `offset`, are blanks and the items. -/
inductive Tiles (map : LineMap) : Nat → List Char → List Scanned → Prop
  | nil {offset : Nat} : Tiles map offset [] []
  | blank {offset : Nat} {c : Char} {cs : List Char} {items : List Scanned}
      (hc : isBlank c = true) (hcs : Tiles map (offset + c.utf8Size) cs items) :
      Tiles map offset (c :: cs) items
  | item {offset : Nat} {w cs : List Char} {item : Scanned} {items : List Scanned}
      (hw : Cut map offset w cs item) (hcs : Tiles map (offset + byteLength w) cs items) :
      Tiles map offset (w ++ cs) (item :: items)

/-! ## What is cut off -/

section Cut

variable {c : Char} {rest : List Char}

/-- A list up to the first element that does not satisfy a condition, and from it on. -/
theorem exists_split (p : Char → Bool) (cs : List Char) :
    ∃ before after, cs = before ++ after ∧ (∀ d ∈ before, p d = true) ∧
      ∀ d ∈ after.head?, p d = false := by
  refine ⟨cs.takeWhile p, cs.dropWhile p, List.takeWhile_append_dropWhile.symm,
    List.all_eq_true.mp List.all_takeWhile, fun d hd => ?_⟩
  have hstop := List.head?_dropWhile_not p cs
  rwa [Option.mem_def.mp hd] at hstop

/-- Where no token is taken there is a quote without its match, with which all up to the end of the
line is taken, or another character, which is taken alone. -/
theorem cases_of_take_none (h : (take c rest).1 = none) :
    (∃ body cs, rest = body ++ cs ∧ (take c rest).2 = body ∧ (c = '"' ∨ c = '\'') ∧
      (∀ d ∈ body, inQuotes c d = true) ∧ ∀ d ∈ cs.head?, d = '\n') ∨
    (take c rest).2 = [] ∧ c ≠ '"' ∧ c ≠ '\'' := by
  unfold take at h ⊢
  cases hmark : Token.ofPunctuation? c with
  | some t => simp [hmark] at h
  | none =>
    by_cases hdigit : c.isDigit = true
    · simp [hmark, hdigit] at h
    by_cases hword : startsWord c = true
    · simp [hmark, hdigit, hword] at h
    by_cases hquote : (c == '"' || c == '\'') = true
    · obtain ⟨body, cs, rfl, hbody, hstop⟩ := exists_split (inQuotes c) rest
      simp only [hmark, if_neg hdigit, if_neg hword, hquote, if_true,
        takeWhile_append_stop hbody hstop, List.drop_left] at h ⊢
      have hquote : c = '"' ∨ c = '\'' := by simpa using hquote
      cases cs with
      | nil => exact .inl ⟨body, [], rfl, rfl, hquote, hbody, by simp⟩
      | cons d cs =>
        -- what stops the stretch is the quote or the end of the line, and it is not the quote
        have hd : d ≠ c := by
          rintro rfl
          simp at h
        refine .inl ⟨body, d :: cs, rfl, by simp [hd], hquote, hbody, ?_⟩
        simpa [inQuotes, hd] using hstop
    · simp only [if_neg hdigit, if_neg hword, if_neg hquote]
      exact .inr ⟨trivial, by simpa using hquote⟩

/-- **What is taken at a character that is no blank is cut off.** -/
theorem cut_take (map : LineMap) (start : Nat) {c : Char} (rest : List Char)
    (hblank : isBlank c = false) :
    ∃ cs, rest = (take c rest).2 ++ cs ∧
      Cut map start (c :: (take c rest).2) cs
        (match (take c rest).1 with
          | some t => .ok ⟨t, String.ofList (c :: (take c rest).2),
              map.span start (start + byteLength (c :: (take c rest).2))⟩
          | none => .error (.unrecognized
              (map.span start (start + byteLength (c :: (take c rest).2))))) := by
  cases ht : (take c rest).1 with
  | some t =>
    obtain ⟨hmatches, cs, hcs⟩ := matches_take ht
    refine ⟨cs, hcs.symm, .token hmatches fun t' w' hw' hstarts => ?_⟩
    rw [List.cons_append, hcs] at hstarts
    exact (length_le_of_matches hw' hstarts).2
  | none =>
    rcases cases_of_take_none ht with ⟨body, cs, hrest, hbody, hquote, hall, hend⟩ | ⟨hnil, hquote⟩
    · rw [hbody]
      exact ⟨cs, hrest, .quote hquote rfl hall hend⟩
    · rw [hnil]
      refine ⟨rest, rfl, .character rfl hblank hquote fun t' w' hw' hstarts => ?_⟩
      exact absurd (length_le_of_matches hw' hstarts).1 (by simp [ht])

end Cut

/-! ## Scanning a text -/

section Tiles

variable {map : LineMap}

/-- **Scanning goes through the whole text.** Characters that were taken already lie behind it. -/
theorem tiles_run (cs : List Char) : ∀ offset skip,
    Tiles map (offset + byteLength (cs.take skip)) (cs.drop skip) (run map offset skip cs) := by
  induction cs with
  | nil =>
    intro offset skip
    rw [List.drop_nil]
    exact .nil
  | cons c rest ih =>
    intro offset skip
    cases skip with
    | succ skip =>
      rw [List.take_succ_cons, byteLength, ← Nat.add_assoc]
      exact ih (offset + c.utf8Size) skip
    | zero =>
      have hnext := ih (offset + c.utf8Size)
      rw [run]
      split
      next hblank => exact .blank hblank (hnext 0)
      next hblank =>
        obtain ⟨cs, hcs, hcut⟩ := cut_take map offset rest (Bool.eq_false_iff.mpr hblank)
        rw [byteLength, ← Nat.add_assoc] at hcut
        have hbehind := hnext (take c rest).2.length
        generalize take c rest = taken at hcs hcut hbehind ⊢
        obtain ⟨t, more⟩ := taken
        dsimp only at hcs hcut hbehind ⊢
        subst hcs
        rw [List.take_left, List.drop_left, Nat.add_assoc] at hbehind
        exact .item hcut hbehind

/-! ## Where the items stand -/

theorem Cut.span {start : Nat} {w cs : List Char} {item : Scanned} (h : Cut map start w cs item) :
    spanOf item = map.span start (start + byteLength w) ∧ 0 < byteLength w := by
  have hpos (c : Char) (more : List Char) : 0 < byteLength (c :: more) :=
    Nat.lt_of_lt_of_le c.utf8Size_pos (Nat.le_add_right _ _)
  cases h with
  | token hw _ =>
    cases w with
    | nil => exact absurd hw Token.not_matches_nil
    | cons c more => exact ⟨rfl, hpos c more⟩
  | quote _ hw => exact ⟨rfl, hw ▸ hpos _ _⟩
  | character hw => exact ⟨rfl, hw ▸ hpos _ _⟩

theorem byteLength_append (cs ds : List Char) :
    byteLength (cs ++ ds) = byteLength cs + byteLength ds := by
  induction cs with
  | nil => exact (Nat.zero_add _).symm
  | cons c cs ih => rw [List.cons_append, byteLength, byteLength, ih, Nat.add_assoc]

/-- Bytes are counted as the text has them. -/
theorem utf8ByteSize_ofList (cs : List Char) : (String.ofList cs).utf8ByteSize = byteLength cs := by
  induction cs with
  | nil => rfl
  | cons c cs ih =>
    rw [String.ofList_cons, String.utf8ByteSize_append, String.utf8ByteSize_singleton, ih,
      byteLength]

variable {offset : Nat} {cs : List Char} {items : List Scanned}

/-- The items stand at or behind the start, up to the end, and none of them is empty. -/
theorem Tiles.within (h : Tiles map offset cs items) : ∀ item ∈ items,
    offset ≤ (spanOf item).start ∧ (spanOf item).start < (spanOf item).stop ∧
      (spanOf item).stop ≤ offset + byteLength cs := by
  induction h with
  | nil => exact fun _ hitem => absurd hitem List.not_mem_nil
  | blank _ _ ih =>
    intro item hitem
    obtain ⟨hstart, hne, hstop⟩ := ih item hitem
    rw [byteLength]
    exact ⟨by omega, hne, by omega⟩
  | @item offset w cs item items hw _ ih =>
    obtain ⟨hspan, hpos⟩ := hw.span
    rw [byteLength_append]
    refine List.forall_mem_cons.mpr ⟨?_, fun other hother => ?_⟩
    · rw [hspan]
      exact ⟨Nat.le_refl _, Nat.lt_add_of_pos_right hpos, by show offset + byteLength w ≤ _; omega⟩
    · obtain ⟨hstart, hne, hstop⟩ := ih other hother
      exact ⟨by omega, hne, by omega⟩

theorem Tiles.pairwise (h : Tiles map offset cs items) :
    items.Pairwise fun a b => (spanOf a).stop ≤ (spanOf b).start := by
  induction h with
  | nil => exact .nil
  | blank _ _ ih => exact ih
  | item hw hcs ih =>
    refine .cons (fun other hother => ?_) ih
    rw [hw.span.1]
    exact (hcs.within other hother).1

/-- Each item is cut out of the characters at its place. -/
theorem Tiles.exists_cut (h : Tiles map offset cs items) : ∀ item ∈ items, ∃ before w after,
    cs = before ++ w ++ after ∧ Cut map (offset + byteLength before) w after item := by
  induction h with
  | nil => exact fun _ hitem => absurd hitem List.not_mem_nil
  | @blank offset c cs items hc _ ih =>
    intro item hitem
    obtain ⟨before, w, after, rfl, hcut⟩ := ih item hitem
    refine ⟨c :: before, w, after, rfl, ?_⟩
    rw [byteLength, ← Nat.add_assoc]
    exact hcut
  | @item offset w cs item items hw _ ih =>
    refine List.forall_mem_cons.mpr ⟨⟨[], w, cs, rfl, hw⟩, fun other hother => ?_⟩
    obtain ⟨before, w', after, rfl, hcut⟩ := ih other hother
    refine ⟨w ++ before, w', after, by simp only [List.append_assoc], ?_⟩
    rw [byteLength_append, ← Nat.add_assoc]
    exact hcut

/-- A character that is no blank belongs to an item. -/
theorem Tiles.exists_item (h : Tiles map offset cs items) : ∀ {before after : List Char} {c : Char},
    cs = before ++ c :: after → isBlank c = false → ∃ item ∈ items,
      (spanOf item).start ≤ offset + byteLength before ∧
        offset + byteLength before + c.utf8Size ≤ (spanOf item).stop := by
  induction h with
  | nil => intro before after c hcs; exact absurd hcs (by simp)
  | @blank offset b cs items hb _ ih =>
    intro before after c hcs hc
    cases before with
    | nil =>
      obtain ⟨rfl, -⟩ := List.cons.inj hcs
      exact absurd (hb.symm.trans hc) (by simp)
    | cons b' before =>
      obtain ⟨rfl, hrest⟩ := List.cons.inj hcs
      rw [byteLength, ← Nat.add_assoc]
      exact ih hrest hc
  | @item offset w cs item items hw _ ih =>
    intro before after c hcs hc
    have hlater : ∀ before', before = w ++ before' → cs = before' ++ c :: after →
        ∃ other ∈ item :: items, (spanOf other).start ≤ offset + byteLength before ∧
          offset + byteLength before + c.utf8Size ≤ (spanOf other).stop := by
      rintro before' rfl hrest
      obtain ⟨other, hother, hinside⟩ := ih hrest hc
      rw [byteLength_append, ← Nat.add_assoc]
      exact ⟨other, List.mem_cons_of_mem _ hother, hinside⟩
    rcases List.append_eq_append_iff.mp hcs with ⟨before', hbefore, hrest⟩ | ⟨w', hw', hrest⟩
    · exact hlater before' hbefore hrest
    · cases w' with
      | nil => exact hlater [] (by simpa using hw'.symm) hrest.symm
      | cons d w' =>
        obtain ⟨rfl, -⟩ := List.cons.inj hrest
        refine ⟨item, List.mem_cons_self, ?_⟩
        rw [hw.span.1, hw', byteLength_append, byteLength]
        exact ⟨Nat.le_add_right _ _, by show _ ≤ offset + _; omega⟩

end Tiles

/-- The items are cut out of the text one behind the other, and only blanks are left of it. -/
structure Covers (source : String) (items : List Scanned) : Prop where
  /-- What stands in the text at the place of an item is what the item says. -/
  cut : ∀ item ∈ items, ∃ before w after, source.toList = before ++ w ++ after ∧
    Cut (LineMap.ofText source) (byteLength before) w after item
  nonempty : ∀ item ∈ items, (spanOf item).start < (spanOf item).stop
  ordered : items.Pairwise fun a b => (spanOf a).stop ≤ (spanOf b).start
  inside : ∀ item ∈ items, (spanOf item).stop ≤ source.utf8ByteSize
  blanks : ∀ before c after, source.toList = before ++ c :: after → isBlank c = true ∨
    ∃ item ∈ items, (spanOf item).start ≤ byteLength before ∧
      byteLength before + c.utf8Size ≤ (spanOf item).stop

theorem Tiles.covers {source : String} {items : List Scanned}
    (h : Tiles (LineMap.ofText source) 0 source.toList items) : Covers source items where
  cut item hitem := by
    obtain ⟨before, w, after, hsource, hcut⟩ := h.exists_cut item hitem
    rw [Nat.zero_add] at hcut
    exact ⟨before, w, after, hsource, hcut⟩
  nonempty item hitem := (h.within item hitem).2.1
  ordered := h.pairwise
  inside item hitem := by
    have hstop := (h.within item hitem).2.2
    rwa [Nat.zero_add, ← utf8ByteSize_ofList, String.ofList_toList] at hstop
  blanks before c after hsource := by
    cases hc : isBlank c with
    | true => exact .inl rfl
    | false =>
      obtain ⟨item, hitem, hstart, hstop⟩ := h.exists_item hsource hc
      rw [Nat.zero_add] at hstart hstop
      exact .inr ⟨item, hitem, hstart, hstop⟩

end Scan

/-! ## Item by item -/

namespace Scanner

/-- What a scanner can be asked for. -/
inductive Query where
  | peek
  | next
deriving DecidableEq

def answer (s : Scanner) : Query → Option Scanned × Scanner
  | .peek => s.peek
  | .next => s.next

/-- The scanner after some queries. -/
def after (s : Scanner) (asked : List Query) : Scanner := asked.foldl (fun s q => (s.answer q).2) s

/-- The items are those still to be handed out; one of them may have been looked ahead to. -/
def Holds (s : Scanner) (items : List Scanned) : Prop :=
  match s.ahead with
  | none => s.upcoming = items
  | some item => item = items.head? ∧ s.upcoming = items.tail

variable {s : Scanner} {items : List Scanned}

theorem pull_of_upcoming (h : s.upcoming = items) :
    s.pull.1 = items.head? ∧ s.pull.2.upcoming = items.tail ∧ s.pull.2.ahead = s.ahead := by
  subst h
  unfold pull
  split
  next hnil => rw [hnil]; exact ⟨rfl, rfl, rfl⟩
  next hcons => rw [hcons]; exact ⟨rfl, rfl, rfl⟩

/-- Either query is answered by the first item, and only `next` uses it up. -/
theorem Holds.answer (h : s.Holds items) (q : Query) :
    (s.answer q).1 = items.head? ∧ (s.answer q).2.Holds (items.drop ([q].count .next)) := by
  cases hahead : s.ahead with
  | none =>
    simp only [Holds, hahead] at h
    obtain ⟨hitem, hupcoming, hnone⟩ := pull_of_upcoming h
    cases q with
    | peek => simp [Scanner.answer, peek, hahead, Holds, hitem, hupcoming]
    | next => simp [Scanner.answer, next, hahead, Holds, hitem, hupcoming, hnone]
  | some item =>
    simp only [Holds, hahead] at h
    cases q with
    | peek => simp [Scanner.answer, peek, hahead, Holds, h]
    | next => simp [Scanner.answer, next, hahead, Holds, h]

/-- However the queries are mixed, those for the next item use up one item each. -/
theorem Holds.after (asked : List Query) : ∀ {s : Scanner} {items : List Scanned}, s.Holds items →
    (s.after asked).Holds (items.drop (asked.count .next)) := by
  induction asked with
  | nil => exact fun h => h
  | cons q asked ih =>
    intro s items h
    have hrest := ih (h.answer q).2
    rw [List.drop_drop, ← List.count_append, List.singleton_append] at hrest
    exact hrest

end Scanner

/-- **Nothing of a text is lost in scanning, and nothing comes twice.** The items cover the text; and
whatever a scanner was asked before, its answer is the item whose number is how often it was asked
for the next one. -/
theorem scan_covers (source : String) :
    Scan.Covers source (scan source) ∧ ∀ (asked : List Scanner.Query) (q : Scanner.Query),
      (((Scanner.ofText source).after asked).answer q).1 =
        (scan source)[asked.count .next]? := by
  refine ⟨(Scan.tiles_run source.toList 0 0).covers, fun asked q => ?_⟩
  have hstart : (Scanner.ofText source).Holds (scan source) := rfl
  rw [((hstart.after asked).answer q).1, List.head?_drop]

/-- A letter of two bytes is passed over, and so is a quote with all that follows it on its line. -/
example : (scan "é, 'ab\n2").map Scan.spanOf =
    [⟨0, 2, 1, 1⟩, ⟨2, 3, 1, 3⟩, ⟨4, 7, 1, 5⟩, ⟨8, 9, 2, 1⟩] := by
  decide +kernel

end Ragged
