import Ragged.Proofs.Text.Lines
import Ragged.Proofs.Type.Complaints
import Ragged.Proofs.Type.Scanning

/-!
# Errors point into the text

An error says where in the text it is, by offsets and by line and column, and shows what stands
there. So it does not have to be taken on trust:

> the offsets are ends of a stretch of characters of the text, and these are the characters shown;
> line and column are those of the first of them.

A literal is shown without its quotes. That the text ends too early is said of its end, where there
is nothing to show, and only if all of the text is tokens with which a type could begin.

What is known of an error of the reader (`TypeReader.Blames`) is about lexemes, and each of these was
cut out of the text at its place (`Scan.Cut`).
-/

set_option autoImplicit false

namespace Ragged

open Scan TypeReader

/-- What an error shows, where these characters stand at its place. -/
def ParseError.Shows : ParseError → List Char → Prop
  | .unexpectedToken text _ _, w | .numberTooLarge text _, w | .unknownType text _, w
  | .repeatedField text _, w | .dimensionInLeaf text _, w => text.toList = w
  | .unknownEncoding name _, w =>
    ∃ quote, (quote = '"' ∨ quote = '\'') ∧ w = quote :: (name.toList ++ [quote])
  | .unexpectedEnd _ _, w => w = []
  | .unrecognized _, w => w ≠ []

/-- The text is cut into tokens to its end, and they are some but not all tokens of a language. -/
def EndsEarly (L : List Terminal → Prop) (source : String) : Prop :=
  ∃ (ls : List Lexeme) (more : List Terminal), scan source = ls.map .ok ∧ more ≠ [] ∧
    L (ls.map Lexeme.terminal ++ more)

/-- The error is to be found in the text. -/
structure ParseError.PointsInto (L : List Terminal → Prop) (source : String) (e : ParseError) :
    Prop where
  /-- Its ends are between characters, and what is between them is shown. -/
  place : ∃ before w after, source.toList = before ++ w ++ after ∧ e.Shows w ∧
    e.span.start = byteLength before ∧ e.span.stop = byteLength before + byteLength w
  within : e.span.start ≤ e.span.stop ∧ e.span.stop ≤ source.utf8ByteSize
  line_column : (e.span.line, e.span.column) = (LineMap.ofText source).locate e.span.start
  end_of_text : ∀ expected span, e = .unexpectedEnd expected span →
    span.start = source.utf8ByteSize ∧ span.stop = source.utf8ByteSize ∧ EndsEarly L source

variable {L : List Terminal → Prop} {source : String} {e : ParseError}

theorem ParseError.pointsInto_of_place (before w after : List Char)
    (hsource : source.toList = before ++ w ++ after) (hshows : e.Shows w)
    (hspan : e.span =
      (LineMap.ofText source).span (byteLength before) (byteLength before + byteLength w))
    (hend : ∀ expected span, e = .unexpectedEnd expected span → after = [] ∧ EndsEarly L source) :
    e.PointsInto L source := by
  have hsize : source.utf8ByteSize = byteLength before + byteLength w + byteLength after := by
    rw [← byteLength_append, ← byteLength_append, ← hsource, ← utf8ByteSize_ofList,
      String.ofList_toList]
  have hstart : e.span.start = byteLength before := by rw [hspan]; rfl
  have hstop : e.span.stop = byteLength before + byteLength w := by rw [hspan]; rfl
  refine ⟨⟨before, w, after, hsource, hshows, hstart, hstop⟩, ?_, ?_, ?_⟩
  · rw [hstart, hstop, hsize]
    exact ⟨Nat.le_add_right _ _, Nat.le_add_right _ _⟩
  · rw [LineMap.locate_ofText, hspan]
    rfl
  · rintro expected span rfl
    obtain ⟨rfl, hearly⟩ := hend expected span rfl
    obtain rfl : w = [] := hshows
    exact ⟨hstart.trans hsize.symm, hstop.trans hsize.symm, hearly⟩

/-! ## Lexemes and faults are cut out of the text -/

theorem exists_cut_of_mem {item : Scanned} (h : item ∈ scan source) :
    ∃ before w after, source.toList = before ++ w ++ after ∧
      Cut (LineMap.ofText source) (byteLength before) w after item :=
  (tiles_run source.toList 0 0).covers.cut item h

theorem TypeReader.mem_of_splitScanned_fault {items : List Scanned}
    (h : (splitScanned items).2 = some e) : .error e ∈ items := by
  induction items with
  | nil => exact absurd h (by simp [splitScanned])
  | cons item items ih =>
    cases item with
    | error e' =>
      obtain rfl : e' = e := Option.some.inj h
      exact List.mem_cons_self
    | ok l => exact List.mem_cons_of_mem _ (ih h)

theorem TypeReader.Concerns.span_eq {l : Lexeme} (h : Concerns l e) : e.span = l.span := by
  cases h <;> rfl

/-- What an error about a lexeme shows is the text of that lexeme. -/
theorem TypeReader.Concerns.shows {l : Lexeme} {w : List Char} (h : Concerns l e)
    (hw : l.token.Matches w) (htext : l.text = String.ofList w) : e.Shows w := by
  have htoList : l.text.toList = w := by rw [htext, String.toList_ofList]
  cases h with
  | unknownEncoding hl =>
    rw [hl] at hw
    obtain ⟨quote, body, hquote, rfl, -⟩ := hw
    refine ⟨quote, hquote, ?_⟩
    rw [unquote, htoList, String.toList_ofList]
    simp
  | unexpectedToken | numberTooLarge | unknownType | repeatedField | dimensionInLeaf => exact htoList

theorem TypeReader.Concerns.ne_unexpectedEnd {l : Lexeme} (h : Concerns l e) (expected : String)
    (span : Span) : e ≠ .unexpectedEnd expected span := by
  cases h <;> simp

/-- **An error of the reader points into the text.** -/
theorem TypeReader.Blames.pointsInto
    (h : Blames ⟨endSpan source, (splitScanned (scan source)).2⟩ L
      (splitScanned (scan source)).1 e) : e.PointsInto L source := by
  cases h with
  | fault h =>
    obtain ⟨before, w, after, hsource, hcut⟩ := exists_cut_of_mem (mem_of_splitScanned_fault h)
    have hw : w ≠ [] := by
      rintro rfl
      exact absurd hcut.span.2 (by simp [byteLength])
    cases hcut with
    | quote | character =>
      exact ParseError.pointsInto_of_place before w after hsource hw rfl (by simp)
  | @lexeme l e hl h =>
    obtain ⟨before, w, after, hsource, hcut⟩ := exists_cut_of_mem (mem_of_mem_splitScanned hl)
    obtain ⟨t, text, span⟩ := l
    cases hcut with
    | token hw _ =>
      exact ParseError.pointsInto_of_place before w after hsource (h.shows hw rfl) h.span_eq
        fun expected span he => absurd he (h.ne_unexpectedEnd expected span)
  | tooEarly more hend hmore h =>
    have hscan := splitScanned_eq_none_iff.mp (Prod.ext rfl hend)
    have hspan : endSpan source = (LineMap.ofText source).span (byteLength source.toList)
        (byteLength source.toList + byteLength []) := by
      have hsize : source.utf8ByteSize = byteLength source.toList := by
        rw [← utf8ByteSize_ofList, String.ofList_toList]
      rw [endSpan, hsize]
      rfl
    exact ParseError.pointsInto_of_place source.toList [] [] (by simp) rfl hspan
      fun _ _ _ => ⟨rfl, _, more, hscan, hmore, h⟩

/-! ## Reading a whole text -/

theorem TypeReader.concerns_of_finish {α : Type} {a : α} {rest : List Lexeme}
    (h : finish (a, rest) = .error e) : ∃ l ∈ rest, Concerns l e := by
  cases rest with
  | nil => exact absurd h (by simp [finish])
  | cons l rest =>
    cases h
    exact ⟨l, List.mem_cons_self, .unexpectedToken⟩

namespace TypeReader

variable {α : Type}

/-- What is left behind what was read is the fault of its first lexeme. -/
theorem blames_finish {ending : Ending} {ls : List Lexeme}
    {read : Except ParseError (α × List Lexeme)} (hread : read = .error e → Blames ending L ls e)
    (hsuffix : ∀ {a rest}, read = .ok (a, rest) → rest <:+ ls)
    (h : read.bind finish = .error e) : Blames ending L ls e := by
  rcases bind_eq_error.mp h with hfails | ⟨⟨a, rest⟩, hreads, h⟩
  · exact hread hfails
  · obtain ⟨l, hl, hconcerns⟩ := concerns_of_finish h
    exact .lexeme ((hsuffix hreads).subset hl) hconcerns

theorem pointsInto_of_onText {reader : Ending → List Lexeme → Except ParseError α}
    (hreader : ∀ {ending ls}, Genuine ls → arrive ending ls = .ok () →
      reader ending ls = .error e → Blames ending L ls e)
    (h : onText reader source = .error e) : e.PointsInto L source := by
  apply Blames.pointsInto
  rw [onText] at h
  rcases bind_eq_error.mp h with hfault | ⟨⟨⟩, harrive, h⟩
  · exact .fault (fault_of_arrive_error hfault)
  · exact hreader (genuine_splitScanned source) harrive h

end TypeReader

theorem ArrayType.pointsInto_of_parse (h : ArrayType.parse source = .error e) :
    e.PointsInto TypeTokens source :=
  pointsInto_of_onText (fun {_ ls} hls harrive h =>
    blames_finish (blames_type (steps ls) (Nat.le_refl _) hls harrive) (suffix_of_type _) h) h

theorem LeafType.pointsInto_of_parse (h : LeafType.parse source = .error e) :
    e.PointsInto LeafTokens source := by
  refine pointsInto_of_onText (fun {ending ls} hls harrive h => ?_) h
  have hwhole : (leaf ending (steps ls) ls).bind finish = .error e → Blames ending LeafTokens ls e :=
    blames_finish (blames_leaf (steps ls) (Nat.le_succ _) hls harrive) (suffix_of_leaf _)
  cases ls with
  | nil => exact hwhole h
  | cons l ls =>
    simp only at h
    split at h
    · cases h
      exact .lexeme List.mem_cons_self .dimensionInLeaf
    · exact hwhole h

/-- **Positions are exact, and errors point into the text**, of a type and of a leaf. -/
theorem errors_point_into_text (source : String) : LineMap.Exact source ∧
    (∀ e, ArrayType.parse source = .error e → e.PointsInto TypeTokens source) ∧
      ∀ e, LeafType.parse source = .error e → e.PointsInto LeafTokens source :=
  ⟨LineMap.exact source, fun _ => ArrayType.pointsInto_of_parse,
    fun _ => LeafType.pointsInto_of_parse⟩

/-- A field whose type is still to come is an error behind the last line. -/
theorem errors_point_into_text_unfinished :
    ArrayType.parse "\x7ba:\n" = .error (.unexpectedEnd "a type" ⟨4, 4, 2, 1⟩) ∧
      ParseError.PointsInto TypeTokens "\x7ba:\n" (.unexpectedEnd "a type" ⟨4, 4, 2, 1⟩) := by
  have hfails : ArrayType.parse "\x7ba:\n" = .error (.unexpectedEnd "a type" ⟨4, 4, 2, 1⟩) := by
    decide +kernel
  exact ⟨hfails, (errors_point_into_text "\x7ba:\n").2.1 _ hfails⟩

end Ragged
