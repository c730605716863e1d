import Mathlib.Data.List.GetD
import Ragged.Proofs.Text.Codec
import Ragged.Text.Position

/-!
# Lines and columns are exact

The line of an offset is one more than the newlines before it, and its column one more than its
distance from where that line starts. Newlines are counted among the bytes of the text here, and
`LineMap` finds them among its characters; the two agree since no other character has the byte of a
newline in it (`startsAfter_eq`). So, with no bound on what an offset is,

> `position` gives these two numbers, and `locate` finds the same by halving (`locate_eq_position`).

An offset further on is on a later line, or on the same line in a later column.
-/

set_option autoImplicit false

namespace Ragged

namespace LineMap

/-- The one byte of a newline. -/
def newline : UInt8 := 10

/-- The line of an offset starts there: with the text, or just after a newline, and with no newline
from there to the offset. -/
structure StartsLine (bytes : List UInt8) (offset start : Nat) : Prop where
  le : start ≤ offset
  behind : start = 0 ∨ bytes[start - 1]? = some newline
  last : ∀ i, start ≤ i → i < offset → bytes[i]? ≠ some newline

/-! ## Newlines among bytes -/

/-- Offsets just after each newline among some bytes that begin at `offset`. -/
def startsAfterBytes : Nat → List UInt8 → List Nat
  | _, [] => []
  | offset, b :: bytes =>
    if b = newline then (offset + 1) :: startsAfterBytes (offset + 1) bytes
    else startsAfterBytes (offset + 1) bytes

theorem ne_newline_of_mem {c : Char} (hc : c ≠ '\n') :
    ∀ b ∈ String.utf8EncodeChar c, b ≠ newline :=
  Units.ne_of_mem_utf8EncodeChar (by decide) fun h => hc (Char.toNat_inj.mp h)

theorem startsAfterBytes_append {more : List UInt8} : ∀ {bytes : List UInt8} (offset : Nat),
    (∀ b ∈ bytes, b ≠ newline) →
      startsAfterBytes offset (bytes ++ more) = startsAfterBytes (offset + bytes.length) more
  | [], _, _ => rfl
  | b :: bytes, offset, h => by
    obtain ⟨hb, hbytes⟩ := List.forall_mem_cons.mp h
    rw [List.cons_append, startsAfterBytes, if_neg hb, startsAfterBytes_append _ hbytes,
      List.length_cons, Nat.add_right_comm, Nat.add_assoc]

/-- **The newlines among the characters are those among the bytes.** -/
theorem startsAfter_eq (cs : List Char) : ∀ offset,
    startsAfter offset cs = startsAfterBytes offset (Units.utf8 cs) := by
  induction cs with
  | nil => exact fun _ => rfl
  | cons c cs ih =>
    intro offset
    have hcons : Units.utf8 (c :: cs) = String.utf8EncodeChar c ++ Units.utf8 cs := rfl
    by_cases hc : c = '\n'
    · subst hc
      exact congrArg (List.cons (offset + 1)) (ih (offset + 1))
    · rw [startsAfter, if_neg hc, hcons, startsAfterBytes_append _ (ne_newline_of_mem hc),
        String.length_utf8EncodeChar, ih]

/-! ## The line starts up to an offset -/

theorem lt_of_mem_startsAfterBytes {s : Nat} : ∀ {bytes : List UInt8} {offset : Nat},
    s ∈ startsAfterBytes offset bytes → offset < s
  | [], _, h => absurd h List.not_mem_nil
  | b :: bytes, offset, h => by
    rw [startsAfterBytes] at h
    split at h
    · rcases List.mem_cons.mp h with rfl | h
      · exact Nat.lt_succ_self offset
      · exact Nat.lt_of_succ_lt (lt_of_mem_startsAfterBytes h)
    · exact Nat.lt_of_succ_lt (lt_of_mem_startsAfterBytes h)

theorem pairwise_startsAfterBytes : ∀ (bytes : List UInt8) (offset : Nat),
    (startsAfterBytes offset bytes).Pairwise (· < ·)
  | [], _ => .nil
  | b :: bytes, offset => by
    rw [startsAfterBytes]
    split
    · exact .cons (fun _ h => lt_of_mem_startsAfterBytes h) (pairwise_startsAfterBytes bytes _)
    · exact pairwise_startsAfterBytes bytes _

/-- Those behind the first `n` bytes, that is up to there. -/
def startsWithin (offset n : Nat) (bytes : List UInt8) : List Nat :=
  (startsAfterBytes offset bytes).takeWhile (· ≤ offset + n)

theorem startsWithin_zero (offset : Nat) (bytes : List UInt8) : startsWithin offset 0 bytes = [] := by
  cases hstarts : startsAfterBytes offset bytes with
  | nil => rw [startsWithin, hstarts, List.takeWhile_nil]
  | cons s rest =>
    have hlt : offset < s := lt_of_mem_startsAfterBytes (hstarts ▸ List.mem_cons_self)
    rw [startsWithin, hstarts, List.takeWhile_cons_of_neg (by simpa using hlt)]

theorem startsWithin_cons (offset n : Nat) (b : UInt8) (bytes : List UInt8) :
    startsWithin offset (n + 1) (b :: bytes) =
      (if b = newline then [offset + 1] else []) ++ startsWithin (offset + 1) n bytes := by
  have hsum : offset + (n + 1) = offset + 1 + n := by omega
  rw [startsWithin, startsAfterBytes, startsWithin, hsum]
  by_cases hb : b = newline
  · rw [if_pos hb, if_pos hb, List.takeWhile_cons_of_pos (by simp)]
    rfl
  · rw [if_neg hb, if_neg hb, List.nil_append]

/-- There are as many as newlines. -/
theorem length_startsWithin : ∀ (bytes : List UInt8) (offset n : Nat),
    (startsWithin offset n bytes).length = (bytes.take n).count newline
  | bytes, offset, 0 => by rw [startsWithin_zero, List.take_zero]; rfl
  | [], offset, n + 1 => rfl
  | b :: bytes, offset, n + 1 => by
    rw [startsWithin_cons, List.length_append, length_startsWithin, List.take_succ_cons,
      List.count_cons, Nat.add_comm]
    by_cases hb : b = newline <;> simp [hb]

/-- The last of them is just after a newline behind which there is no other. If there is none, there
is no newline. -/
theorem getLastD_startsWithin : ∀ (bytes : List UInt8) (offset n d : Nat),
    ((startsWithin offset n bytes).getLastD d = d ∧ ∀ i < n, bytes[i]? ≠ some newline) ∨
      ∃ j < n, (startsWithin offset n bytes).getLastD d = offset + j + 1 ∧
        bytes[j]? = some newline ∧ ∀ i, j < i → i < n → bytes[i]? ≠ some newline
  | bytes, offset, 0, d => by
    rw [startsWithin_zero]
    exact .inl ⟨rfl, fun i hi => absurd hi (Nat.not_lt_zero i)⟩
  | [], offset, n + 1, d => .inl ⟨rfl, fun i _ => by simp⟩
  | b :: bytes, offset, n + 1, d => by
    have hsum (j : Nat) : offset + 1 + j + 1 = offset + (j + 1) + 1 := by omega
    rw [startsWithin_cons]
    by_cases hb : b = newline
    · rw [if_pos hb, List.singleton_append, List.getLastD_cons]
      rcases getLastD_startsWithin bytes (offset + 1) n (offset + 1) with
        ⟨hlast, hnone⟩ | ⟨j, hj, hlast, hnewline, hnone⟩
      · refine .inr ⟨0, Nat.zero_lt_succ n, hlast, congrArg some hb, fun i hpos hi => ?_⟩
        obtain ⟨i, rfl⟩ := Nat.exists_eq_succ_of_ne_zero (Nat.ne_of_gt hpos)
        exact hnone i (Nat.lt_of_succ_lt_succ hi)
      · refine .inr ⟨j + 1, Nat.succ_lt_succ hj, hlast.trans (hsum j), hnewline, fun i hji hi => ?_⟩
        obtain ⟨i, rfl⟩ := Nat.exists_eq_succ_of_ne_zero (Nat.ne_of_gt (Nat.zero_lt_of_lt hji))
        exact hnone i (Nat.lt_of_succ_lt_succ hji) (Nat.lt_of_succ_lt_succ hi)
    · rw [if_neg hb, List.nil_append]
      rcases getLastD_startsWithin bytes (offset + 1) n d with
        ⟨hlast, hnone⟩ | ⟨j, hj, hlast, hnewline, hnone⟩
      · refine .inl ⟨hlast, fun i hi => ?_⟩
        cases i with
        | zero => exact fun h => hb (Option.some.inj h)
        | succ i => exact hnone i (Nat.lt_of_succ_lt_succ hi)
      · refine .inr ⟨j + 1, Nat.succ_lt_succ hj, hlast.trans (hsum j), hnewline, fun i hji hi => ?_⟩
        obtain ⟨i, rfl⟩ := Nat.exists_eq_succ_of_ne_zero (Nat.ne_of_gt (Nat.zero_lt_of_lt hji))
        exact hnone i (Nat.lt_of_succ_lt_succ hji) (Nat.lt_of_succ_lt_succ hi)

/-! ## Positions -/

variable (source : String) (offset : Nat)

theorem starts_ofText : (ofText source).starts = 0 :: startsAfterBytes 0 (Units.utf8 source.toList) :=
  congrArg (List.cons 0) (startsAfter_eq source.toList 0)

theorem starts_before : (ofText source).starts.takeWhile (· ≤ offset) =
    0 :: startsWithin 0 offset (Units.utf8 source.toList) := by
  rw [starts_ofText, List.takeWhile_cons_of_pos (by simp), startsWithin, Nat.zero_add]

/-- **A position is the newlines before it and the distance from the start of its line.** -/
theorem position_ofText : ∃ start, StartsLine (Units.utf8 source.toList) offset start ∧
    (ofText source).position offset =
      (1 + ((Units.utf8 source.toList).take offset).count newline, offset - start + 1) := by
  refine ⟨(startsWithin 0 offset (Units.utf8 source.toList)).getLastD 0, ?_, ?_⟩
  · rcases getLastD_startsWithin (Units.utf8 source.toList) 0 offset 0 with
      ⟨hlast, hnone⟩ | ⟨j, hj, hlast, hnewline, hnone⟩
    · rw [hlast]
      exact ⟨Nat.zero_le _, .inl rfl, fun i _ hi => hnone i hi⟩
    · rw [hlast, Nat.zero_add]
      exact ⟨hj, .inr hnewline, fun i hji hi => hnone i hji hi⟩
  · rw [position, starts_before, List.getLastD_cons, List.length_cons, length_startsWithin,
      Nat.add_comm]

/-- The first line has three bytes, the second is empty, and the third begins at offset 4. -/
example : (ofText "é\n\nb").position 3 = (2, 1) ∧ (ofText "é\n\nb").position 4 = (3, 1) := by
  decide

/-! ## Binary search -/

section Search

variable {starts : List Nat} {offset : Nat}

theorem getD_le_getD (hsorted : starts.Pairwise (· < ·)) {i j : Nat} (hij : i ≤ j)
    (hj : j < starts.length) : starts.getD i 0 ≤ starts.getD j 0 := by
  rcases Nat.eq_or_lt_of_le hij with rfl | hlt
  · exact Nat.le_refl _
  · have hi : i < starts.length := Nat.lt_trans hlt hj
    rw [List.getD_eq_getElem _ _ hi, List.getD_eq_getElem _ _ hj]
    exact Nat.le_of_lt (List.pairwise_iff_getElem.mp hsorted i j hi hj hlt)

/-- The line start of that number is the last that is not behind the offset. -/
structure IsLast (starts : List Nat) (offset line : Nat) : Prop where
  lt : line < starts.length
  le : starts.getD line 0 ≤ offset
  behind : ∀ i < starts.length, line < i → offset < starts.getD i 0

/-- Halving keeps the first line start of the stretch at or before the offset, and those from its end
on behind it. -/
theorem isLast_narrow (hsorted : starts.Pairwise (· < ·)) : ∀ {base size : Nat},
    base + size ≤ starts.length → 0 < size → starts.getD base 0 ≤ offset →
      (∀ i < starts.length, base + size ≤ i → offset < starts.getD i 0) →
      IsLast starts offset (narrow starts offset base size) := by
  intro base size
  fun_induction narrow starts offset base size with
  | case1 base size hsize =>
    intro hlength hpos hbase hbehind
    exact ⟨by omega, hbase, fun i hi hlt => hbehind i hi (by omega)⟩
  | case2 base size hsize half base' ih =>
    intro hlength hpos hbase hbehind
    have hhalf : half = size / 2 := rfl
    by_cases hmid : offset < starts.getD (base + half) 0
    · have hbase' : base' = base := if_pos hmid
      rw [hbase'] at ih ⊢
      refine ih (by omega) (by omega) hbase fun i hi hle => ?_
      exact Nat.lt_of_lt_of_le hmid (getD_le_getD hsorted (by omega) hi)
    · have hbase' : base' = base + half := if_neg hmid
      rw [hbase'] at ih ⊢
      exact ih (by omega) (by omega) (Nat.le_of_not_lt hmid) fun i hi hle =>
        hbehind i hi (by omega)

/-- The line starts up to the offset are those up to the last. -/
theorem IsLast.takeWhile_eq {line : Nat} (hsorted : starts.Pairwise (· < ·))
    (h : IsLast starts offset line) :
    starts.takeWhile (· ≤ offset) = starts.take (line + 1) := by
  have hfront : ∀ s ∈ starts.take (line + 1), decide (s ≤ offset) = true := by
    intro s hs
    obtain ⟨i, hi, rfl⟩ := List.mem_iff_getElem.mp hs
    rw [List.length_take] at hi
    have hle := getD_le_getD hsorted (show i ≤ line by omega) h.lt
    rw [List.getD_eq_getElem _ _ (show i < starts.length by omega)] at hle
    rw [List.getElem_take]
    exact decide_eq_true (Nat.le_trans hle h.le)
  have hback : (starts.drop (line + 1)).takeWhile (· ≤ offset) = [] := by
    cases hdrop : starts.drop (line + 1) with
    | nil => rfl
    | cons s rest =>
      have hget : starts[line + 1]? = some s := by
        rw [← List.head?_drop, hdrop]
        rfl
      obtain ⟨hlt, hs⟩ := List.getElem?_eq_some_iff.mp hget
      have hbehind := h.behind (line + 1) hlt (Nat.lt_succ_self line)
      rw [List.getD_eq_getElem _ _ hlt, hs] at hbehind
      exact List.takeWhile_cons_of_neg (by simpa using hbehind)
  rw [← List.take_append_drop (line + 1) starts, List.takeWhile_append_of_pos hfront, hback,
    List.append_nil, List.take_append_drop]

/-- What is searched for is found, or else the number behind the last. -/
theorem exists_locate {map : LineMap} (hsorted : map.starts.Pairwise (· < ·))
    (hfirst : map.starts.head? = some 0) (offset : Nat) : ∃ line, IsLast map.starts offset line ∧
      map.locate offset = (line + 1, offset - map.starts.getD line 0 + 1) := by
  obtain ⟨_ | ⟨first, rest⟩⟩ := map
  · exact absurd hfirst (by simp)
  obtain rfl : first = 0 := Option.some.inj hfirst
  have hlast : IsLast (0 :: rest) offset (narrow (0 :: rest) offset 0 (0 :: rest).length) := by
    refine isLast_narrow hsorted ?_ (Nat.zero_lt_succ _) (Nat.zero_le _) fun i hi hle => ?_
    · exact Nat.le_of_eq (Nat.zero_add _)
    · exact absurd hi (Nat.not_lt.mpr (Nat.le_trans (Nat.le_add_left _ _) hle))
  refine ⟨_, hlast, ?_⟩
  unfold locate
  dsimp only [search]
  by_cases hfound : (0 :: rest).getD (narrow (0 :: rest) offset 0 (0 :: rest).length) 0 = offset
  · rw [if_pos hfound]
  · rw [if_neg hfound, if_pos (Nat.lt_of_le_of_ne hlast.le hfound)]
    rfl

/-- **Binary search finds the position.** -/
theorem locate_eq_position {map : LineMap} (hsorted : map.starts.Pairwise (· < ·))
    (hfirst : map.starts.head? = some 0) (offset : Nat) :
    map.locate offset = map.position offset := by
  obtain ⟨line, hlast, hlocate⟩ := exists_locate hsorted hfirst offset
  have hlt := hlast.lt
  rw [hlocate, position, hlast.takeWhile_eq hsorted, List.length_take, Nat.min_eq_left hlt,
    List.getLastD_eq_getLast?, List.getLast?_take, if_neg (Nat.succ_ne_zero line),
    Nat.add_sub_cancel, List.getElem?_eq_getElem hlt, Option.some_or, Option.getD_some,
    List.getD_eq_getElem _ _ hlt]

end Search

/-! ## All positions of a text -/

theorem StartsLine.le_of_startsLine {bytes : List UInt8} {offset start start' : Nat}
    (h : StartsLine bytes offset start) (h' : StartsLine bytes offset start') : start' ≤ start := by
  by_contra hlt
  rcases h'.behind with hzero | hnewline
  · omega
  · exact h.last (start' - 1) (by omega) (by have := h'.le; omega) hnewline

/-- An offset further on with no newline in between is on the same line. -/
theorem StartsLine.of_count_eq {bytes : List UInt8} {o o' start : Nat} (h : StartsLine bytes o start)
    (hlt : o < o') (hcount : (bytes.take o).count newline = (bytes.take o').count newline) :
    StartsLine bytes o' start := by
  refine ⟨Nat.le_trans h.le (Nat.le_of_lt hlt), h.behind, fun i hi hlt' => ?_⟩
  by_cases hio : i < o
  · exact h.last i hi hio
  · intro hnewline
    have hsplit : bytes.take o' = bytes.take o ++ (bytes.drop o).take (o' - o) := by
      rw [← List.take_add, Nat.add_sub_cancel' (Nat.le_of_lt hlt)]
    have hmem : newline ∈ (bytes.drop o).take (o' - o) := by
      refine List.mem_of_getElem? (i := i - o) ?_
      rw [List.getElem?_take, if_pos (by omega), List.getElem?_drop,
        Nat.add_sub_cancel' (Nat.le_of_not_lt hio), hnewline]
    rw [hsplit, List.count_append] at hcount
    have hpos := List.count_pos_iff.mpr hmem
    omega

/-- What the positions of a text are. -/
structure Exact (source : String) : Prop where
  /-- A position is the newlines before it, and how far it is from the start of its line. -/
  locate : ∀ offset, ∃ start, StartsLine (Units.utf8 source.toList) offset start ∧
    (ofText source).locate offset =
      (1 + ((Units.utf8 source.toList).take offset).count newline, offset - start + 1)
  /-- Further on in the text is on a later line, or later on the same line. -/
  increasing : ∀ o o', o < o' →
    ((ofText source).locate o).1 < ((ofText source).locate o').1 ∨
      ((ofText source).locate o).1 = ((ofText source).locate o').1 ∧
        ((ofText source).locate o).2 < ((ofText source).locate o').2
  distinct : ∀ o o', (ofText source).locate o = (ofText source).locate o' → o = o'

theorem locate_ofText (source : String) (offset : Nat) :
    (ofText source).locate offset = (ofText source).position offset := by
  apply locate_eq_position
  · rw [starts_ofText]
    exact .cons (fun _ h => lt_of_mem_startsAfterBytes h) (pairwise_startsAfterBytes _ 0)
  · rfl

/-- **Lines and columns are exact**, and no two offsets have the same. -/
theorem exact (source : String) : Exact source := by
  have hlocate : ∀ offset, ∃ start, StartsLine (Units.utf8 source.toList) offset start ∧
      (ofText source).locate offset =
        (1 + ((Units.utf8 source.toList).take offset).count newline, offset - start + 1) := by
    intro offset
    rw [locate_ofText]
    exact position_ofText source offset
  have hincreasing : ∀ o o', o < o' →
      ((ofText source).locate o).1 < ((ofText source).locate o').1 ∨
        ((ofText source).locate o).1 = ((ofText source).locate o').1 ∧
          ((ofText source).locate o).2 < ((ofText source).locate o').2 := by
    intro o o' hlt
    obtain ⟨start, hstart, ho⟩ := hlocate o
    obtain ⟨start', hstart', ho'⟩ := hlocate o'
    rw [ho, ho']
    have hle : ((Units.utf8 source.toList).take o).count newline ≤
        ((Units.utf8 source.toList).take o').count newline :=
      (List.take_sublist_take_left (Nat.le_of_lt hlt)).count_le newline
    rcases Nat.eq_or_lt_of_le hle with heq | hless
    · have hback := (hstart.of_count_eq hlt heq).le_of_startsLine hstart'
      have hfront := hstart'.le_of_startsLine (hstart.of_count_eq hlt heq)
      have hbound := hstart.le
      exact .inr ⟨congrArg (1 + ·) heq, by dsimp only; omega⟩
    · exact .inl (Nat.add_lt_add_left hless 1)
  refine ⟨hlocate, hincreasing, fun o o' heq => ?_⟩
  rcases Nat.lt_trichotomy o o' with hlt | heq' | hlt
  · have := hincreasing o o' hlt
    rw [heq] at this
    omega
  · exact heq'
  · have := hincreasing o' o hlt
    rw [heq] at this
    omega

end LineMap

end Ragged
