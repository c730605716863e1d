import Mathlib.Data.List.Induction
import Ragged.Leaf.Text

/-!
# What is encoded decodes again

Code units first, one encoding after the other, and then texts of fixed width. The fact about the
units is the same each time,

> decoding the units of some characters gives these characters back,

and for UTF-8 and UTF-16 it is proved one character at a time: the units of a character, with any
others behind them, decode to that character and to what the others decode to.

The zeros that fill a text up to its width come off again because zero units are just what the
character zero is encoded as: to drop the zero units at the end of a text is to drop its zero
characters there (`dropTrailing_flatMap`). So decoding never fails on what encoding wrote.
-/

set_option autoImplicit false

namespace Ragged

namespace Units

/-! ## UTF-8 -/

theorem toNat_byte {n : Nat} (h : n < 256) : (UInt8.ofNat n).toNat = n :=
  UInt8.toNat_ofNat_of_lt' h

theorem continuation?_ofNat {n : Nat} (h : n < 64) :
    continuation? (UInt8.ofNat (n + 0x80)) = some n := by
  have hn : (UInt8.ofNat (n + 0x80)).toNat = n + 0x80 := toNat_byte (by omega)
  simp only [continuation?, hn]
  rw [if_pos (by omega), Nat.add_sub_cancel]

theorem charAbove?_of_eq {least n : Nat} {c : Char} (hn : n = c.toNat) (h : least ≤ c.toNat) :
    charAbove? least n = some c := by
  unfold charAbove?
  rw [hn, if_pos ⟨h, c.valid⟩, Char.ofNat_toNat]

/-! What a lead byte says is what comes: it and so many continuation bytes are one character, in front
of others. -/

section Lead

variable {a b c d : UInt8} {ch : Char} {i j k : Nat}

theorem decodeUtf8_lead_two (rest : List UInt8) (ha : 0xC0 ≤ a.toNat) (ha' : a.toNat < 0xE0)
    (hb : continuation? b = some i)
    (hch : charAbove? 0x80 ((a.toNat - 0xC0) * 64 + i) = some ch) :
    decodeUtf8 (a :: b :: rest) = (decodeUtf8 rest).map (ch :: ·) := by
  rw [decodeUtf8.eq_def]
  dsimp only
  rw [if_neg (by omega), if_neg (by omega), if_pos ha', hb]
  simp only [Option.bind_eq_bind, Option.bind_some, hch]
  cases decodeUtf8 rest <;> rfl

theorem decodeUtf8_lead_three (rest : List UInt8) (ha : 0xE0 ≤ a.toNat) (ha' : a.toNat < 0xF0)
    (hb : continuation? b = some i) (hc : continuation? c = some j)
    (hch : charAbove? 0x800 (((a.toNat - 0xE0) * 64 + i) * 64 + j) = some ch) :
    decodeUtf8 (a :: b :: c :: rest) = (decodeUtf8 rest).map (ch :: ·) := by
  rw [decodeUtf8.eq_def]
  dsimp only
  rw [if_neg (by omega), if_neg (by omega), if_neg (by omega), if_pos ha', hb, hc]
  simp only [Option.bind_eq_bind, Option.bind_some, hch]
  cases decodeUtf8 rest <;> rfl

theorem decodeUtf8_lead_four (rest : List UInt8) (ha : 0xF0 ≤ a.toNat) (ha' : a.toNat < 0xF8)
    (hb : continuation? b = some i) (hc : continuation? c = some j) (hd : continuation? d = some k)
    (hch : charAbove? 0x10000 ((((a.toNat - 0xF0) * 64 + i) * 64 + j) * 64 + k) = some ch) :
    decodeUtf8 (a :: b :: c :: d :: rest) = (decodeUtf8 rest).map (ch :: ·) := by
  rw [decodeUtf8.eq_def]
  dsimp only
  rw [if_neg (by omega), if_neg (by omega), if_neg (by omega), if_neg (by omega), if_pos ha', hb,
    hc, hd]
  simp only [Option.bind_eq_bind, Option.bind_some, hch]
  cases decodeUtf8 rest <;> rfl

end Lead

/-- The bytes of a character in front of others. The cases are those of how many bytes it has. -/
theorem decodeUtf8_encodeChar_append (c : Char) (rest : List UInt8) :
    decodeUtf8 (String.utf8EncodeChar c ++ rest) = (decodeUtf8 rest).map (c :: ·) := by
  have hmax : c.toNat < 0x110000 := by
    rcases c.valid with h | h
    · exact Nat.lt_trans h (by decide)
    · exact h.2
  have hval : c.val.toNat = c.toNat := rfl
  simp only [String.utf8EncodeChar, hval]
  split
  next h1 =>
    have hlead : (UInt8.ofNat c.toNat).toNat = c.toNat := toNat_byte (by omega)
    rw [List.singleton_append, decodeUtf8_lead_one rest (by omega), hlead, Char.ofNat_toNat]
  next h1 =>
  split
  next h2 =>
    have hlead : (UInt8.ofNat (c.toNat / 64 % 0x20 + 0xc0)).toNat = c.toNat / 64 + 0xc0 := by
      rw [toNat_byte (by omega)]
      omega
    exact decodeUtf8_lead_two rest (by omega) (by omega) (continuation?_ofNat (by omega))
      (charAbove?_of_eq (by omega) (by omega))
  next h2 =>
  split
  next h3 =>
    have hlead : (UInt8.ofNat (c.toNat / 4096 % 0x10 + 0xe0)).toNat = c.toNat / 4096 + 0xe0 := by
      rw [toNat_byte (by omega)]
      omega
    exact decodeUtf8_lead_three rest (by omega) (by omega) (continuation?_ofNat (by omega))
      (continuation?_ofNat (by omega)) (charAbove?_of_eq (by omega) (by omega))
  next h3 =>
    have hlead : (UInt8.ofNat (c.toNat / 262144 % 0x08 + 0xf0)).toNat = c.toNat / 262144 + 0xf0 := by
      rw [toNat_byte (by omega)]
      omega
    exact decodeUtf8_lead_four rest (by omega) (by omega) (continuation?_ofNat (by omega))
      (continuation?_ofNat (by omega)) (continuation?_ofNat (by omega))
      (charAbove?_of_eq (by omega) (by omega))

theorem decodeUtf8_utf8 (cs : List Char) : decodeUtf8 (utf8 cs) = some cs := by
  induction cs with
  | nil => rfl
  | cons c cs ih =>
    show decodeUtf8 (String.utf8EncodeChar c ++ utf8 cs) = some (c :: cs)
    rw [decodeUtf8_encodeChar_append, ih, Option.map_some]

/-- No byte of another character is that of a character of ASCII. -/
theorem ne_of_mem_utf8EncodeChar {c : Char} {n : Nat} (hn : n < 128) (hc : c.toNat ≠ n) :
    ∀ u ∈ String.utf8EncodeChar c, u ≠ UInt8.ofNat n := by
  have hval : c.val.toNat = c.toNat := rfl
  have hbyte {m : Nat} (hm : m < 256) (hne : m ≠ n) : UInt8.ofNat m ≠ UInt8.ofNat n := by
    intro he
    rw [← toNat_byte hm, he, toNat_byte (Nat.lt_trans hn (by decide))] at hne
    exact hne rfl
  intro u hu
  simp only [String.utf8EncodeChar, hval] at hu
  split at hu
  · rw [List.mem_singleton] at hu
    exact hu ▸ hbyte (by omega) hc
  split at hu
  · simp only [List.mem_cons, List.not_mem_nil, or_false] at hu
    rcases hu with rfl | rfl <;> exact hbyte (by omega) (by omega)
  split at hu
  · simp only [List.mem_cons, List.not_mem_nil, or_false] at hu
    rcases hu with rfl | rfl | rfl <;> exact hbyte (by omega) (by omega)
  · simp only [List.mem_cons, List.not_mem_nil, or_false] at hu
    rcases hu with rfl | rfl | rfl | rfl <;> exact hbyte (by omega) (by omega)

/-- No byte of a character other than zero is zero. -/
theorem ne_zero_of_mem_utf8EncodeChar {c : Char} (hc : c ≠ '\x00') :
    ∀ u ∈ String.utf8EncodeChar c, u ≠ 0 :=
  ne_of_mem_utf8EncodeChar (by decide) fun h => hc (Char.toNat_inj.mp h)

/-! ## UTF-16 -/

theorem toNat_word {n : Nat} (h : n < 65536) : (UInt16.ofNat n).toNat = n :=
  UInt16.toNat_ofNat_of_lt' h

theorem decodeUtf16_utf16Char_append (c : Char) (rest : List UInt16) :
    decodeUtf16 (utf16Char c ++ rest) = (decodeUtf16 rest).map (c :: ·) := by
  have hvalid : c.toNat < 0xd800 ∨ 0xdfff < c.toNat ∧ c.toNat < 0x110000 := c.valid
  unfold utf16Char
  by_cases hplane : c.toNat < 0x10000
  · rw [if_pos hplane, List.singleton_append, decodeUtf16.eq_def]
    have hn := toNat_word hplane
    have hhigh : isHigh (UInt16.ofNat c.toNat) = false := by
      simp only [isHigh, hn, Bool.and_eq_false_iff, decide_eq_false_iff_not]
      omega
    have hlow : isLow (UInt16.ofNat c.toNat) = false := by
      simp only [isLow, hn, Bool.and_eq_false_iff, decide_eq_false_iff_not]
      omega
    simp only [hhigh, hlow, hn, Bool.false_eq_true, if_false, Char.ofNat_toNat]
    cases decodeUtf16 rest <;> rfl
  · rw [if_neg hplane]
    have hn : (UInt16.ofNat (0xD800 + (c.toNat - 0x10000) / 0x400)).toNat
        = 0xD800 + (c.toNat - 0x10000) / 0x400 := toNat_word (by omega)
    have hm : (UInt16.ofNat (0xDC00 + (c.toNat - 0x10000) % 0x400)).toNat
        = 0xDC00 + (c.toNat - 0x10000) % 0x400 := toNat_word (by omega)
    have hhigh : isHigh (UInt16.ofNat (0xD800 + (c.toNat - 0x10000) / 0x400)) = true := by
      simp only [isHigh, hn, Bool.and_eq_true, decide_eq_true_eq]
      omega
    have hlow : isLow (UInt16.ofNat (0xDC00 + (c.toNat - 0x10000) % 0x400)) = true := by
      simp only [isLow, hm, Bool.and_eq_true, decide_eq_true_eq]
      omega
    have hsum : 0x10000 + (0xD800 + (c.toNat - 0x10000) / 0x400 - 0xD800) * 0x400
        + (0xDC00 + (c.toNat - 0x10000) % 0x400 - 0xDC00) = c.toNat := by omega
    simp only [List.cons_append, List.nil_append]
    rw [decodeUtf16.eq_def]
    simp only [hhigh, hlow, hn, hm, if_true, hsum, Char.ofNat_toNat]
    cases decodeUtf16 rest <;> rfl

theorem decodeUtf16_utf16 (cs : List Char) : decodeUtf16 (utf16 cs) = some cs := by
  induction cs with
  | nil => rfl
  | cons c cs ih =>
    show decodeUtf16 (utf16Char c ++ utf16 cs) = some (c :: cs)
    rw [decodeUtf16_utf16Char_append, ih, Option.map_some]

theorem utf16Char_ne_nil (c : Char) : utf16Char c ≠ [] := by
  simp only [utf16Char]
  split <;> exact List.cons_ne_nil _ _

theorem ne_zero_of_mem_utf16Char {c : Char} (hc : c ≠ '\x00') : ∀ u ∈ utf16Char c, u ≠ 0 := by
  have hpos : c.toNat ≠ 0 := fun h => hc (Char.toNat_inj.mp h)
  have hmax : c.toNat < 0xd800 ∨ 0xdfff < c.toNat ∧ c.toNat < 0x110000 := c.valid
  have hword {n : Nat} (h : n < 65536) (hn : n ≠ 0) : UInt16.ofNat n ≠ 0 := fun he => hn <| by
    rw [← toNat_word h, he]
    rfl
  intro u hu
  simp only [utf16Char] at hu
  split at hu
  · rw [List.mem_singleton] at hu
    exact hu ▸ hword (by omega) hpos
  · simp only [List.mem_cons, List.not_mem_nil, or_false] at hu
    rcases hu with rfl | rfl <;> exact hword (by omega) (by omega)

/-! ## UTF-32 -/

theorem decodeUtf32_utf32 (cs : List Char) : decodeUtf32 (utf32 cs) = some cs := by
  induction cs with
  | nil => rfl
  | cons c cs ih =>
    have hvalid : c.val.toNat.isValidChar := c.valid
    have hc : Char.ofNat c.val.toNat = c := Char.ofNat_toNat c
    show decodeUtf32 (c.val :: utf32 cs) = some (c :: cs)
    rw [decodeUtf32, if_pos hvalid, ih, hc]
    rfl

theorem utf32_eq_flatMap (cs : List Char) : utf32 cs = cs.flatMap fun c => [c.val] := by
  rw [utf32, List.map_eq_flatMap]

/-! ## Words as bytes -/

theorem words16_bytes16_append (us : List UInt16) (rest : List UInt8) :
    words16 (us.flatMap bytes16 ++ rest) = us ++ words16 rest := by
  induction us with
  | nil => rfl
  | cons u us ih =>
    have hlt := u.toNat_lt
    have hlow : (UInt8.ofNat u.toNat).toNat = u.toNat % 256 := UInt8.toNat_ofNat'
    have hhigh : (UInt8.ofNat (u.toNat / 256)).toNat = u.toNat / 256 := toNat_byte (by omega)
    have hsum : u.toNat % 256 + 256 * (u.toNat / 256) = u.toNat := by omega
    simp only [List.flatMap_cons, bytes16, List.cons_append, List.nil_append, words16, ih, hlow,
      hhigh, hsum, UInt16.ofNat_toNat]

theorem words32_bytes32_append (us : List UInt32) (rest : List UInt8) :
    words32 (us.flatMap bytes32 ++ rest) = us ++ words32 rest := by
  induction us with
  | nil => rfl
  | cons u us ih =>
    have hlt := u.toNat_lt
    have h0 : (UInt8.ofNat u.toNat).toNat = u.toNat % 256 := UInt8.toNat_ofNat'
    have h1 : (UInt8.ofNat (u.toNat / 256)).toNat = u.toNat / 256 % 256 := UInt8.toNat_ofNat'
    have h2 : (UInt8.ofNat (u.toNat / 65536)).toNat = u.toNat / 65536 % 256 := UInt8.toNat_ofNat'
    have h3 : (UInt8.ofNat (u.toNat / 16777216)).toNat = u.toNat / 16777216 :=
      toNat_byte (by omega)
    have hsum : u.toNat % 256 + 256 * (u.toNat / 256 % 256 + 256 * (u.toNat / 65536 % 256
        + 256 * (u.toNat / 16777216))) = u.toNat := by omega
    simp only [List.flatMap_cons, bytes32, List.cons_append, List.nil_append, words32, ih, h0, h1,
      h2, h3, hsum, UInt32.ofNat_toNat]

theorem words16_replicate (n : Nat) : words16 (List.replicate (n * 2) 0) = List.replicate n 0 := by
  induction n with
  | zero => rfl
  | succ n ih =>
    rw [Nat.succ_mul, List.replicate_succ, List.replicate_succ, List.replicate_succ, words16, ih]
    rfl

theorem words32_replicate (n : Nat) : words32 (List.replicate (n * 4) 0) = List.replicate n 0 := by
  induction n with
  | zero => rfl
  | succ n ih =>
    rw [Nat.succ_mul, List.replicate_succ, List.replicate_succ, List.replicate_succ,
      List.replicate_succ, List.replicate_succ, words32, ih]
    rfl

/-! ## Zeros at the end -/

section DropTrailing

variable {α : Type} {p : α → Bool}

theorem dropTrailing_append_replicate (units : List α) {z : α} (hz : p z = true) (n : Nat) :
    dropTrailing p (units ++ List.replicate n z) = dropTrailing p units := by
  unfold dropTrailing
  rw [List.reverse_append, List.reverse_replicate]
  induction n with
  | zero => rfl
  | succ n ih => rw [List.replicate_succ, List.cons_append, List.dropWhile_cons_of_pos hz, ih]

theorem dropTrailing_append_of_forall (units : List α) {last : List α} (hne : last ≠ [])
    (hlast : ∀ u ∈ last, p u = false) : dropTrailing p (units ++ last) = units ++ last := by
  obtain ⟨u, before, hrev⟩ := List.exists_cons_of_ne_nil (mt List.reverse_eq_nil_iff.mp hne)
  have hu : ¬ p u = true := by
    rw [hlast u (List.mem_reverse.mp (hrev ▸ List.mem_cons_self))]
    exact Bool.false_ne_true
  unfold dropTrailing
  rw [List.reverse_append, hrev, List.cons_append, List.dropWhile_cons_of_neg hu, ← List.cons_append,
    ← hrev, ← List.reverse_append, List.reverse_reverse]

end DropTrailing

theorem dropTrailing_append_zeros {α : Type} [BEq α] [LawfulBEq α] (units : List α) (zero : α)
    (n : Nat) : dropTrailing (· == zero) (units ++ List.replicate n zero)
      = dropTrailing (· == zero) units :=
  dropTrailing_append_replicate (p := (· == zero)) units (beq_self_eq_true zero) n

/-- **Zero units at the end are zero characters at the end**, if the character zero is one zero unit
and no other character has any. -/
theorem dropTrailing_flatMap {α : Type} [BEq α] [LawfulBEq α] {zero : α} {f : Char → List α}
    (hzero : f '\x00' = [zero]) (hne : ∀ c, f c ≠ [])
    (hunits : ∀ c, c ≠ '\x00' → ∀ u ∈ f c, u ≠ zero) (cs : List Char) :
    dropTrailing (· == zero) (cs.flatMap f)
      = (dropTrailing (· == '\x00') cs).flatMap f := by
  -- from the end, since that is where the zeros are
  induction cs using List.reverseRecOn with
  | nil => rfl
  | append_singleton cs c ih =>
    rw [List.flatMap_append, List.flatMap_singleton]
    by_cases hc : c = '\x00'
    · subst hc
      have hunit := dropTrailing_append_zeros (cs.flatMap f) zero 1
      have hchar := dropTrailing_append_zeros cs '\x00' 1
      rw [List.replicate_one] at hunit hchar
      rw [hzero, hunit, hchar, ih]
    · rw [dropTrailing_append_of_forall _ (hne c) fun u hu => beq_eq_false_iff_ne.mpr (hunits c hc u hu),
        dropTrailing_append_of_forall cs (List.cons_ne_nil c []) (by simpa using hc),
        List.flatMap_append, List.flatMap_singleton]

end Units

/-! ## Texts -/

namespace Encoding

/-- The bytes of a text are whole code units. -/
theorem unitSize_dvd_length_bytes (e : Encoding) (text : String) :
    e.unitSize ∣ (e.bytes text).length := by
  cases e with
  | ascii | utf8 => exact Nat.one_dvd _
  | utf16 =>
    refine ⟨(Units.utf16 text.toList).length, ?_⟩
    simp only [bytes, List.length_flatMap, Units.bytes16, List.length_cons, List.length_nil,
      List.map_const', List.sum_replicate_nat, unitSize, Nat.mul_comm]
  | utf32 =>
    refine ⟨(Units.utf32 text.toList).length, ?_⟩
    simp only [bytes, List.length_flatMap, Units.bytes32, List.length_cons, List.length_nil,
      List.map_const', List.sum_replicate_nat, unitSize, Nat.mul_comm]

/-- **Decoding what encoding wrote**, filled up with any number of zero units: the text, without the
zero characters at its end. -/
theorem text?_bytes_append_zeros (e : Encoding) (text : String) (n : Nat) :
    e.text? (e.bytes text ++ List.replicate (n * e.unitSize) 0)
      = some (String.ofList (Units.dropTrailing (· == '\x00') text.toList)) := by
  have hutf8 : Units.dropTrailing (· == 0) (Units.utf8 text.toList)
      = Units.utf8 (Units.dropTrailing (· == '\x00') text.toList) :=
    Units.dropTrailing_flatMap rfl (fun _ => String.utf8EncodeChar_ne_nil)
      (fun _ => Units.ne_zero_of_mem_utf8EncodeChar) _
  have hutf16 : Units.dropTrailing (· == 0) (Units.utf16 text.toList)
      = Units.utf16 (Units.dropTrailing (· == '\x00') text.toList) :=
    Units.dropTrailing_flatMap rfl
      Units.utf16Char_ne_nil
      (fun _ => Units.ne_zero_of_mem_utf16Char) _
  have hutf32 : Units.dropTrailing (· == 0) (Units.utf32 text.toList)
      = Units.utf32 (Units.dropTrailing (· == '\x00') text.toList) := by
    rw [Units.utf32_eq_flatMap, Units.utf32_eq_flatMap]
    refine Units.dropTrailing_flatMap rfl (fun _ => List.cons_ne_nil _ _) (fun c hc u hu => ?_) _
    rw [List.mem_singleton.mp hu]
    exact fun h => hc (Char.ext h)
  cases e with
  | ascii | utf8 =>
    simp only [text?, bytes, unitSize, Units.dropTrailing_append_zeros, hutf8,
      Units.decodeUtf8_utf8, Option.map_some]
  | utf16 =>
    simp only [text?, bytes, unitSize, Units.words16_bytes16_append, Units.words16_replicate,
      Units.dropTrailing_append_zeros, hutf16, Units.decodeUtf16_utf16, Option.map_some]
  | utf32 =>
    simp only [text?, bytes, unitSize, Units.words32_bytes32_append, Units.words32_replicate,
      Units.dropTrailing_append_zeros, hutf32, Units.decodeUtf32_utf32, Option.map_some]

end Encoding

/-! ## Fixed width -/

namespace Units

theorem length_resize (size : Nat) (bs : List UInt8) : (resize size bs).length = size := by
  rw [resize, List.length_append, List.length_take, List.length_replicate]
  omega

theorem resize_of_le {size : Nat} {bs : List UInt8} (h : bs.length ≤ size) :
    resize size bs = bs ++ List.replicate (size - bs.length) 0 := by
  rw [resize, List.take_of_length_le h]

end Units

namespace StringType

variable {t : StringType} {text : String} {s : Scalar} {width : Nat}

theorem encode_of_no_width [Machine] (hw : t.width = none) (h : t.encode text = .ok s) :
    s = .text text := by
  unfold encode at h
  split at h
  · exact absurd h (by simp)
  · simp only [hw] at h
    exact (Except.ok.inj h).symm

/-- At a fixed width a text that has no more units is stored in the bytes that the machine finds. -/
theorem encode_of_some [Machine] (hw : t.width = some width) (h : t.encode text = .ok s) :
    (t.encoding.bytes text).length / t.encoding.unitSize ≤ width ∧
      s = .bytes (Units.resize (Machine.bytes width t.encoding.unitSize)
        (t.encoding.bytes text)) := by
  unfold encode at h
  split at h
  · exact absurd h (by simp)
  simp only [hw] at h
  split at h
  · exact absurd h (by simp)
  · rename_i hle
    exact ⟨Nat.le_of_not_lt hle, (Except.ok.inj h).symm⟩

/-- An encoded text is of the kind that the columns of its type have, whatever the machine. -/
theorem kind_of_encode [Machine] (h : t.encode text = .ok s) : s.kind = t.elementKind := by
  cases hw : t.width with
  | none => rw [encode_of_no_width hw h, elementKind, hw]; rfl
  | some width =>
    obtain ⟨-, rfl⟩ := encode_of_some hw h
    simp only [Scalar.kind, elementKind, hw, Units.length_resize]

/-- A text of fixed width is stored as its code units and as many zero units as the width is more.
-/
theorem encode_of_width (hw : t.width = some width) (h : t.encode text = .ok s) :
    ∃ n, (t.encoding.bytes text).length + n * t.encoding.unitSize = width * t.encoding.unitSize ∧
      s = .bytes (t.encoding.bytes text ++ List.replicate (n * t.encoding.unitSize) 0) := by
  obtain ⟨hle, rfl⟩ := encode_of_some hw h
  have hpos : 0 < t.encoding.unitSize := by cases t.encoding <;> decide
  obtain ⟨units, hunits⟩ := t.encoding.unitSize_dvd_length_bytes text
  rw [hunits, Nat.mul_div_cancel_left _ hpos] at hle
  have hlength : (t.encoding.bytes text).length = units * t.encoding.unitSize := by
    rw [hunits, Nat.mul_comm]
  have hrest : width * t.encoding.unitSize - (t.encoding.bytes text).length =
      (width - units) * t.encoding.unitSize := by
    rw [hlength, ← Nat.sub_mul]
  have hfits : (t.encoding.bytes text).length ≤ width * t.encoding.unitSize := by
    rw [hlength]
    exact Nat.mul_le_mul_right _ hle
  refine ⟨width - units, ?_, ?_⟩
  · rw [hlength, ← Nat.add_mul, Nat.add_sub_cancel' hle]
  · rw [← hrest, ← Units.resize_of_le hfits]
    rfl

end StringType

end Ragged
