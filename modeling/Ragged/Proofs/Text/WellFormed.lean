import Ragged.Proofs.Text.Codec

/-!
# Well-formed code units

Which lists of code units are texts is said here without any reference to decoding: a list is
well-formed if it is one character after the other, and which units make up a character is what the
tables of the encodings say. Those of UTF-8 rule out by ranges of the second byte what would be too
long for its character, too large, or a surrogate.

> A list of units decodes just if it is well-formed, and to the one text that it is the encoding of.

The tables say of a character just what units it has (`isUtf8_iff` and its like). The rest is the
same for all three encodings.
-/

set_option autoImplicit false

namespace Ragged

namespace Units

/-- The units are one character after the other. -/
def WellFormed {α : Type} (isChar : List α → Prop) (units : List α) : Prop :=
  ∃ parts : List (List α), parts.flatten = units ∧ ∀ part ∈ parts, isChar part

/-- A byte that is not the first of its character. -/
def IsTail (b : UInt8) : Prop := 0x80 ≤ b.toNat ∧ b.toNat ≤ 0xBF

/-- The bytes of one character in UTF-8. -/
def IsUtf8 : List UInt8 → Prop
  | [a] => a.toNat ≤ 0x7F
  | [a, b] => 0xC2 ≤ a.toNat ∧ a.toNat ≤ 0xDF ∧ IsTail b
  | [a, b, c] =>
    (a.toNat = 0xE0 ∧ 0xA0 ≤ b.toNat ∧ b.toNat ≤ 0xBF ∨
      0xE1 ≤ a.toNat ∧ a.toNat ≤ 0xEC ∧ IsTail b ∨
      a.toNat = 0xED ∧ 0x80 ≤ b.toNat ∧ b.toNat ≤ 0x9F ∨
      0xEE ≤ a.toNat ∧ a.toNat ≤ 0xEF ∧ IsTail b) ∧ IsTail c
  | [a, b, c, d] =>
    (a.toNat = 0xF0 ∧ 0x90 ≤ b.toNat ∧ b.toNat ≤ 0xBF ∨
      0xF1 ≤ a.toNat ∧ a.toNat ≤ 0xF3 ∧ IsTail b ∨
      a.toNat = 0xF4 ∧ 0x80 ≤ b.toNat ∧ b.toNat ≤ 0x8F) ∧ IsTail c ∧ IsTail d
  | _ => False

/-- The words of one character in UTF-16: one that is no surrogate, or a high and a low surrogate.
-/
def IsUtf16 : List UInt16 → Prop
  | [u] => u.toNat < 0xD800 ∨ 0xE000 ≤ u.toNat
  | [u, v] => (0xD800 ≤ u.toNat ∧ u.toNat ≤ 0xDBFF) ∧ 0xDC00 ≤ v.toNat ∧ v.toNat ≤ 0xDFFF
  | _ => False

/-- The word of one character in UTF-32: a code point that is no surrogate. -/
def IsUtf32 : List UInt32 → Prop
  | [u] => u.toNat < 0xD800 ∨ 0xE000 ≤ u.toNat ∧ u.toNat ≤ 0x10FFFF
  | _ => False

/-! ## Well-formed is encoded -/

section WellFormed

variable {α : Type} {isChar : List α → Prop} {f : Char → List α}

/-- If the table lists the units of characters, what is well-formed are the units of texts. -/
theorem wellFormed_iff (h : ∀ part, isChar part ↔ ∃ c, f c = part) {units : List α} :
    WellFormed isChar units ↔ ∃ cs : List Char, cs.flatMap f = units := by
  constructor
  · rintro ⟨parts, rfl, hparts⟩
    induction parts with
    | nil => exact ⟨[], rfl⟩
    | cons part parts ih =>
      obtain ⟨hpart, hrest⟩ := List.forall_mem_cons.mp hparts
      obtain ⟨c, rfl⟩ := (h part).mp hpart
      obtain ⟨cs, hcs⟩ := ih hrest
      exact ⟨c :: cs, by rw [List.flatMap_cons, hcs, List.flatten_cons]⟩
  · rintro ⟨cs, rfl⟩
    refine ⟨cs.map f, List.flatMap_def.symm, fun part hpart => ?_⟩
    obtain ⟨c, -, rfl⟩ := List.mem_map.mp hpart
    exact (h _).mpr ⟨c, rfl⟩

/-- If what decodes begins with the units of a character each time, it is the units of a text. -/
theorem flatMap_of_decode (decode : List α → Option (List Char)) (hnil : decode [] = some [])
    (hcons : ∀ u rest cs, decode (u :: rest) = some cs → ∃ c rest' cs',
      f c ++ rest' = u :: rest ∧ cs = c :: cs' ∧ decode rest' = some cs')
    {units : List α} {cs : List Char} (h : decode units = some cs) : cs.flatMap f = units := by
  induction cs generalizing units with
  | nil =>
    cases units with
    | nil => rfl
    | cons u rest =>
      obtain ⟨c, rest', cs', -, hcs, -⟩ := hcons u rest [] h
      exact absurd hcs (by simp)
  | cons c cs ih =>
    cases units with
    | nil => exact absurd (hnil.symm.trans h) (by simp)
    | cons u rest =>
      obtain ⟨c', rest', cs', hunits, hcs, hrest⟩ := hcons u rest _ h
      obtain ⟨rfl, rfl⟩ := List.cons.inj hcs
      rw [List.flatMap_cons, ih hrest, hunits]

end WellFormed

theorem toNat_ofNat_of_isValidChar {n : Nat} (h : n.isValidChar) : (Char.ofNat n).toNat = n := by
  rw [Char.ofNat, dif_pos h]
  rfl

theorem ofNat_eq_byte {n : Nat} {a : UInt8} (h : n = a.toNat) : UInt8.ofNat n = a := by
  rw [h, UInt8.ofNat_toNat]

theorem ofNat_eq_word {n : Nat} {u : UInt16} (h : n = u.toNat) : UInt16.ofNat n = u := by
  rw [h, UInt16.ofNat_toNat]

/-! ## UTF-8 -/

section Utf8

variable {ch : Char} {a b c d : UInt8}

theorem utf8_one (ha : a.toNat < 0x80) (hch : ch.toNat = a.toNat) :
    String.utf8EncodeChar ch = [a] := by
  have hval : ch.val.toNat = a.toNat := hch
  simp only [String.utf8EncodeChar, hval]
  rw [if_pos (by omega), UInt8.ofNat_toNat]

theorem utf8_two (ha : 0xC0 ≤ a.toNat) (ha' : a.toNat < 0xE0) (hb : IsTail b)
    (hch : ch.toNat = (a.toNat - 0xC0) * 64 + (b.toNat - 0x80)) (hleast : 0x80 ≤ ch.toNat) :
    String.utf8EncodeChar ch = [a, b] := by
  obtain ⟨hb, hb'⟩ := hb
  have hval : ch.val.toNat = ch.toNat := rfl
  have h1 : UInt8.ofNat (ch.toNat / 64 % 0x20 + 0xc0) = a := ofNat_eq_byte (by omega)
  have h2 : UInt8.ofNat (ch.toNat % 0x40 + 0x80) = b := ofNat_eq_byte (by omega)
  simp only [String.utf8EncodeChar, hval]
  rw [if_neg (by omega), if_pos (by omega), h1, h2]

theorem utf8_three (ha : 0xE0 ≤ a.toNat) (ha' : a.toNat < 0xF0) (hb : IsTail b) (hc : IsTail c)
    (hch : ch.toNat = ((a.toNat - 0xE0) * 64 + (b.toNat - 0x80)) * 64 + (c.toNat - 0x80))
    (hleast : 0x800 ≤ ch.toNat) : String.utf8EncodeChar ch = [a, b, c] := by
  obtain ⟨hb, hb'⟩ := hb
  obtain ⟨hc, hc'⟩ := hc
  have hval : ch.val.toNat = ch.toNat := rfl
  have h1 : UInt8.ofNat (ch.toNat / 4096 % 0x10 + 0xe0) = a := ofNat_eq_byte (by omega)
  have h2 : UInt8.ofNat (ch.toNat / 64 % 0x40 + 0x80) = b := ofNat_eq_byte (by omega)
  have h3 : UInt8.ofNat (ch.toNat % 0x40 + 0x80) = c := ofNat_eq_byte (by omega)
  simp only [String.utf8EncodeChar, hval]
  rw [if_neg (by omega), if_neg (by omega), if_pos (by omega), h1, h2, h3]

theorem utf8_four (ha : 0xF0 ≤ a.toNat) (ha' : a.toNat < 0xF8) (hb : IsTail b) (hc : IsTail c)
    (hd : IsTail d)
    (hch : ch.toNat = (((a.toNat - 0xF0) * 64 + (b.toNat - 0x80)) * 64 + (c.toNat - 0x80)) * 64 +
      (d.toNat - 0x80)) (hleast : 0x10000 ≤ ch.toNat) :
    String.utf8EncodeChar ch = [a, b, c, d] := by
  obtain ⟨hb, hb'⟩ := hb
  obtain ⟨hc, hc'⟩ := hc
  obtain ⟨hd, hd'⟩ := hd
  have hval : ch.val.toNat = ch.toNat := rfl
  have h1 : UInt8.ofNat (ch.toNat / 262144 % 0x08 + 0xf0) = a := ofNat_eq_byte (by omega)
  have h2 : UInt8.ofNat (ch.toNat / 4096 % 0x40 + 0x80) = b := ofNat_eq_byte (by omega)
  have h3 : UInt8.ofNat (ch.toNat / 64 % 0x40 + 0x80) = c := ofNat_eq_byte (by omega)
  have h4 : UInt8.ofNat (ch.toNat % 0x40 + 0x80) = d := ofNat_eq_byte (by omega)
  simp only [String.utf8EncodeChar, hval]
  rw [if_neg (by omega), if_neg (by omega), if_neg (by omega), h1, h2, h3, h4]

end Utf8

theorem isUtf8_utf8EncodeChar (c : Char) : IsUtf8 (String.utf8EncodeChar c) := by
  have hvalid : c.toNat < 0xd800 ∨ 0xdfff < c.toNat ∧ c.toNat < 0x110000 := c.valid
  have hval : c.val.toNat = c.toNat := rfl
  simp only [String.utf8EncodeChar, hval]
  split
  · simp only [IsUtf8, UInt8.toNat_ofNat']
    omega
  split
  · simp only [IsUtf8, IsTail, UInt8.toNat_ofNat']
    omega
  split
  · simp only [IsUtf8, IsTail, UInt8.toNat_ofNat']
    omega
  · simp only [IsUtf8, IsTail, UInt8.toNat_ofNat']
    omega

theorem exists_of_isUtf8 {part : List UInt8} (h : IsUtf8 part) :
    ∃ c, String.utf8EncodeChar c = part := by
  match part, h with
  | [a], h =>
    have hvalid : a.toNat.isValidChar := .inl (Nat.lt_of_le_of_lt h (by decide))
    exact ⟨_, utf8_one (Nat.lt_succ_of_le h) (toNat_ofNat_of_isValidChar hvalid)⟩
  | [a, b], ⟨ha, ha', hb, hb'⟩ =>
    have hvalid : ((a.toNat - 0xC0) * 64 + (b.toNat - 0x80)).isValidChar := .inl (by omega)
    have hch := toNat_ofNat_of_isValidChar hvalid
    exact ⟨_, utf8_two (by omega) (by omega) ⟨hb, hb'⟩ hch (by omega)⟩
  | [a, b, c], ⟨hab, hc⟩ =>
    have hb : IsTail b := by
      unfold IsTail at *
      omega
    obtain ⟨hc, hc'⟩ := hc
    have hvalid : (((a.toNat - 0xE0) * 64 + (b.toNat - 0x80)) * 64 +
        (c.toNat - 0x80)).isValidChar := by
      simp only [Nat.isValidChar, IsTail] at *
      omega
    have hch := toNat_ofNat_of_isValidChar hvalid
    exact ⟨_, utf8_three (by omega) (by omega) hb ⟨hc, hc'⟩ hch (by omega)⟩
  | [a, b, c, d], ⟨hab, hc, hd⟩ =>
    have hb : IsTail b := by
      unfold IsTail at *
      omega
    obtain ⟨hc, hc'⟩ := hc
    obtain ⟨hd, hd'⟩ := hd
    have hvalid : ((((a.toNat - 0xF0) * 64 + (b.toNat - 0x80)) * 64 + (c.toNat - 0x80)) * 64 +
        (d.toNat - 0x80)).isValidChar := by
      simp only [Nat.isValidChar, IsTail] at *
      omega
    have hch := toNat_ofNat_of_isValidChar hvalid
    exact ⟨_, utf8_four (by omega) (by omega) hb ⟨hc, hc'⟩ ⟨hd, hd'⟩ hch (by omega)⟩

theorem isUtf8_iff (part : List UInt8) : IsUtf8 part ↔ ∃ c, String.utf8EncodeChar c = part := by
  constructor
  · exact exists_of_isUtf8
  · rintro ⟨c, rfl⟩
    exact isUtf8_utf8EncodeChar c

theorem continuation?_eq_some {b : UInt8} {k : Nat} (h : continuation? b = some k) :
    IsTail b ∧ k = b.toNat - 0x80 := by
  unfold continuation? at h
  split at h
  next hb => exact ⟨⟨hb.1, by omega⟩, (Option.some.inj h).symm⟩
  next => exact absurd h (by simp)

theorem charAbove?_eq_some {least n : Nat} {c : Char} (h : charAbove? least n = some c) :
    least ≤ n ∧ c.toNat = n := by
  unfold charAbove? at h
  split at h
  next hn =>
    obtain ⟨hle, hvalid⟩ := hn
    exact ⟨hle, by rw [← Option.some.inj h, toNat_ofNat_of_isValidChar hvalid]⟩
  next => exact absurd h (by simp)

/-- What decodes begins with the bytes of a character. -/
theorem decodeUtf8_cons {a : UInt8} {rest : List UInt8} {cs : List Char}
    (h : decodeUtf8 (a :: rest) = some cs) : ∃ c rest' cs',
      String.utf8EncodeChar c ++ rest' = a :: rest ∧ cs = c :: cs' ∧
        decodeUtf8 rest' = some cs' := by
  unfold decodeUtf8 at h
  dsimp only at h
  split at h
  next h1 =>
    obtain ⟨cs', hrest, heq⟩ := Option.bind_eq_some_iff.mp h
    have hch := toNat_ofNat_of_isValidChar (n := a.toNat) (.inl (by omega))
    exact ⟨_, rest, cs', by rw [utf8_one h1 hch]; rfl, (Option.some.inj heq).symm, hrest⟩
  next h1 =>
  split at h
  next => exact absurd h (by simp)
  next h2 =>
  split at h
  next h3 =>
    split at h
    next b rest =>
      simp only [Option.bind_eq_bind, Option.bind_eq_some_iff] at h
      obtain ⟨k, hb, c, hc, cs', hrest, heq⟩ := h
      obtain ⟨hb, hk⟩ := continuation?_eq_some hb
      obtain ⟨hleast, hch⟩ := charAbove?_eq_some hc
      have hunits := utf8_two (by omega) h3 hb (by rw [hch, hk]) (by omega)
      exact ⟨c, rest, cs', by rw [hunits]; rfl, (Option.some.inj heq).symm, hrest⟩
    next => exact absurd h (by simp)
  next h3 =>
  split at h
  next h4 =>
    split at h
    next b c rest =>
      simp only [Option.bind_eq_bind, Option.bind_eq_some_iff] at h
      obtain ⟨k, hb, l, hc, ch, hch, cs', hrest, heq⟩ := h
      obtain ⟨hb, hk⟩ := continuation?_eq_some hb
      obtain ⟨hc, hl⟩ := continuation?_eq_some hc
      obtain ⟨hleast, hch⟩ := charAbove?_eq_some hch
      have hunits := utf8_three (by omega) h4 hb hc (by rw [hch, hk, hl]) (by omega)
      exact ⟨ch, rest, cs', by rw [hunits]; rfl, (Option.some.inj heq).symm, hrest⟩
    next => exact absurd h (by simp)
  next h4 =>
  split at h
  next h5 =>
    split at h
    next b c d rest =>
      simp only [Option.bind_eq_bind, Option.bind_eq_some_iff] at h
      obtain ⟨k, hb, l, hc, m, hd, ch, hch, cs', hrest, heq⟩ := h
      obtain ⟨hb, hk⟩ := continuation?_eq_some hb
      obtain ⟨hc, hl⟩ := continuation?_eq_some hc
      obtain ⟨hd, hm⟩ := continuation?_eq_some hd
      obtain ⟨hleast, hch⟩ := charAbove?_eq_some hch
      have hunits := utf8_four (by omega) h5 hb hc hd (by rw [hch, hk, hl, hm]) (by omega)
      exact ⟨ch, rest, cs', by rw [hunits]; rfl, (Option.some.inj heq).symm, hrest⟩
    next => exact absurd h (by simp)
  next => exact absurd h (by simp)

/-- **What decodes is what the text is encoded as.** -/
theorem decodeUtf8_eq_some_iff {bs : List UInt8} {cs : List Char} :
    decodeUtf8 bs = some cs ↔ utf8 cs = bs := by
  constructor
  · exact flatMap_of_decode decodeUtf8 rfl fun _ _ _ => decodeUtf8_cons
  · rintro rfl
    exact decodeUtf8_utf8 cs

/-! ## UTF-16 -/

theorem utf16_one {c : Char} {u : UInt16} (hc : c.toNat = u.toNat) : utf16Char c = [u] := by
  have hlt := u.toNat_lt
  rw [utf16Char, if_pos (by omega), ofNat_eq_word hc]

theorem utf16_two {c : Char} {u v : UInt16} (hu : 0xD800 ≤ u.toNat) (hv : 0xDC00 ≤ v.toNat)
    (hv' : v.toNat < 0xE000)
    (hc : c.toNat = 0x10000 + (u.toNat - 0xD800) * 0x400 + (v.toNat - 0xDC00)) :
    utf16Char c = [u, v] := by
  have hhigh : UInt16.ofNat (0xD800 + (c.toNat - 0x10000) / 0x400) = u := ofNat_eq_word (by omega)
  have hlow : UInt16.ofNat (0xDC00 + (c.toNat - 0x10000) % 0x400) = v := ofNat_eq_word (by omega)
  simp only [utf16Char, hhigh, hlow]
  rw [if_neg (by omega)]

theorem isUtf16_iff (part : List UInt16) : IsUtf16 part ↔ ∃ c, utf16Char c = part := by
  constructor
  · intro h
    match part, h with
    | [u], h =>
      have hlt := u.toNat_lt
      have hvalid : u.toNat.isValidChar := by
        simp only [IsUtf16, Nat.isValidChar] at h ⊢
        omega
      exact ⟨_, utf16_one (toNat_ofNat_of_isValidChar hvalid)⟩
    | [u, v], ⟨⟨hu, hu'⟩, hv, hv'⟩ =>
      have hvalid : (0x10000 + (u.toNat - 0xD800) * 0x400 + (v.toNat - 0xDC00)).isValidChar :=
        .inr (by omega)
      exact ⟨_, utf16_two hu hv (by omega) (toNat_ofNat_of_isValidChar hvalid)⟩
  · rintro ⟨c, rfl⟩
    have hvalid : c.toNat < 0xd800 ∨ 0xdfff < c.toNat ∧ c.toNat < 0x110000 := c.valid
    simp only [utf16Char]
    split
    · simp only [IsUtf16, UInt16.toNat_ofNat']
      omega
    · simp only [IsUtf16, UInt16.toNat_ofNat']
      omega

theorem decodeUtf16_cons {u : UInt16} {rest : List UInt16} {cs : List Char}
    (h : decodeUtf16 (u :: rest) = some cs) : ∃ c rest' cs',
      utf16Char c ++ rest' = u :: rest ∧ cs = c :: cs' ∧ decodeUtf16 rest' = some cs' := by
  have hlt := u.toNat_lt
  unfold decodeUtf16 at h
  split at h
  next hhigh =>
    simp only [isHigh, Bool.and_eq_true, decide_eq_true_eq] at hhigh
    split at h
    next v rest =>
      split at h
      next hlow =>
        simp only [isLow, Bool.and_eq_true, decide_eq_true_eq] at hlow
        obtain ⟨cs', hrest, heq⟩ := Option.bind_eq_some_iff.mp h
        have hvalid : (0x10000 + (u.toNat - 0xD800) * 0x400 + (v.toNat - 0xDC00)).isValidChar :=
          .inr (by omega)
        refine ⟨_, rest, cs', ?_, (Option.some.inj heq).symm, hrest⟩
        rw [utf16_two hhigh.1 hlow.1 hlow.2 (toNat_ofNat_of_isValidChar hvalid)]
        rfl
      next => exact absurd h (by simp)
    next => exact absurd h (by simp)
  next hhigh =>
  split at h
  next => exact absurd h (by simp)
  next hlow =>
    simp only [isHigh, isLow, Bool.and_eq_true, decide_eq_true_eq] at hhigh hlow
    obtain ⟨cs', hrest, heq⟩ := Option.bind_eq_some_iff.mp h
    have hvalid : u.toNat.isValidChar := by
      unfold Nat.isValidChar
      omega
    refine ⟨_, rest, cs', ?_, (Option.some.inj heq).symm, hrest⟩
    rw [utf16_one (toNat_ofNat_of_isValidChar hvalid)]
    rfl

theorem decodeUtf16_eq_some_iff {us : List UInt16} {cs : List Char} :
    decodeUtf16 us = some cs ↔ utf16 cs = us := by
  constructor
  · exact flatMap_of_decode decodeUtf16 rfl fun _ _ _ => decodeUtf16_cons
  · rintro rfl
    exact decodeUtf16_utf16 cs

/-! ## UTF-32 -/

theorem isUtf32_iff (part : List UInt32) : IsUtf32 part ↔ ∃ c : Char, [c.val] = part := by
  constructor
  · intro h
    match part, h with
    | [u], h =>
      have hvalid : u.toNat.isValidChar := by
        simp only [IsUtf32, Nat.isValidChar] at h ⊢
        omega
      exact ⟨⟨u, hvalid⟩, rfl⟩
  · rintro ⟨c, rfl⟩
    have hvalid : c.val.toNat < 0xd800 ∨ 0xdfff < c.val.toNat ∧ c.val.toNat < 0x110000 := c.valid
    simp only [IsUtf32]
    omega

theorem decodeUtf32_cons {u : UInt32} {rest : List UInt32} {cs : List Char}
    (h : decodeUtf32 (u :: rest) = some cs) : ∃ c rest' cs',
      [c.val] ++ rest' = u :: rest ∧ cs = c :: cs' ∧ decodeUtf32 rest' = some cs' := by
  unfold decodeUtf32 at h
  split at h
  next hvalid =>
    obtain ⟨cs', hrest, heq⟩ := Option.bind_eq_some_iff.mp h
    have hval : (Char.ofNat u.toNat).val = u :=
      UInt32.toNat_inj.mp (toNat_ofNat_of_isValidChar hvalid)
    exact ⟨_, rest, cs', by rw [hval]; rfl, (Option.some.inj heq).symm, hrest⟩
  next => exact absurd h (by simp)

theorem decodeUtf32_eq_some_iff {us : List UInt32} {cs : List Char} :
    decodeUtf32 us = some cs ↔ utf32 cs = us := by
  rw [utf32_eq_flatMap]
  constructor
  · exact flatMap_of_decode decodeUtf32 rfl fun _ _ _ => decodeUtf32_cons
  · rintro rfl
    rw [← utf32_eq_flatMap, decodeUtf32_utf32]

end Units

end Ragged
