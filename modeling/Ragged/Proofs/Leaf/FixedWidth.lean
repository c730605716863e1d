import Ragged.Proofs.Leaf.Restored
import Ragged.Proofs.Text.WellFormed

/-!
# Texts of fixed width, there and back

A text is taken at a fixed width if it has no more code units than that; it is stored in as many
bytes as the width says and comes back but for the zeros at its end. The other way it is said of any
bytes of that size, wherever they are from:

> bytes that decode are those the text is stored as, zeros at the end included, and bytes that do
> not decode are not well-formed.

Both are about what is left when the zero units at the end are dropped, and what was dropped can
only have been filled up with (`Units.exists_dropTrailing_append`). Zero bytes would not do for
units, since a word may end in one.
-/

set_option autoImplicit false

namespace Ragged

namespace Units

/-! ## Words from bytes -/

theorem bytes16_ofNat (a b : UInt8) :
    bytes16 (UInt16.ofNat (a.toNat + 256 * b.toNat)) = [a, b] := by
  have ha := a.toNat_lt
  have hb := b.toNat_lt
  have hword : (UInt16.ofNat (a.toNat + 256 * b.toNat)).toNat = a.toNat + 256 * b.toNat :=
    toNat_word (by omega)
  have hlow : UInt8.ofNat (a.toNat + 256 * b.toNat) = a := by
    apply UInt8.toNat_inj.mp
    rw [UInt8.toNat_ofNat']
    omega
  have hhigh : UInt8.ofNat ((a.toNat + 256 * b.toNat) / 256) = b := ofNat_eq_byte (by omega)
  rw [bytes16, hword, hlow, hhigh]

theorem bytes32_ofNat (a b c d : UInt8) :
    bytes32 (UInt32.ofNat (a.toNat + 256 * (b.toNat + 256 * (c.toNat + 256 * d.toNat)))) =
      [a, b, c, d] := by
  have ha := a.toNat_lt
  have hb := b.toNat_lt
  have hc := c.toNat_lt
  have hd := d.toNat_lt
  generalize hn : a.toNat + 256 * (b.toNat + 256 * (c.toNat + 256 * d.toNat)) = n
  have hlt : n < 4294967296 := by omega
  have hword : (UInt32.ofNat n).toNat = n := UInt32.toNat_ofNat_of_lt' hlt
  have h0 : UInt8.ofNat n = a := by
    apply UInt8.toNat_inj.mp
    rw [UInt8.toNat_ofNat']
    omega
  have h1 : UInt8.ofNat (n / 256) = b := by
    apply UInt8.toNat_inj.mp
    rw [UInt8.toNat_ofNat']
    omega
  have h2 : UInt8.ofNat (n / 65536) = c := by
    apply UInt8.toNat_inj.mp
    rw [UInt8.toNat_ofNat']
    omega
  have h3 : UInt8.ofNat (n / 16777216) = d := ofNat_eq_byte (by omega)
  simp only [bytes32, hword, h0, h1, h2, h3]

/-- Of a number of bytes that makes up words all are in words. -/
theorem flatMap_words16 (n : Nat) : ∀ {bs : List UInt8}, bs.length = n * 2 →
    (words16 bs).flatMap bytes16 = bs := by
  induction n with
  | zero =>
    intro bs h
    obtain rfl := List.length_eq_zero_iff.mp (h.trans (Nat.zero_mul 2))
    rfl
  | succ n ih =>
    intro bs h
    match bs, h with
    | a :: b :: rest, h =>
      have hrest : rest.length = n * 2 := by
        simp only [List.length_cons] at h
        omega
      rw [words16, List.flatMap_cons, bytes16_ofNat, ih hrest]
      rfl
    | [_], h => exact absurd h (by simp only [List.length_cons, List.length_nil]; omega)
    | [], h => exact absurd h (by simp only [List.length_nil]; omega)

theorem flatMap_words32 (n : Nat) : ∀ {bs : List UInt8}, bs.length = n * 4 →
    (words32 bs).flatMap bytes32 = bs := by
  induction n with
  | zero =>
    intro bs h
    obtain rfl := List.length_eq_zero_iff.mp (h.trans (Nat.zero_mul 4))
    rfl
  | succ n ih =>
    intro bs h
    match bs, h with
    | a :: b :: c :: d :: rest, h =>
      have hrest : rest.length = n * 4 := by
        simp only [List.length_cons] at h
        omega
      rw [words32, List.flatMap_cons, bytes32_ofNat, ih hrest]
      rfl
    | [_, _, _], h | [_, _], h | [_], h =>
      exact absurd h (by simp only [List.length_cons, List.length_nil]; omega)
    | [], h => exact absurd h (by simp only [List.length_nil]; omega)

/-! ## Zeros dropped and filled up with -/

section Zeros

variable {α : Type} [BEq α] [LawfulBEq α]

theorem exists_dropTrailing_append (zero : α) (units : List α) :
    ∃ k, units = dropTrailing (· == zero) units ++ List.replicate k zero := by
  refine ⟨(units.reverse.takeWhile (· == zero)).length, ?_⟩
  have hzeros : units.reverse.takeWhile (· == zero) =
      List.replicate (units.reverse.takeWhile (· == zero)).length zero :=
    List.eq_replicate_length.mpr fun u hu =>
      eq_of_beq (List.mem_takeWhile_imp (p := (· == zero)) hu)
  rw [dropTrailing, ← List.reverse_replicate, ← hzeros, ← List.reverse_append,
    List.takeWhile_append_dropWhile, List.reverse_reverse]

/-- In bytes, what was dropped are so many zero units of zero bytes. -/
theorem exists_zeros (zero : α) (toBytes : α → List UInt8) (size : Nat)
    (hzero : toBytes zero = List.replicate size 0) (units : List α) :
    ∃ k, units.flatMap toBytes = (dropTrailing (· == zero) units).flatMap toBytes ++
      List.replicate (k * size) 0 := by
  obtain ⟨k, hk⟩ := exists_dropTrailing_append zero units
  have hzeros : (List.replicate k zero).flatMap toBytes = List.replicate (k * size) 0 := by
    clear hk
    induction k with
    | zero => rw [Nat.zero_mul]; rfl
    | succ k ih =>
      rw [List.replicate_succ, List.flatMap_cons, ih, hzero, List.replicate_append_replicate,
        Nat.succ_mul, Nat.add_comm]
  refine ⟨k, ?_⟩
  rw [← hzeros, ← List.flatMap_append, ← hk]

end Zeros

/-- A character with small bytes only is a small character. -/
theorem toNat_lt_of_utf8EncodeChar {c : Char} (h : ∀ b ∈ String.utf8EncodeChar c, b.toNat < 128) :
    c.toNat < 128 := by
  have hmax : c.toNat < 0xd800 ∨ 0xdfff < c.toNat ∧ c.toNat < 0x110000 := c.valid
  have hval : c.val.toNat = c.toNat := rfl
  simp only [String.utf8EncodeChar, hval] at h
  split at h
  next hle => exact Nat.lt_succ_of_le hle
  split at h
  · have hlead := h _ List.mem_cons_self
    rw [toNat_byte (by omega)] at hlead
    omega
  split at h
  · have hlead := h _ List.mem_cons_self
    rw [toNat_byte (by omega)] at hlead
    omega
  · have hlead := h _ List.mem_cons_self
    rw [toNat_byte (by omega)] at hlead
    omega

end Units

namespace Encoding

/-- How many code units a text has. -/
def unitCount (e : Encoding) (text : String) : Nat :=
  match e with
  | .ascii | .utf8 => (text.toList.map Char.utf8Size).sum
  | .utf16 => (text.toList.map fun c => if c.toNat < 0x10000 then 1 else 2).sum
  | .utf32 => text.toList.length

/-- Whether the bytes are, but for zero units at their end, the code units of characters. -/
def WellFormed (e : Encoding) (bs : List UInt8) : Prop :=
  match e with
  | .ascii | .utf8 => Units.WellFormed Units.IsUtf8 (Units.dropTrailing (· == 0) bs)
  | .utf16 => Units.WellFormed Units.IsUtf16 (Units.dropTrailing (· == 0) (Units.words16 bs))
  | .utf32 => Units.WellFormed Units.IsUtf32 (Units.dropTrailing (· == 0) (Units.words32 bs))

theorem length_bytes (e : Encoding) (text : String) :
    (e.bytes text).length = e.unitCount text * e.unitSize := by
  cases e with
  | ascii | utf8 =>
    simp only [bytes, Units.utf8, List.length_flatMap, String.length_utf8EncodeChar, unitCount,
      unitSize, Nat.mul_one]
  | utf16 =>
    have hchar : ∀ c, (Units.utf16Char c).length = if c.toNat < 0x10000 then 1 else 2 := by
      intro c
      simp only [Units.utf16Char]
      split <;> rfl
    simp only [bytes, Units.utf16, List.length_flatMap, Units.bytes16, List.length_cons,
      List.length_nil, List.map_const', List.sum_replicate_nat, hchar, unitCount, unitSize]
  | utf32 =>
    simp only [bytes, Units.utf32, List.length_flatMap, Units.bytes32, List.length_cons,
      List.length_nil, List.map_const', List.sum_replicate_nat, List.length_map, unitCount,
      unitSize]

/-- **Bytes that decode are those of the text**, and zero units behind. -/
theorem bytes_of_text? {e : Encoding} {bs : List UInt8} {text : String} {n : Nat}
    (hlen : bs.length = n * e.unitSize) (h : e.text? bs = some text) :
    ∃ k, bs = e.bytes text ++ List.replicate (k * e.unitSize) 0 := by
  obtain ⟨cs, hcs, rfl⟩ := Option.map_eq_some_iff.mp h
  simp only [bytes, String.toList_ofList]
  cases e with
  | ascii | utf8 =>
    rw [Units.decodeUtf8_eq_some_iff.mp hcs]
    obtain ⟨k, hk⟩ := Units.exists_dropTrailing_append 0 bs
    exact ⟨k, by rw [unitSize, Nat.mul_one, ← hk]⟩
  | utf16 =>
    rw [Units.decodeUtf16_eq_some_iff.mp hcs]
    obtain ⟨k, hk⟩ := Units.exists_zeros 0 Units.bytes16 2 rfl (Units.words16 bs)
    exact ⟨k, by rw [unitSize, ← hk, Units.flatMap_words16 n hlen]⟩
  | utf32 =>
    rw [Units.decodeUtf32_eq_some_iff.mp hcs]
    obtain ⟨k, hk⟩ := Units.exists_zeros 0 Units.bytes32 4 rfl (Units.words32 bs)
    exact ⟨k, by rw [unitSize, ← hk, Units.flatMap_words32 n hlen]⟩

/-- **What decodes is what is well-formed.** -/
theorem exists_text?_iff {e : Encoding} {bs : List UInt8} :
    (∃ text, e.text? bs = some text) ↔ e.WellFormed bs := by
  have hmap : ∀ {cs : Option (List Char)}, (∃ text, cs.map String.ofList = some text) ↔
      ∃ chars, cs = some chars := by
    intro cs
    cases cs <;> simp
  cases e with
  | ascii | utf8 =>
    simp only [text?, WellFormed, hmap, Units.wellFormed_iff Units.isUtf8_iff,
      Units.decodeUtf8_eq_some_iff]
    rfl
  | utf16 =>
    simp only [text?, WellFormed, hmap, Units.wellFormed_iff Units.isUtf16_iff,
      Units.decodeUtf16_eq_some_iff]
    rfl
  | utf32 =>
    simp only [text?, WellFormed, hmap, Units.wellFormed_iff Units.isUtf32_iff,
      Units.decodeUtf32_eq_some_iff, ← Units.utf32_eq_flatMap]

theorem decode_eq_ok_iff {e : Encoding} {bs : List UInt8} {text : String} :
    e.decode bs = .ok text ↔ e.text? bs = some text := by
  unfold decode
  cases e.text? bs <;> simp

/-- The error is always the same, and comes just if the bytes are not well-formed. -/
theorem decode_eq_error_iff {e : Encoding} {bs : List UInt8} {error : BuildError} :
    e.decode bs = .error error ↔
      ¬e.WellFormed bs ∧ error = .layout (.invalidText e.name) := by
  rw [← exists_text?_iff]
  unfold decode
  cases e.text? bs with
  | none => simp [eq_comm]
  | some text => simp

end Encoding

namespace StringType

variable {e : Encoding} {width : Nat}

/-- Texts are taken that have only characters of the encoding, and at a fixed width not more code
units than that. -/
theorem exists_encode_iff_unitCount [Machine] {t : StringType} {text : String} :
    (∃ s, t.encode text = .ok s) ↔
      (t.encoding = .ascii → ∀ c ∈ text.toList, c.toNat < 128) ∧
        ∀ width, t.width = some width → t.encoding.unitCount text ≤ width := by
  have hpos : 0 < t.encoding.unitSize := by cases t.encoding <;> decide
  rw [exists_encode_iff, t.encoding.length_bytes, Nat.mul_div_cancel _ hpos]
  simp only [List.all_eq_true, decide_eq_true_eq]

theorem exists_encode_fixed_iff {text : String} :
    (∃ s, (StringType.mk e (some width)).encode text = .ok s) ↔
      e.unitCount text ≤ width ∧ (e = .ascii → ∀ c ∈ text.toList, c.toNat < 128) := by
  rw [exists_encode_iff_unitCount, and_comm]
  simp

/-- Bytes of the right size that decode are what the text is stored as. -/
theorem encode_of_decode {bs : List UInt8} {text : String} (hlen : bs.length = width * e.unitSize)
    (hascii : e = .ascii → ∀ b ∈ bs, b.toNat < 128) (h : e.decode bs = .ok text) :
    (StringType.mk e (some width)).encode text = .ok (.bytes bs) := by
  obtain ⟨k, hk⟩ := Encoding.bytes_of_text? hlen (Encoding.decode_eq_ok_iff.mp h)
  have hpos : 0 < e.unitSize := by cases e <;> decide
  have hcount : e.unitCount text + k = width := by
    have hbytes := congrArg List.length hk
    rw [hlen, List.length_append, e.length_bytes, List.length_replicate, ← Nat.add_mul] at hbytes
    exact (Nat.eq_of_mul_eq_mul_right hpos hbytes).symm
  have hchars : e = .ascii → ∀ c ∈ text.toList, c.toNat < 128 := by
    rintro rfl c hc
    refine Units.toNat_lt_of_utf8EncodeChar fun b hb => hascii rfl b ?_
    rw [hk]
    exact List.mem_append_left _ (List.mem_flatMap.mpr ⟨c, hc, hb⟩)
  obtain ⟨s, hs⟩ := exists_encode_fixed_iff.mpr ⟨Nat.le.intro hcount, hchars⟩
  obtain ⟨n, hn, rfl⟩ := encode_of_width rfl hs
  -- both are filled up to the same size
  have hsame : n = k := by
    simp only [e.length_bytes, ← Nat.add_mul] at hn
    have := Nat.eq_of_mul_eq_mul_right hpos hn
    omega
  rw [hs, hsame, ← hk]

end StringType

/-- **The codec of texts of fixed width.** A text is taken just if it has no more code units than
the width, and in ASCII only such characters; it is stored in as many bytes as the width says, and
decodes to itself without the zeros at its end. Bytes of that size are what the text that they
decode to is stored as, and they decode unless they are not well-formed. -/
theorem fixedWidth_codec (e : Encoding) (width : Nat) :
    (∀ text,
      ((∃ s, (StringType.mk e (some width)).encode text = .ok s) ↔
        e.unitCount text ≤ width ∧ (e = .ascii → ∀ c ∈ text.toList, c.toNat < 128)) ∧
      ∀ s, (StringType.mk e (some width)).encode text = .ok s →
        ∃ bs, s = .bytes bs ∧ bs.length = width * e.unitSize ∧
          e.decode bs = .ok (String.ofList (Units.dropTrailing (· == '\x00') text.toList))) ∧
      ∀ bs : List UInt8, bs.length = width * e.unitSize →
        (∀ text, e.decode bs = .ok text → (e = .ascii → ∀ b ∈ bs, b.toNat < 128) →
          (StringType.mk e (some width)).encode text = .ok (.bytes bs)) ∧
        ((∃ error, e.decode bs = .error error) ↔ ¬e.WellFormed bs) := by
  refine ⟨fun text => ⟨StringType.exists_encode_fixed_iff, fun s hs => ?_⟩, fun bs hlen => ⟨?_, ?_⟩⟩
  · obtain ⟨n, hn, rfl⟩ := StringType.encode_of_width rfl hs
    refine ⟨_, rfl, ?_, ?_⟩
    · rw [List.length_append, List.length_replicate, hn]
    · exact Encoding.decode_eq_ok_iff.mpr (e.text?_bytes_append_zeros text n)
  · exact fun text h hascii => StringType.encode_of_decode hlen hascii h
  · simp [Encoding.decode_eq_error_iff]

/-- A pair of surrogates, a word that ends in a zero byte, and a zero word: a text of three units at
width four. The first of the surrogates alone is no text. -/
theorem fixedWidth_codec_surrogates :
    ∃ bs : List UInt8, bs = [0x3D, 0xD8, 0x00, 0xDE, 0x61, 0x00, 0x00, 0x00] ∧
      Encoding.utf16.decode bs = .ok "😀a" ∧
      (StringType.mk .utf16 (some 4)).encode "😀a" = .ok (.bytes bs) ∧
      (¬∃ s, (StringType.mk .utf16 (some 2)).encode "😀a" = .ok s) ∧
      ¬Encoding.utf16.WellFormed [0x3D, 0xD8, 0x00, 0x00] := by
  have hdecode : Encoding.utf16.decode [0x3D, 0xD8, 0x00, 0xDE, 0x61, 0x00, 0x00, 0x00] =
      .ok "😀a" := by decide +kernel
  have hlone : Encoding.utf16.decode [0x3D, 0xD8, 0x00, 0x00] =
      .error (.layout (.invalidText "U16")) := by decide +kernel
  obtain ⟨-, hfour⟩ := fixedWidth_codec .utf16 4
  obtain ⟨hencode, -⟩ := hfour [0x3D, 0xD8, 0x00, 0xDE, 0x61, 0x00, 0x00, 0x00] rfl
  obtain ⟨htwo, hpair⟩ := fixedWidth_codec .utf16 2
  obtain ⟨haccept, -⟩ := htwo "😀a"
  obtain ⟨-, herror⟩ := hpair [0x3D, 0xD8, 0x00, 0x00] rfl
  refine ⟨_, rfl, hdecode, hencode _ hdecode (fun h => nomatch h), ?_, herror.mp ⟨_, hlone⟩⟩
  intro h
  exact absurd (haccept.mp h).1 (by decide +kernel)

end Ragged
