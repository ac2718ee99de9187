import Lookahead.Rune
import Mathlib.Tactic.SplitIfs

/-!
# Decoding undoes encoding

The lead byte of an encoded character announces how many bytes it takes, and the character
is what this byte and those that follow it spell. Nothing is checked on the way, but the
masks take off just the bits that the encoder has put on, for each of the four widths.

## Main definitions

* `Rune.encode`: the bytes of a text.

## Main statements

* `Rune.decode_utf8EncodeChar`: the bytes of one character decode to it.
-/
namespace Lookahead.Rune

/-- The bytes of a text in UTF-8. -/
def encode (text : List Char) : List UInt8 := text.flatMap String.utf8EncodeChar

@[simp] theorem encode_append (first last : List Char) :
    encode (first ++ last) = encode first ++ encode last := List.flatMap_append

@[simp] theorem encode_cons (rune : Char) (text : List Char) :
    encode (rune :: text) = String.utf8EncodeChar rune ++ encode text := List.flatMap_cons

/-- The bytes of a character stand behind those of the text before it. -/
theorem encode_split (text : List Char) {i : Nat} (hi : i < text.length) :
    encode text = encode (text.take i) ++
      (String.utf8EncodeChar text[i] ++ encode (text.drop (i + 1))) := by
  rw [← encode_cons, ← encode_append, List.getElem_cons_drop, List.take_append_drop]

/-- A code point that is one of a character gives the character back. -/
theorem ofCodePoint_toNat (rune : Char) : ofCodePoint rune.toNat = rune := by
  rw [ofCodePoint, if_pos (show rune.toNat.isValidChar from rune.valid), Char.ofNat_toNat]

/-! ## Bytes as numbers -/

theorem toNat_ofNat {n : Nat} (h : n < 0x100) : (UInt8.ofNat n).toNat = n :=
  UInt8.toNat_ofNat_of_lt' h

/-- The width that a byte announces. -/
theorem width_ofNat {n : Nat} (h : n < 0x100) : width (UInt8.ofNat n) =
    if n < 0xC0 then 1 else if n < 0xE0 then 2 else if n < 0xF0 then 3 else 4 := by
  simp only [width, UInt8.lt_iff_toNat_lt, toNat_ofNat h]
  rfl

/-- The bits that a byte contributes as the first. -/
theorem leadBits_ofNat {n : Nat} (h : n < 0x100) : leadBits (UInt8.ofNat n) =
    if n < 0xC0 then n else if n < 0xE0 then n % 0x20 else if n < 0xF0 then n % 0x10
      else n % 0x08 := by
  simp only [leadBits, width_ofNat h, toNat_ofNat h]
  split_ifs <;> rfl

/-! ## Characters -/

/-- A code point is below the end of the last plane. -/
theorem toNat_lt (rune : Char) : rune.toNat < 0x110000 := by
  have hvalid : rune.toNat.isValidChar := rune.valid
  rw [Nat.isValidChar] at hvalid
  omega

/-- **The bytes of a character** are as many as the first of them announces, and spell the
code point. -/
theorem utf8EncodeChar_spells (rune : Char) :
    ∃ lead followers, String.utf8EncodeChar rune = lead :: followers ∧
      width lead = followers.length + 1 ∧ codePoint lead followers = rune.toNat := by
  have hbound := toNat_lt rune
  have hval : rune.val.toNat = rune.toNat := rfl
  simp only [String.utf8EncodeChar, hval]
  generalize rune.toNat = n at hbound
  -- one case for each number of bytes; `omega` puts the bits together
  split_ifs with hone htwo hthree
  · refine ⟨_, _, rfl, ?_, ?_⟩
    · rw [width_ofNat (by omega), if_pos (by omega), List.length_nil]
    · rw [codePoint, List.foldl_nil, leadBits_ofNat (by omega), if_pos (by omega)]
  · refine ⟨_, _, rfl, ?_, ?_⟩
    · rw [width_ofNat (by omega), if_neg (by omega), if_pos (by omega)]
      rfl
    · simp only [codePoint, List.foldl_cons, List.foldl_nil]
      rw [leadBits_ofNat (by omega), if_neg (by omega), if_pos (by omega), toNat_ofNat (by omega)]
      omega
  · refine ⟨_, _, rfl, ?_, ?_⟩
    · rw [width_ofNat (by omega), if_neg (by omega), if_neg (by omega), if_pos (by omega)]
      rfl
    · simp only [codePoint, List.foldl_cons, List.foldl_nil]
      rw [leadBits_ofNat (by omega), if_neg (by omega), if_neg (by omega), if_pos (by omega),
        toNat_ofNat (by omega), toNat_ofNat (by omega)]
      omega
  · refine ⟨_, _, rfl, ?_, ?_⟩
    · rw [width_ofNat (by omega), if_neg (by omega), if_neg (by omega), if_neg (by omega)]
      rfl
    · simp only [codePoint, List.foldl_cons, List.foldl_nil]
      rw [leadBits_ofNat (by omega), if_neg (by omega), if_neg (by omega), if_neg (by omega),
        toNat_ofNat (by omega), toNat_ofNat (by omega), toNat_ofNat (by omega)]
      omega

/-- **Decoding undoes encoding.** -/
theorem decode_utf8EncodeChar (rune : Char) :
    ∃ lead followers, String.utf8EncodeChar rune = lead :: followers ∧
      width lead = rune.utf8Size ∧ followers.length + 1 = rune.utf8Size ∧
      decode lead followers = rune := by
  obtain ⟨lead, followers, hbytes, hwidth, hcode⟩ := utf8EncodeChar_spells rune
  have hsize : followers.length + 1 = rune.utf8Size := by
    rw [← String.length_utf8EncodeChar, hbytes, List.length_cons]
  refine ⟨lead, followers, hbytes, hwidth.trans hsize, hsize, ?_⟩
  rw [decode, hcode, ofCodePoint_toNat]

end Lookahead.Rune
