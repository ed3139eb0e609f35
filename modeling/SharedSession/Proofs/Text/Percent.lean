import Mathlib.Data.List.Basic
import SharedSession.Text.Percent

set_option autoImplicit false

/-!
# Percent coding reads back

Whatever text is written in percent coding, reading gives it back, and what was written consists of
plain ASCII marks, among which neither an ampersand nor an equals sign occurs.

The argument goes byte by byte with an arbitrary rest: the written form of one byte is read as that
byte and nothing behind it is touched.
-/

namespace SharedSession

namespace Percent

/-- A fact about bytes holds if it holds of the 256 numbers that they stand for. -/
theorem forall_byte {p : UInt8 → Prop} (h : ∀ n : Fin 256, p (UInt8.ofNat n)) (b : UInt8) : p b := by
  have hb := h ⟨b.toNat, UInt8.toNat_lt b⟩
  rwa [UInt8.ofNat_toNat] at hb

/-! ## One byte -/

theorem hexValue?_hexDigit_high (b : UInt8) : hexValue? (hexDigit (b / 16)) = some (b / 16) :=
  forall_byte (p := fun b => hexValue? (hexDigit (b / 16)) = some (b / 16)) (by decide +kernel) b

theorem hexValue?_hexDigit_low (b : UInt8) : hexValue? (hexDigit (b % 16)) = some (b % 16) :=
  forall_byte (p := fun b => hexValue? (hexDigit (b % 16)) = some (b % 16)) (by decide +kernel) b

theorem high_low (b : UInt8) : b / 16 * 16 + b % 16 = b :=
  forall_byte (p := fun b => b / 16 * 16 + b % 16 = b) (by decide +kernel) b

theorem ne_percent_of_isPlain {b : UInt8} (h : isPlain b = true) : b ≠ 0x25 := by
  rintro rfl
  exact absurd h (by decide)

/-- The bytes that occur in the written form of a byte. -/
theorem ascii_of_mem_encodeByte {a b : UInt8} (h : a ∈ encodeByte b) :
    a < 0x80 ∧ a ≠ 0x26 ∧ a ≠ 0x3d := by
  have hall : (encodeByte b).all fun a => a < 0x80 ∧ a ≠ 0x26 ∧ a ≠ 0x3d :=
    forall_byte (p := fun b => (encodeByte b).all fun a => a < 0x80 ∧ a ≠ 0x26 ∧ a ≠ 0x3d)
      (by decide +kernel) b
  exact of_decide_eq_true (List.all_eq_true.1 hall a h)

/-- Any byte but a percent sign is read as itself. -/
theorem decodeBytes_cons_of_ne {b : UInt8} (h : b ≠ 0x25) (rest : List UInt8) :
    decodeBytes (b :: rest) = b :: decodeBytes rest := by
  conv_lhs => unfold decodeBytes
  rw [if_neg h]

/-- A written byte is read as that byte, whatever stands behind it. -/
theorem decodeBytes_encodeByte (b : UInt8) (rest : List UInt8) :
    decodeBytes (encodeByte b ++ rest) = b :: decodeBytes rest := by
  unfold encodeByte
  by_cases h : isPlain b = true
  · rw [if_pos h, List.singleton_append, decodeBytes_cons_of_ne (ne_percent_of_isPlain h)]
  · rw [if_neg h]
    simp only [List.cons_append, List.nil_append]
    rw [decodeBytes, if_pos rfl]
    simp only [hexValue?_hexDigit_high, hexValue?_hexDigit_low, high_low]

/-- Written bytes are read as those bytes. -/
theorem decodeBytes_encodeBytes (bs : List UInt8) :
    decodeBytes (bs.flatMap encodeByte) = bs := by
  induction bs with
  | nil => rfl
  | cons b bs ih => rw [List.flatMap_cons, decodeBytes_encodeByte, ih]

end Percent

/-! ## ASCII text as bytes -/

namespace Utf8

theorem utf8EncodeChar_asciiChar {b : UInt8} (h : b < 0x80) :
    String.utf8EncodeChar (Percent.asciiChar b) = [b] :=
  Percent.forall_byte
    (p := fun b => b < 0x80 → String.utf8EncodeChar (Percent.asciiChar b) = [b]) (by decide +kernel) b h

/-- The bytes of a text that is made of ASCII bytes. -/
theorem bytes_ofList_asciiChar {bs : List UInt8} (h : ∀ b ∈ bs, b < 0x80) :
    bytes (String.ofList (bs.map Percent.asciiChar)) = bs := by
  have hflat : (bs.map Percent.asciiChar).flatMap String.utf8EncodeChar = bs := by
    induction bs with
    | nil => rfl
    | cons b bs ih =>
      have hb : b < 0x80 := h b List.mem_cons_self
      have hbs : ∀ a ∈ bs, a < 0x80 := fun a ha => h a (List.mem_cons_of_mem b ha)
      rw [List.map_cons, List.flatMap_cons, utf8EncodeChar_asciiChar hb, ih hbs]
      rfl
  show (String.ofList (bs.map Percent.asciiChar)).toByteArray.data.toList = bs
  rw [String.toByteArray_ofList, List.utf8Encode, hflat, List.toList_data_toByteArray]

end Utf8

/-! ## Texts -/

namespace Percent

theorem ascii_of_mem_encodeBytes {s : String} {a : UInt8}
    (h : a ∈ (Utf8.bytes s).flatMap encodeByte) : a < 0x80 ∧ a ≠ 0x26 ∧ a ≠ 0x3d := by
  obtain ⟨b, -, hab⟩ := List.mem_flatMap.1 h
  exact ascii_of_mem_encodeByte hab

/-- Reading what was written gives it back. -/
@[simp] theorem decode?_encodeChars (s : String) :
    decode? (String.ofList (encodeChars s)) = some s := by
  have hascii : ∀ b ∈ (Utf8.bytes s).flatMap encodeByte, b < 0x80 :=
    fun b hb => (ascii_of_mem_encodeBytes hb).1
  rw [decode?, encodeChars, Utf8.bytes_ofList_asciiChar hascii, decodeBytes_encodeBytes,
    Utf8.ofBytes?_bytes]

theorem asciiChar_eq_iff {a b : UInt8} (ha : a < 0x80) (hb : b < 0x80) :
    asciiChar a = asciiChar b ↔ a = b := by
  constructor
  · intro h
    have hbytes : [a] = [b] := by
      rw [← Utf8.utf8EncodeChar_asciiChar ha, ← Utf8.utf8EncodeChar_asciiChar hb, h]
    exact List.cons.inj hbytes |>.1
  · rintro rfl
    rfl

/-- The marks that divide a shared text do not occur in percent coding. -/
theorem no_divider_of_mem_encodeChars {s : String} {c : Char} (h : c ∈ encodeChars s) :
    c ≠ '&' ∧ c ≠ '=' := by
  obtain ⟨b, hb, rfl⟩ := List.mem_map.1 h
  obtain ⟨hascii, hamp, heq⟩ := ascii_of_mem_encodeBytes hb
  constructor
  · intro hc
    exact hamp ((asciiChar_eq_iff hascii (by decide)).1 hc)
  · intro hc
    exact heq ((asciiChar_eq_iff hascii (by decide)).1 hc)

end Percent

end SharedSession
