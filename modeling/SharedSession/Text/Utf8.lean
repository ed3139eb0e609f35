set_option autoImplicit false

/-!
# Text as bytes

A text is stored as its UTF-8 bytes. Bytes that are not UTF-8 are no text; to show them anyway,
each longest start of a character that breaks off, and each byte that starts none, counts as one
replacement character.

Main statement: `Utf8.ofBytes?_bytes`, the bytes of a text read back as that text.
-/

namespace SharedSession.Utf8

/-- The UTF-8 bytes of a text. -/
def bytes (s : String) : List UInt8 := s.toUTF8.data.toList

/-- The text with the given UTF-8 bytes, if they are well formed. -/
def ofBytes? (bs : List UInt8) : Option String := String.fromUTF8? ⟨bs.toArray⟩

/-- The bytes of a text read back as that text. -/
@[simp] theorem ofBytes?_bytes (s : String) : ofBytes? (bytes s) = some s := by
  have h : (⟨(bytes s).toArray⟩ : ByteArray) = s.toUTF8 := by
    simp [bytes]
  rw [ofBytes?, h, String.fromUTF8?]
  have hv : s.toUTF8.IsValidUTF8 := s.isValidUTF8
  simp only [hv, dite_true, String.fromUTF8]
  rfl

/-- Only the bytes of a text read as it. -/
theorem eq_bytes_of_ofBytes? {bs : List UInt8} {s : String} (h : ofBytes? bs = some s) :
    bs = bytes s := by
  unfold ofBytes? String.fromUTF8? at h
  split at h
  · cases h
    simp [bytes, String.fromUTF8]
  · cases h

/-- The character that stands for bytes that are not UTF-8. -/
def replacement : Char := Char.ofNat 0xfffd

/-- What the first byte of a character asks for: how many bytes follow, and the range of the first
of them. The range of that byte rules out overlong forms, surrogates and values past the last
character. -/
def follow (b : UInt8) : Option (Nat × UInt8 × UInt8) :=
  if 0xc2 ≤ b ∧ b ≤ 0xdf then some (1, 0x80, 0xbf)
  else if b = 0xe0 then some (2, 0xa0, 0xbf)
  else if b = 0xed then some (2, 0x80, 0x9f)
  else if 0xe1 ≤ b ∧ b ≤ 0xef then some (2, 0x80, 0xbf)
  else if b = 0xf0 then some (3, 0x90, 0xbf)
  else if b = 0xf4 then some (3, 0x80, 0x8f)
  else if 0xf1 ≤ b ∧ b ≤ 0xf3 then some (3, 0x80, 0xbf)
  else none

/-- Takes up to `n` continuation bytes, the first between `lo` and `hi`; the value so far is
`acc`. Gives the value if all were there, and how many bytes were taken. -/
def continuation : Nat → UInt8 → UInt8 → Nat → List UInt8 → Option Nat × Nat
  | 0, _, _, acc, _ => (some acc, 0)
  | _ + 1, _, _, _, [] => (none, 0)
  | n + 1, lo, hi, acc, b :: bs =>
    if lo ≤ b ∧ b ≤ hi then
      let (value, taken) := continuation n 0x80 0xbf (acc * 64 + (b.toNat - 0x80)) bs
      (value, taken + 1)
    else (none, 0)

/-- The bits that the first byte of a character with `n` bytes behind it contributes. -/
def leadBits (n : Nat) (b : UInt8) : Nat := b.toNat % Nat.pow 2 (6 - n)

/-- Shows bytes as characters; `skip` bytes in front have been shown already. -/
def showBytes : Nat → List UInt8 → List Char
  | _, [] => []
  | skip + 1, _ :: bs => showBytes skip bs
  | 0, b :: bs =>
    if b < 0x80 then Char.ofNat b.toNat :: showBytes 0 bs
    else match follow b with
      | none => replacement :: showBytes 0 bs
      | some (n, lo, hi) =>
        match continuation n lo hi (leadBits n b) bs with
        | (some value, taken) => Char.ofNat value :: showBytes taken bs
        | (none, taken) => replacement :: showBytes taken bs

/-- The bytes as text, with the replacement character for what is not UTF-8. -/
def lossy (bs : List UInt8) : String := String.ofList (showBytes 0 bs)

end SharedSession.Utf8
