import SharedSession.Text.Utf8

set_option autoImplicit false

/-!
# Percent coding

Letters, digits and the four marks `-`, `_`, `.`, `~` stand for themselves; every other UTF-8 byte
is written as a percent sign and two upper-case hexadecimal digits. Reading accepts digits of
either case, lets a percent sign that no two digits follow stand for itself, and refuses bytes that
are not UTF-8.
-/

namespace SharedSession.Percent

/-- Whether a byte is written as it is. -/
def isPlain (b : UInt8) : Bool :=
  (0x41 ≤ b && b ≤ 0x5a) || (0x61 ≤ b && b ≤ 0x7a) || (0x30 ≤ b && b ≤ 0x39)
    || b == 0x2d || b == 0x5f || b == 0x2e || b == 0x7e

/-- The upper-case hexadecimal digit of a value below sixteen, as an ASCII byte. -/
def hexDigit (n : UInt8) : UInt8 := if n < 10 then 0x30 + n else 0x37 + n

/-- The value of a hexadecimal digit of either case. -/
def hexValue? (b : UInt8) : Option UInt8 :=
  if 0x30 ≤ b ∧ b ≤ 0x39 then some (b - 0x30)
  else if 0x41 ≤ b ∧ b ≤ 0x46 then some (b - 0x37)
  else if 0x61 ≤ b ∧ b ≤ 0x66 then some (b - 0x57)
  else none

/-- The written form of one byte. -/
def encodeByte (b : UInt8) : List UInt8 :=
  if isPlain b then [b] else [0x25, hexDigit (b / 16), hexDigit (b % 16)]

/-- Reads the percent signs that two digits follow and leaves all else. -/
def decodeBytes : List UInt8 → List UInt8
  | [] => []
  | b :: rest =>
    if b = 0x25 then
      match rest with
      | h :: l :: tail =>
        match hexValue? h, hexValue? l with
        | some x, some y => (x * 16 + y) :: decodeBytes tail
        | _, _ => b :: decodeBytes (h :: l :: tail)
      | short => b :: decodeBytes short
    else b :: decodeBytes rest

/-- The character of an ASCII byte. -/
def asciiChar (b : UInt8) : Char := Char.ofNat b.toNat

/-- The written form of a text, as characters. -/
def encodeChars (s : String) : List Char :=
  ((Utf8.bytes s).flatMap encodeByte).map asciiChar

/-- The text that a written form stands for, if its bytes are UTF-8. -/
def decode? (s : String) : Option String := Utf8.ofBytes? (decodeBytes (Utf8.bytes s))

end SharedSession.Percent
