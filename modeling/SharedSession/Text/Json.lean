import SharedSession.Text.Hex

set_option autoImplicit false

/-!
# JSON strings and objects of strings

A string is written between quotes. A quote, a backslash and the control characters below the space
are escaped, five of them by a letter and the others by four hexadecimal digits; everything else,
the delete control and all that lies beyond ASCII included, stands for itself. Reading accepts every
escape of the format, two halves of a surrogate pair as one character, and refuses a half alone.
-/

namespace SharedSession

namespace Text

/-- The texts with a separator between each two of them. -/
def joinedBy (sep : List Char) : List (List Char) → List Char
  | [] => []
  | [p] => p
  | p :: q :: ps => p ++ sep ++ joinedBy sep (q :: ps)

end Text

namespace Json

/-! ## Writing -/

/-- A control character below the space by its four digits. -/
def codeEscape (c : Char) : List Char :=
  ['\\', 'u', '0', '0', Text.lowerHexDigit (c.toNat / 16), Text.lowerHexDigit (c.toNat % 16)]

/-- The form in which a character stands between quotes. -/
def escaped (c : Char) : List Char :=
  if c = '"' then ['\\', '"']
  else if c = '\\' then ['\\', '\\']
  else if c = '\x08' then ['\\', 'b']
  else if c = '\x0c' then ['\\', 'f']
  else if c = '\n' then ['\\', 'n']
  else if c = '\r' then ['\\', 'r']
  else if c = '\t' then ['\\', 't']
  else if c < ' ' then codeEscape c
  else [c]

/-- A text between quotes. -/
def quoted (s : String) : List Char := '"' :: s.toList.flatMap escaped ++ ['"']

/-! ## Reading -/

/-- Whether a character may stand between the tokens. -/
def isSpace (c : Char) : Bool := c == ' ' || c == '\n' || c == '\t' || c == '\r'

/-- The rest behind the white space in front. -/
def skipSpace (cs : List Char) : List Char := cs.dropWhile isSpace

/-- The character that a one-letter escape stands for. -/
def letterEscape? (c : Char) : Option Char :=
  if c = '"' ∨ c = '\\' ∨ c = '/' then some c
  else if c = 'b' then some '\x08'
  else if c = 'f' then some '\x0c'
  else if c = 'n' then some '\n'
  else if c = 'r' then some '\r'
  else if c = 't' then some '\t'
  else none

/-- Whether a code is the first half of a surrogate pair. -/
def isHighHalf (n : Nat) : Bool := 0xd800 ≤ n && n ≤ 0xdbff

/-- Whether a code is the second half of a surrogate pair. -/
def isLowHalf (n : Nat) : Bool := 0xdc00 ≤ n && n ≤ 0xdfff

/-- The code that two halves of a surrogate pair stand for. -/
def pairCode (high low : Nat) : Nat := 0x10000 + (high - 0xd800) * 0x400 + (low - 0xdc00)

/-- Reads four hexadecimal digits. -/
def fourDigits? : List Char → Option (Nat × List Char)
  | a :: b :: c :: d :: rest => (Text.hexValue? [a, b, c, d]).map fun n => (n, rest)
  | _ => none

/-- Reads the character behind the letter of a code escape: four digits, or two halves of a pair
with an escape of their own each. -/
def codeEscape? (cs : List Char) : Option (Char × List Char) := do
  let (n, rest) ← fourDigits? cs
  if isHighHalf n then
    match rest with
    | '\\' :: 'u' :: rest =>
      let (low, rest) ← fourDigits? rest
      if isLowHalf low then (Text.charOfCode? (pairCode n low)).map fun c => (c, rest) else none
    | _ => none
  else (Text.charOfCode? n).map fun c => (c, rest)

theorem length_of_fourDigits? {cs rest : List Char} {n : Nat}
    (h : fourDigits? cs = some (n, rest)) : rest.length < cs.length := by
  unfold fourDigits? at h
  split at h
  · simp only [Option.map_eq_some_iff, Prod.mk.injEq] at h
    obtain ⟨-, -, -, rfl⟩ := h
    simp only [List.length_cons]
    omega
  · cases h

theorem length_of_codeEscape? {cs rest : List Char} {c : Char}
    (h : codeEscape? cs = some (c, rest)) : rest.length < cs.length := by
  unfold codeEscape? at h
  cases h4 : fourDigits? cs with
  | none => simp [h4] at h
  | some p =>
    obtain ⟨n, mid⟩ := p
    have hlen := length_of_fourDigits? h4
    simp only [h4, Option.bind_eq_bind, Option.bind_some] at h
    split at h
    · split at h
      · next tail =>
        cases h5 : fourDigits? tail with
        | none => simp [h5] at h
        | some q =>
          obtain ⟨low, last⟩ := q
          have hlen2 := length_of_fourDigits? h5
          simp only [h5, Option.bind_some] at h
          split at h
          · simp only [Option.map_eq_some_iff, Prod.mk.injEq] at h
            obtain ⟨-, -, -, rfl⟩ := h
            simp only [List.length_cons] at hlen
            omega
          · cases h
      · cases h
    · simp only [Option.map_eq_some_iff, Prod.mk.injEq] at h
      obtain ⟨-, -, -, rfl⟩ := h
      exact hlen

/-- Reads up to the closing quote and gives the characters between, and the rest. -/
def readChars? : List Char → Option (List Char × List Char)
  | [] => none
  | '"' :: rest => some ([], rest)
  | '\\' :: 'u' :: rest =>
    match h : codeEscape? rest with
    | none => none
    | some (c, tail) =>
      have := length_of_codeEscape? h
      (readChars? tail).map fun p => (c :: p.1, p.2)
  | '\\' :: e :: rest =>
    match letterEscape? e with
    | none => none
    | some c => (readChars? rest).map fun p => (c :: p.1, p.2)
  | c :: rest =>
    if c < ' ' ∨ c = '\\' then none
    else (readChars? rest).map fun p => (c :: p.1, p.2)
termination_by cs => cs.length

/-- Reads a string with the white space in front of it. -/
def readString? (cs : List Char) : Option (String × List Char) :=
  match skipSpace cs with
  | '"' :: rest => (readChars? rest).map fun p => (String.ofList p.1, p.2)
  | _ => none

/-- Reads a key, a colon and a string. -/
def readMember? (cs : List Char) : Option ((String × String) × List Char) := do
  let (key, rest) ← readString? cs
  match skipSpace rest with
  | ':' :: rest =>
    let (value, rest) ← readString? rest
    some ((key, value), rest)
  | _ => none

/-- Reads the members of an object up to the closing brace, at most as many as the fuel. -/
def readMembers? : Nat → List Char → Option (List (String × String) × List Char)
  | 0, _ => none
  | fuel + 1, cs => do
    let (member, rest) ← readMember? cs
    match skipSpace rest with
    | '}' :: rest => some ([member], rest)
    | ',' :: rest =>
      let (members, rest) ← readMembers? fuel rest
      some (member :: members, rest)
    | _ => none

/-- Reads an object whose values are all strings, and nothing behind it. A member takes several
characters, so there are fewer of them than characters. -/
def readStrings? (cs : List Char) : Option (List (String × String)) := do
  match skipSpace cs with
  | '{' :: rest =>
    let (members, rest) ←
      match skipSpace rest with
      | '}' :: rest => some ([], rest)
      | _ => readMembers? rest.length rest
    if (skipSpace rest).isEmpty then some members else none
  | _ => none

end Json

end SharedSession
