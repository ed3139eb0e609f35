import SharedSession.Text.Decimal
import SharedSession.Text.Hex
import SharedSession.Toml.Trivia

set_option autoImplicit false

/-!
# Numbers

An integer is a sign and decimal digits without a leading zero, or hexadecimal, octal or binary
digits behind `0x`, `0o` or `0b` without a sign. It fits a signed 64-bit word. A fraction, an
exponent or both make a float, and so do the words `inf` and `nan`; fraction and exponent may have
leading zeros. A single underscore may stand between two digits.

A float is kept as its text without underscores. One that is written with digits must not be so
large that it would round to infinity in double precision; a negative one is let through.
-/

namespace SharedSession.Toml

/-- A number. -/
inductive Number where
  | integer (value : Int)
  | float (text : String)
deriving DecidableEq, Repr, Inhabited

namespace Number

/-! ## Digits -/

/-- The digits in front, single underscores between them left out, and the rest. -/
def digitRun (isDigit : Char → Bool) : List Char → List Char × List Char
  | [] => ([], [])
  | '_' :: c :: rest =>
    if isDigit c then
      let run := digitRun isDigit rest
      (c :: run.1, run.2)
    else ([], '_' :: c :: rest)
  | c :: rest =>
    if isDigit c then
      let run := digitRun isDigit rest
      (c :: run.1, run.2)
    else ([], c :: rest)

/-- Reads one digit or more. -/
def readDigits? (isDigit : Char → Bool) : Reader (List Char)
  | [] => none
  | c :: rest =>
    if isDigit c then
      let run := digitRun isDigit rest
      some (c :: run.1, run.2)
    else none

/-- Reads a sign if there is one; the answer tells whether it is a minus. -/
def readSign : List Char → Bool × List Char
  | '-' :: rest => (true, rest)
  | '+' :: rest => (false, rest)
  | cs => (false, cs)

/-- An integer within the signed 64-bit range. -/
def integer? (z : Int) : Option Number :=
  if -9223372036854775808 ≤ z ∧ z ≤ 9223372036854775807 then some (.integer z) else none

/-! ## Integers behind a base -/

/-- The bases other than ten. -/
inductive Base where
  /-- digits `0` to `F` behind `0x` -/
  | hexadecimal
  /-- digits `0` to `7` behind `0o` -/
  | octal
  /-- digits `0` and `1` behind `0b` -/
  | binary
deriving DecidableEq, Repr, Inhabited

namespace Base

/-- How many digits there are. -/
def radix : Base → Nat
  | .hexadecimal => 16
  | .octal => 8
  | .binary => 2

/-- Whether a character is a digit. -/
def isDigit (b : Base) (c : Char) : Bool :=
  match Text.hexDigitValue? c with
  | some n => n < b.radix
  | none => false

/-- The value of digits. -/
def value (b : Base) (ds : List Char) : Nat :=
  ds.foldl (fun acc c => acc * b.radix + (Text.hexDigitValue? c).getD 0) 0

/-- The base that the letter behind a zero announces. -/
def ofLetter? (c : Char) : Option Base :=
  if c = 'x' then some .hexadecimal
  else if c = 'o' then some .octal
  else if c = 'b' then some .binary
  else none

end Base

/-- The base that stands in front, and the rest. -/
def readBase? : Reader Base
  | '0' :: c :: rest => (Base.ofLetter? c).map fun b => (b, rest)
  | _ => none

/-! ## Decimal numbers -/

/-- Reads digits without a leading zero. -/
def readWhole? : Reader (List Char)
  | '0' :: rest => some (['0'], rest)
  | cs => readDigits? Char.isDigit cs

/-- Reads the digits behind a point; none if there is no point. -/
def readFraction? : Reader (Option (List Char))
  | '.' :: rest => (readDigits? Char.isDigit rest).map fun p => (some p.1, p.2)
  | cs => some (none, cs)

/-- Reads an exponent; none if there is none. -/
def readExponent? : Reader (Option Int)
  | [] => some (none, [])
  | c :: rest =>
    if c = 'e' ∨ c = 'E' then
      let (isNegative, rest) := readSign rest
      (readDigits? Char.isDigit rest).map fun p =>
        let n : Int := Nat.ofDigitChars 10 p.1 0
        (some (if isNegative then -n else n), p.2)
    else some (none, c :: rest)

/-- Half-way between the largest double and the next power of two: from here on a number rounds to
infinity. -/
def infinityBound : Nat := Nat.pow 2 1024 - Nat.pow 2 970

/-- Whether digits times a power of ten round to infinity. A number with more than 309 places in
front of the point is too large, one with less than 309 is not. -/
def overflows (ds : List Char) (exponent : Int) : Bool :=
  let n := Nat.ofDigitChars 10 ds 0
  let places : Int := (Decimal.digits n).length + exponent
  if n = 0 ∨ places < 309 then false
  else if 309 < places then true
  else infinityBound * Nat.pow 10 (-exponent).toNat ≤ n * Nat.pow 10 exponent.toNat

/-- The text of a float. -/
def floatText (isNegative : Bool) (whole : List Char) (fraction : Option (List Char))
    (exponent : Option Int) : String :=
  String.ofList ((if isNegative then ['-'] else []) ++ whole
    ++ (match fraction with | some ds => '.' :: ds | none => [])
    ++ (match exponent with | some e => 'e' :: Decimal.write e | none => []))

/-- The number with these parts, if it is in range. -/
def ofParts? (isNegative : Bool) (whole : List Char) (fraction : Option (List Char))
    (exponent : Option Int) : Option Number :=
  match fraction, exponent with
  | none, none =>
    let n : Int := Nat.ofDigitChars 10 whole 0
    integer? (if isNegative then -n else n)
  | _, _ =>
    let ds := fraction.getD []
    if !isNegative && overflows (whole ++ ds) (exponent.getD 0 - ds.length) then none
    else some (.float (floatText isNegative whole fraction exponent))

/-- Reads a number with a base. -/
def readBased? (cs : List Char) (b : Base) : Option (Number × List Char) := do
  let (ds, rest) ← readDigits? b.isDigit cs
  let number ← integer? (b.value ds)
  some (number, rest)

/-- Reads a decimal number behind its sign. -/
def readUnsigned? (isNegative : Bool) (cs : List Char) : Option (Number × List Char) :=
  let word (w : String) : String := (if isNegative then "-" else "") ++ w
  match cs with
  | 'i' :: 'n' :: 'f' :: rest => some (.float (word "inf"), rest)
  | 'n' :: 'a' :: 'n' :: rest => some (.float (word "nan"), rest)
  | cs => do
    let (whole, rest) ← readWhole? cs
    let (fraction, rest) ← readFraction? rest
    let (exponent, rest) ← readExponent? rest
    let number ← ofParts? isNegative whole fraction exponent
    some (number, rest)

/-- Reads a number. -/
def read? : Reader Number := fun cs =>
  match readBase? cs with
  | some (b, rest) => readBased? rest b
  | none =>
    let (isNegative, rest) := readSign cs
    readUnsigned? isNegative rest

end Number

end SharedSession.Toml
