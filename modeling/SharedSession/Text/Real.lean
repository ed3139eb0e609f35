import SharedSession.Text.Decimal

set_option autoImplicit false

/-!
# Real numbers in decimal

A real number is an optional sign, digits with at most one point among them, and an optional
exponent; or one of the words `inf`, `infinity` and `nan` in letters of any case. There is a digit
at least, on either side of the point. It is read as the nearest double.
-/

namespace SharedSession.Text

/-- The digits in front, and the rest. -/
def digitsInFront (cs : List Char) : List Char × List Char :=
  (cs.takeWhile Char.isDigit, cs.dropWhile Char.isDigit)

/-- The double nearest to digits times a power of ten. What has more than 310 places in front of
the point is infinite, and what starts more than 400 places behind it is zero. -/
def scaled (ds : List Char) (exponent : Int) : Float :=
  let n := Nat.ofDigitChars 10 ds 0
  let places : Int := (Decimal.digits n).length + exponent
  if n = 0 ∨ places < -400 then 0.0
  else if 310 < places then 1.0 / 0.0
  else Float.ofScientific n (exponent < 0) exponent.natAbs

/-- Reads an exponent behind its letter, and nothing behind it. -/
def exponent? : List Char → Option Int
  | [] => some 0
  | c :: cs => if c = 'e' ∨ c = 'E' then Decimal.read? cs else none

/-- Reads a number without a sign. -/
def unsignedReal? (cs : List Char) : Option Float :=
  let word := (String.ofList cs).map Char.toLower
  if word = "inf" ∨ word = "infinity" then some (1.0 / 0.0)
  else if word = "nan" then some (0.0 / 0.0)
  else
    let (whole, rest) := digitsInFront cs
    let (fraction, rest) := match rest with
      | '.' :: rest => digitsInFront rest
      | rest => ([], rest)
    if whole.isEmpty && fraction.isEmpty then none
    else (exponent? rest).map fun e => scaled (whole ++ fraction) (e - fraction.length)

/-- Reads a real number. -/
def real? (s : String) : Option Float :=
  match s.toList with
  | '-' :: cs => (unsignedReal? cs).map fun x => -x
  | '+' :: cs => unsignedReal? cs
  | cs => unsignedReal? cs

end SharedSession.Text
