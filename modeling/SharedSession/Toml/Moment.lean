import SharedSession.Toml.Trivia

set_option autoImplicit false

/-!
# Dates and times

A date is year, month and day; a time is hour, minute and second with an optional fraction. Either
stands alone, or a date and a time stand together with a `T` or a space between them, and then an
offset from universal time may follow. The parts must be in range: the day must exist in its month,
and a second may be the sixtieth, which is a leap second.
-/

namespace SharedSession.Toml.Moment

/-- Reads exactly so many decimal digits. -/
def readDigits? : Nat → Nat → Reader Nat
  | 0, acc, cs => some (acc, cs)
  | count + 1, acc, c :: cs =>
    if c.isDigit then readDigits? count (acc * 10 + (c.toNat - '0'.toNat)) cs else none
  | _ + 1, _, [] => none

/-- Reads two digits with a value between the limits. -/
def readTwo? (lo hi : Nat) : Reader Nat := fun cs => do
  let (n, rest) ← readDigits? 2 0 cs
  if lo ≤ n ∧ n ≤ hi then some (n, rest) else none

/-- The rest behind a character that must stand in front. -/
def expect? (c : Char) : List Char → Option (List Char)
  | [] => none
  | d :: rest => if d = c then some rest else none

/-- Whether a year has a twenty-ninth of February. -/
def isLeapYear (year : Nat) : Bool := year % 4 == 0 && (year % 100 != 0 || year % 400 == 0)

/-- The number of days of a month. -/
def daysIn (year month : Nat) : Nat :=
  if month = 2 then (if isLeapYear year then 29 else 28)
  else if month = 4 ∨ month = 6 ∨ month = 9 ∨ month = 11 then 30
  else 31

/-- The rest behind a date. -/
def skipDate? (cs : List Char) : Option (List Char) := do
  let (year, rest) ← readDigits? 4 0 cs
  let (month, rest) ← readTwo? 1 12 (← expect? '-' rest)
  let (_, rest) ← readTwo? 1 (daysIn year month) (← expect? '-' rest)
  some rest

/-- The rest behind a fraction of a second, if there is one. -/
def skipFraction : List Char → List Char
  | '.' :: c :: rest => if c.isDigit then rest.dropWhile Char.isDigit else '.' :: c :: rest
  | cs => cs

/-- The rest behind a time. -/
def skipTime? (cs : List Char) : Option (List Char) := do
  let (_, rest) ← readTwo? 0 23 cs
  let (_, rest) ← readTwo? 0 59 (← expect? ':' rest)
  let (_, rest) ← readTwo? 0 60 (← expect? ':' rest)
  some (skipFraction rest)

/-- The rest behind an offset. -/
def skipOffset? : List Char → Option (List Char)
  | [] => none
  | c :: rest =>
    if c = 'Z' ∨ c = 'z' then some rest
    else if c = '+' ∨ c = '-' then do
      let (_, rest) ← readTwo? 0 23 rest
      let (_, rest) ← readTwo? 0 59 (← expect? ':' rest)
      some rest
    else none

/-- The rest behind a time and an optional offset that follow a date; all of it if none follow. -/
def skipTimeOfDay : List Char → List Char
  | [] => []
  | c :: rest =>
    if c = 'T' ∨ c = 't' ∨ c = ' ' then
      match skipTime? rest with
      | some rest => (skipOffset? rest).getD rest
      | none => c :: rest
    else c :: rest

/-- The rest behind a date, a time or both. -/
def skip? (cs : List Char) : Option (List Char) :=
  match skipDate? cs with
  | some rest => some (skipTimeOfDay rest)
  | none => skipTime? cs

/-- Reads a date, a time or both, and gives their text. -/
def read? : Reader String := fun cs =>
  (skip? cs).map fun rest => (String.ofList (cs.take (cs.length - rest.length)), rest)

end SharedSession.Toml.Moment
