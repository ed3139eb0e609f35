set_option autoImplicit false

/-!
# Fresh names

Session identifiers and lock tokens are random identifiers that nobody has used before. A `Supply`
stands for their source: an endless list of names and how many of them are taken. Whatever asks
for a name gets the next one.
-/

namespace SharedSession

/-- An endless list of names and how many of them have been taken. -/
structure Supply where
  /-- the names in the order in which they are given out -/
  name : Nat → String
  used : Nat

namespace Supply

/-- Gives out the next name. -/
def draw (s : Supply) : String × Supply := (s.name s.used, { s with used := s.used + 1 })

/-- The name that will be given out next. -/
def next (s : Supply) : String := s.name s.used

/-- The lowest `n` hexadecimal digits of a number, most significant first. -/
def hexDigits : Nat → Nat → List Char
  | 0, _ => []
  | n + 1, k => hexDigits n (k / 16) ++ [Nat.digitChar (k % 16)]

/-- A number in the form of a random identifier of version 4: thirty hexadecimal digits of it
between the digits that name version and variant. -/
def identifier (k : Nat) : String :=
  let ds := hexDigits 30 k
  String.ofList (ds.take 8 ++ '-' :: (ds.drop 8).take 4 ++ '-' :: '4' :: (ds.drop 12).take 3
    ++ '-' :: '8' :: (ds.drop 15).take 3 ++ '-' :: ds.drop 18)

/-- The identifiers of the numbers from a seed on. -/
def identifiers (seed : Nat) : Supply := ⟨fun n => identifier (seed + n), 0⟩

end Supply

end SharedSession
