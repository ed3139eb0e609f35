import SharedSession.Time

set_option autoImplicit false

/-!
# Integers in decimal

The written form of an integer is its digits without leading zeros, behind a minus sign if it is
negative. Reading is wider than writing: an optional single sign, then one or more ASCII digits,
leading zeros allowed. Text that names an integer outside the range of a timestamp names no
timestamp.

Main statements: `Decimal.read?_write` and `Timestamp.read?_render`, reading what was written
gives it back.
-/

namespace SharedSession

namespace Decimal

/-- The digits of a natural number, most significant first. -/
def digits (n : Nat) : List Char := Nat.toDigits 10 n

/-- An integer as its sign and digits. -/
def write (z : Int) : List Char :=
  if z < 0 then '-' :: digits z.natAbs else digits z.natAbs

/-- Reads one or more digits and nothing else. -/
def readDigits? (cs : List Char) : Option Nat :=
  if cs ≠ [] ∧ cs.all Char.isDigit then some (Nat.ofDigitChars 10 cs 0) else none

/-- Reads an integer: an optional sign, then digits. -/
def read? : List Char → Option Int
  | '-' :: cs => (readDigits? cs).map fun n => -(n : Int)
  | '+' :: cs => (readDigits? cs).map fun n => (n : Int)
  | cs => (readDigits? cs).map fun n => (n : Int)

theorem digits_ne_nil (n : Nat) : digits n ≠ [] := Nat.toDigits_ne_nil

theorem isDigit_of_mem_digits {n : Nat} {c : Char} (h : c ∈ digits n) : c.isDigit :=
  Nat.isDigit_of_mem_toDigits (by decide) (by decide) h

@[simp] theorem readDigits?_digits (n : Nat) : readDigits? (digits n) = some n := by
  have hall : (digits n).all Char.isDigit = true :=
    List.all_eq_true.2 fun c hc => isDigit_of_mem_digits hc
  simp only [readDigits?, ne_eq, digits_ne_nil, not_false_eq_true, hall, and_self, if_true]
  exact congrArg some (Nat.ofDigitChars_toDigits (by decide) (by decide))

/-- The written form of a natural number starts with no sign. -/
theorem read?_digits (n : Nat) : read? (digits n) = some (n : Int) := by
  have hd : ∀ c ∈ digits n, c ≠ '-' ∧ c ≠ '+' := by
    intro c hc
    have := isDigit_of_mem_digits hc
    constructor <;> rintro rfl <;> simp at this
  have hr := readDigits?_digits n
  unfold read?
  split
  · next cs heq => exact absurd rfl (hd '-' (heq ▸ List.mem_cons_self)).1
  · next cs heq => exact absurd rfl (hd '+' (heq ▸ List.mem_cons_self)).2
  · rw [hr]; rfl

/-- Reading what was written gives it back. -/
theorem read?_write (z : Int) : read? (write z) = some z := by
  unfold write
  split
  · next h =>
    simp only [read?, readDigits?_digits]
    exact congrArg some (show -(z.natAbs : Int) = z by omega)
  · next h =>
    rw [read?_digits, Option.some.injEq]
    omega

end Decimal

namespace Timestamp

/-- The milliseconds of a timestamp in decimal. -/
def render (t : Timestamp) : String := String.ofList (Decimal.write t.millis)

/-- The timestamp that a text names, if it names one in range. -/
def read? (s : String) : Option Timestamp := (Decimal.read? s.toList).bind ofMillis?

/-- Reading a written timestamp gives it back. -/
@[simp] theorem read?_render (t : Timestamp) : read? t.render = some t := by
  simp [read?, render, Decimal.read?_write, ofMillis?_millis]

end Timestamp

end SharedSession
