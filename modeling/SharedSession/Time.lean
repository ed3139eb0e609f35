set_option autoImplicit false

/-!
# Points in time and spans of time

A `Timestamp` is a number of milliseconds since the epoch that fits a signed 64-bit word; every
operation on it saturates at the ends of that range. A `Span` is a length of time to the
nanosecond. `Span.millis` is the length that timestamps are moved by: whole milliseconds, cut off
at the largest timestamp, so that a longer span means "for ever".

Main statements: `Timestamp.millis_add` and `Timestamp.millis_sub` give the saturated sum and
difference as integers.
-/

namespace SharedSession

/-! ## Spans -/

/-- A length of time in nanoseconds. -/
structure Span where
  nanos : Nat
deriving DecidableEq, Repr, Inhabited

namespace Span

/-- The nanoseconds of one millisecond. -/
def nanosPerMilli : Nat := 1000000

/-- The largest number of milliseconds that a timestamp can hold. -/
def millisLimit : Nat := 9223372036854775807

/-- A span of so many milliseconds. -/
def ofMillis (n : Nat) : Span := ⟨n * nanosPerMilli⟩

/-- A span of so many seconds. -/
def ofSecs (n : Nat) : Span := ofMillis (n * 1000)

/-- The whole milliseconds in a span, without a limit. -/
def wholeMillis (d : Span) : Nat := d.nanos / nanosPerMilli

/-- The whole milliseconds in a span, at most as many as a timestamp can hold. -/
def millis (d : Span) : Nat := min d.wholeMillis millisLimit

/-- The span cut down to whole milliseconds. -/
def floorMillis (d : Span) : Span := ofMillis d.wholeMillis

/-- The longer of two spans. -/
def longer (a b : Span) : Span := ⟨max a.nanos b.nanos⟩

theorem millis_le (d : Span) : d.millis ≤ millisLimit := Nat.min_le_right _ _

end Span

/-! ## Timestamps -/

/-- Milliseconds since the epoch, within the signed 64-bit range. -/
structure Timestamp where
  /-- the milliseconds, negative before the epoch -/
  millis : Int
  lower : -9223372036854775808 ≤ millis
  upper : millis ≤ 9223372036854775807
deriving DecidableEq

namespace Timestamp

/-- The epoch itself. -/
def epoch : Timestamp := ⟨0, by decide, by decide⟩

instance : Inhabited Timestamp := ⟨epoch⟩

/-- The representable moment nearest to the given number of milliseconds. -/
def clamp (z : Int) : Timestamp :=
  ⟨max (-9223372036854775808) (min z 9223372036854775807), by omega, by omega⟩

/-- The moment at exactly the given number of milliseconds, if it is representable. -/
def ofMillis? (z : Int) : Option Timestamp :=
  if h : -9223372036854775808 ≤ z ∧ z ≤ 9223372036854775807 then some ⟨z, h.1, h.2⟩ else none

/-- The moment so many milliseconds later, or the last representable one. -/
def add (t : Timestamp) (n : Nat) : Timestamp := clamp (t.millis + n)

/-- The moment so many milliseconds earlier, or the first representable one. -/
def back (t : Timestamp) (n : Nat) : Timestamp := clamp (t.millis - n)

/-- The milliseconds from `u` to `t`, saturated like a timestamp. -/
def sub (t u : Timestamp) : Timestamp := clamp (t.millis - u.millis)

instance : LT Timestamp := ⟨fun t u => t.millis < u.millis⟩

instance : LE Timestamp := ⟨fun t u => t.millis ≤ u.millis⟩

instance (t u : Timestamp) : Decidable (t < u) := inferInstanceAs (Decidable (t.millis < u.millis))

instance (t u : Timestamp) : Decidable (t ≤ u) := inferInstanceAs (Decidable (t.millis ≤ u.millis))

theorem lt_iff {t u : Timestamp} : t < u ↔ t.millis < u.millis := Iff.rfl

theorem le_iff {t u : Timestamp} : t ≤ u ↔ t.millis ≤ u.millis := Iff.rfl

@[ext] theorem ext {t u : Timestamp} (h : t.millis = u.millis) : t = u := by
  cases t; cases u; cases h; rfl

theorem ofMillis?_millis (t : Timestamp) : ofMillis? t.millis = some t := by
  simp [ofMillis?, t.lower, t.upper]

/-- Going forward only the upper end of the range can be hit. -/
theorem millis_add (t : Timestamp) (n : Nat) :
    (t.add n).millis = min (t.millis + n) 9223372036854775807 := by
  have h := t.lower
  simp only [add, clamp]
  omega

theorem millis_sub (t u : Timestamp) :
    (t.sub u).millis
      = max (-9223372036854775808) (min (t.millis - u.millis) 9223372036854775807) := rfl

end Timestamp

end SharedSession
