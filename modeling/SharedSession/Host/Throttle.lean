set_option autoImplicit false

/-!
# A throttle

Calls come at any rate, runs do not. The first call in a window runs at once; further calls within
the window fall together into one run at its end, which opens the next window. Times are natural
numbers of any unit.
-/

namespace SharedSession

/-- A throttle and what it has seen. -/
structure Throttle where
  /-- the least time between two runs -/
  window : Nat
  lastRun : Option Nat
  /-- whether a call waits for the end of the window -/
  isPending : Bool
deriving DecidableEq, Repr, Inhabited

namespace Throttle

/-- A throttle that has seen nothing. -/
def new (window : Nat) : Throttle := ⟨window, none, false⟩

/-- When the waiting call is due. -/
def deadline? (t : Throttle) : Option Nat :=
  match t.isPending, t.lastRun with
  | true, some last => some (last + t.window)
  | _, _ => none

/-- The throttle after a run. -/
def ran (t : Throttle) (now : Nat) : Throttle := { t with lastRun := some now, isPending := false }

/-- Whether a call at `now` falls into the window of the latest run. -/
def isWithin (t : Throttle) (now : Nat) : Bool :=
  match t.lastRun with
  | some last => now < last + t.window
  | none => false

/-- A call: whether it runs now. -/
def hit (t : Throttle) (now : Nat) : Bool × Throttle :=
  if t.isWithin now then (false, { t with isPending := true }) else (true, t.ran now)

/-- Runs the waiting call if it is due. -/
def takeTrailing (t : Throttle) (now : Nat) : Bool × Throttle :=
  match t.deadline? with
  | some deadline => if deadline ≤ now then (true, t.ran now) else (false, t)
  | none => (false, t)

/-- So many calls at one time: how many of them run. -/
def hits (now : Nat) : Nat → Throttle → Nat × Throttle
  | 0, t => (0, t)
  | n + 1, t =>
    let (runs, t) := t.hit now
    let (more, t) := hits now n t
    ((if runs then 1 else 0) + more, t)

end Throttle

end SharedSession
