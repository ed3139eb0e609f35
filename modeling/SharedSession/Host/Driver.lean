import SharedSession.Config.Basic
import SharedSession.Host.Throttle
import SharedSession.Product.Request

set_option autoImplicit false

/-!
# The driver of a product

From its start on a product is driven by timers and signals:

* at every poll it looks whether the session is over;
* while the page is visible it prolongs its session, from time to time and when the page becomes
  visible;
* upon activity, throttled, it prolongs the session or begins one;
* from time to time it forgets old contexts.

A timer ticks at the multiples of its period after the start. All times are in nanoseconds since
the clock was started; what is due within a tick of the clock happens at its end.
-/

namespace SharedSession

/-- The nanoseconds since the start of the clock at a tick. -/
def nanosAt (tick : Nat) : Nat := tick * Span.nanosPerMilli

/-- The tick at whose end a time in nanoseconds has come. -/
def tickOf (nanos : Nat) : Nat := (Span.mk nanos).ticks

/-- A timer. -/
structure Interval where
  period : Nat
  next : Nat
deriving DecidableEq, Repr, Inhabited

namespace Interval

/-- The shortest period of a timer. -/
def shortest : Span := .ofMillis 1

/-- The span that the clock can count: the seconds that a signed 64-bit word holds. -/
def clockReach : Span := .ofSecs 9223372036854775807

/-- Whether a timer with a period can be set: its first tick must be within the clock's reach. -/
def canBeSet (period : Span) : Bool := period.nanos < clockReach.nanos

/-- A timer that is started at a tick of the clock. -/
def new (period : Span) (tick : Nat) : Interval :=
  let p := (period.longer shortest).nanos
  ⟨p, nanosAt tick + p⟩

/-- The tick of the clock at which the timer ticks next. -/
def due (i : Interval) : Nat := tickOf i.next

/-- Whether the timer ticks now, and the timer after that. -/
def fire (i : Interval) (tick : Nat) : Bool × Interval :=
  if i.due ≤ tick then (true, { i with next := i.next + i.period }) else (false, i)

end Interval

/-- The timers and signals that drive one product. -/
structure Driver where
  product : Nat
  /-- ticks when the record is to be looked at -/
  poll : Interval
  /-- ticks when a visible page prolongs its session -/
  visibilityCheck : Interval
  /-- ticks when old contexts are to be forgotten -/
  cleanUp : Interval
  throttle : Throttle
  /-- the signals of activity that have not been looked at -/
  unread : Nat
  /-- whether the visibility was set and not looked at since -/
  isVisibilityNew : Bool
deriving DecidableEq, Repr, Inhabited

namespace Driver

/-- How many signals of activity are kept; more than these count like these. -/
def activityCapacity : Nat := 64

/-- The driver of a product that starts at a tick. If one of the timers cannot be set, there is
none: nothing drives the product then. -/
def new? (c : Config) (product tick : Nat) : Option Driver :=
  if c.timerPeriods.all fun e => Interval.canBeSet e.2 then
    some {
      product := product
      poll := .new c.pollDelay tick
      visibilityCheck := .new c.visibilityCheckDelay tick
      cleanUp := .new c.historyClearInterval tick
      throttle := .new (c.pollDelay.longer Interval.shortest).nanos
      unread := 0
      isVisibilityNew := false }
  else none

/-- Takes signals of activity. -/
def notify (d : Driver) (count : Nat) : Driver :=
  { d with unread := min (d.unread + count) activityCapacity }

/-- Learns that the visibility was set. -/
def noteVisibility (d : Driver) : Driver := { d with isVisibilityNew := true }

/-- What a driver does at a tick: its requests in order, and whether old contexts are to be
forgotten. -/
structure Turn where
  requests : List Request
  cleansUp : Bool
  driver : Driver

/-- Does what is due at a tick. -/
def turn (d : Driver) (isVisible : Bool) (tick : Nat) : Turn :=
  let nanos := nanosAt tick
  let (polls, poll) := d.poll.fire tick
  let (checks, visibilityCheck) := d.visibilityCheck.fire tick
  let (runs, throttle) := d.throttle.hits nanos d.unread
  let (trails, throttle) := throttle.takeTrailing nanos
  let (cleans, cleanUp) := d.cleanUp.fire tick
  { requests :=
      (if polls then [.watch] else [])
      ++ (if checks && isVisible then [.expand] else [])
      ++ (if d.isVisibilityNew && isVisible then [.expand] else [])
      ++ List.replicate runs .expandOrRenew
      ++ (if trails then [.expandOrRenew] else [])
    cleansUp := cleans
    driver := { d with poll, visibilityCheck, throttle, cleanUp
                       unread := 0, isVisibilityNew := false } }

/-- The next tick at which something is due without a signal. -/
def due (d : Driver) : Nat :=
  let timers := min (min d.poll.due d.visibilityCheck.due) d.cleanUp.due
  match d.throttle.deadline? with
  | some deadline => min timers (tickOf deadline)
  | none => timers

end Driver

end SharedSession
