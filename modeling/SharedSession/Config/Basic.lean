import SharedSession.Lock.Processor

set_option autoImplicit false

/-!
# Settings

All times are policy and can be set. A field that is not set has its default.
-/

namespace SharedSession

/-- Which medium holds the shared session. -/
inductive StorageChoice where
  /-- a file that every process may share; without a path, the one in the user's directory -/
  | file (path : Option String)
  | memory (locking : Bool)
deriving DecidableEq, Repr, Inhabited

/-- The settings of a host. -/
structure Config where
  /-- how often the shared record is looked at; also the window of the activity throttle -/
  pollDelay : Span
  /-- how often a visible page prolongs its session -/
  visibilityCheckDelay : Span
  /-- how long a session lives without activity -/
  expirationDelay : Span
  /-- how long a session may last at all -/
  timeOutDelay : Span
  /-- the pause after a contended attempt -/
  lockRetryDelay : Span
  /-- the number of attempts before an operation is dropped -/
  lockMaxTries : UInt32
  /-- how often old contexts are forgotten -/
  historyClearInterval : Span
  storage : StorageChoice
deriving DecidableEq, Repr

namespace Config

/-- The settings where nothing is set. -/
def default : Config where
  pollDelay := .ofSecs 1
  visibilityCheckDelay := .ofSecs 60
  expirationDelay := .ofSecs (15 * 60)
  timeOutDelay := .ofSecs (4 * 60 * 60)
  lockRetryDelay := .ofMillis 10
  lockMaxTries := 100
  historyClearInterval := .ofSecs 60
  storage := .file none

instance : Inhabited Config := ⟨default⟩

/-- How the host deals with the lock. -/
def lockPolicy (c : Config) : LockPolicy :=
  ⟨c.lockRetryDelay, c.lockMaxTries.toNat, c.expirationDelay⟩

/-- The settings that are periods of timers, by name. -/
def timerPeriods (c : Config) : List (String × Span) :=
  [("poll_delay", c.pollDelay), ("visibility_check_delay", c.visibilityCheckDelay),
    ("history_clear_interval", c.historyClearInterval)]

/-- The name of the first timer period that is zero; no timer can tick at such a period. -/
def zeroTimerPeriod? (c : Config) : Option String :=
  (c.timerPeriods.find? fun e => e.2.nanos == 0).map (·.1)

end Config

end SharedSession
