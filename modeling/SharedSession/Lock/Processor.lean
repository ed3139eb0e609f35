import SharedSession.Lock.Attempt

set_option autoImplicit false

/-!
# The queue of a writer

All operations of one writer go through one queue and are served strictly one after another. Where
the medium asks for the lock, a contended attempt is followed by a pause and another attempt, up to
a limit; then the operation is dropped without a word. While an operation pauses, the ones behind
it wait.

Time is counted in ticks, the whole milliseconds since the writer's clock was started; a pause that
ends within a tick is over at its end, and none is longer than `Span.longestWait`.

`Processor.serve` does all that can be done at one moment. Its recursion is over the queue, and for
each operation over the attempts that are left to it.
-/

namespace SharedSession

namespace Span

/-- The ticks in a span: its milliseconds, a begun one counted as whole. -/
def ticks (d : Span) : Nat := d.wholeMillis + if d.nanos % nanosPerMilli = 0 then 0 else 1

/-- The longest time that anybody waits: thirty years of 365 days. -/
def longestWait : Span := .ofSecs (30 * 365 * 24 * 60 * 60)

/-- The ticks that waiting for a span takes. -/
def waitTicks (d : Span) : Nat := min d.ticks longestWait.ticks

end Span

/-- How a writer deals with the lock. -/
structure LockPolicy where
  /-- the pause after a contended attempt -/
  retryDelay : Span
  /-- the number of attempts before an operation is dropped -/
  maxTries : Nat
  /-- how far ahead a new deadline lies -/
  expirationDelay : Span
deriving DecidableEq, Repr, Inhabited

/-- What the one who asked for a job is told at its end. -/
inductive Reply where
  | settled (result : Record)
  | dropped
  /-- everything queued before has been served -/
  | flushed
deriving DecidableEq

/-- An entry of the queue. -/
inductive Job (σ : Type) where
  /-- an operation, and whether somebody waits for the reply -/
  | run (op : Operation σ) (isAwaited : Bool)
  /-- a mark that is reached when everything before it has been served -/
  | barrier

/-- An operation between two attempts. -/
structure Pause (σ : Type) where
  op : Operation σ
  /-- whether somebody waits for the reply -/
  isAwaited : Bool
  triesLeft : Nat
  /-- the tick at which the pause is over -/
  wake : Nat

/-- A writer's queue. -/
structure Processor (σ : Type) where
  policy : LockPolicy
  /-- what has not begun, oldest first -/
  queue : List (Job σ)
  /-- the operation that pauses, if one does -/
  pause : Option (Pause σ)
  /-- the replies that have not been collected, oldest first -/
  replies : List Reply
  /-- whether the writer has been stopped for good -/
  isStopped : Bool

/-- How far an operation has come at the present moment. -/
inductive Progress (σ : Type) where
  | done (reply : Reply)
  | pausing (p : Pause σ)

namespace Processor

variable {μ σ : Type}

/-- A queue with nothing in it. -/
def new (policy : LockPolicy) : Processor σ := ⟨policy, [], none, [], false⟩

/-! ## Submitting -/

/-- Notes a reply if somebody waits for it. -/
def reply (p : Processor σ) (isAwaited : Bool) (r : Reply) : Processor σ :=
  if isAwaited then { p with replies := p.replies ++ [r] } else p

/-- Puts an operation at the end of the queue. After a stop it is dropped at once. -/
def submit (p : Processor σ) (op : Operation σ) (isAwaited : Bool) : Processor σ :=
  if p.isStopped then p.reply isAwaited .dropped
  else { p with queue := p.queue ++ [.run op isAwaited] }

/-- Puts a mark at the end of the queue. After a stop it is reached at once. -/
def flush (p : Processor σ) : Processor σ :=
  if p.isStopped then p.reply true .flushed
  else { p with queue := p.queue ++ [.barrier] }

/-- Ends the writer: what pauses and what waits is dropped without a trace. -/
def stop (p : Processor σ) : Processor σ :=
  { p with queue := [], pause := none, isStopped := true }

/-- The replies up to now, and the queue without them. -/
def collect (p : Processor σ) : List Reply × Processor σ := (p.replies, { p with replies := [] })

/-! ## Serving -/

/-- Makes attempts at the present moment until the operation settles, pauses or has used up its
tries. -/
def attempts (m : Medium μ) (policy : LockPolicy) (now : Timestamp) (tick : Nat)
    (op : Operation σ) (isAwaited : Bool) : Nat → World μ σ → Progress σ × World μ σ
  | 0, w => (.done .dropped, w)
  | left + 1, w =>
    match Attempt.locked m op policy.expirationDelay now w with
    | (.settled r, w) => (.done (.settled r), w.settle op now r)
    | (.contended _, w) =>
      if policy.retryDelay.waitTicks = 0 then attempts m policy now tick op isAwaited left w
      else (.pausing ⟨op, isAwaited, left, tick + policy.retryDelay.waitTicks⟩, w)

/-- Begins an operation. -/
def start (m : Medium μ) (policy : LockPolicy) (now : Timestamp) (tick : Nat)
    (op : Operation σ) (isAwaited : Bool) (w : World μ σ) : Progress σ × World μ σ :=
  if m.locking then attempts m policy now tick op isAwaited policy.maxTries w
  else
    let (r, w) := Attempt.unlocked m op policy.expirationDelay now w
    (.done (.settled r), w.settle op now r)

/-- Serves jobs one after another until one pauses. -/
def serveJobs (m : Medium μ) (now : Timestamp) (tick : Nat) :
    List (Job σ) → Processor σ → World μ σ → Processor σ × World μ σ
  | [], p, w => ({ p with queue := [] }, w)
  | .barrier :: jobs, p, w => serveJobs m now tick jobs (p.reply true .flushed) w
  | .run op isAwaited :: jobs, p, w =>
    match start m p.policy now tick op isAwaited w with
    | (.done r, w) => serveJobs m now tick jobs (p.reply isAwaited r) w
    | (.pausing z, w) => ({ p with queue := jobs, pause := some z }, w)

/-- Does all that can be done now: goes on with the operation whose pause is over, then with the
queue. -/
def serve (m : Medium μ) (now : Timestamp) (tick : Nat) (p : Processor σ) (w : World μ σ) :
    Processor σ × World μ σ :=
  match p.pause with
  | none => serveJobs m now tick p.queue p w
  | some z =>
    if tick < z.wake then (p, w)
    else
      match attempts m p.policy now tick z.op z.isAwaited z.triesLeft w with
      | (.done r, w) => serveJobs m now tick p.queue ({ p with pause := none }.reply z.isAwaited r) w
      | (.pausing z, w) => ({ p with pause := some z }, w)

/-- The tick at which the queue goes on by itself. -/
def due? (p : Processor σ) : Option Nat := p.pause.map (·.wake)

/-- A number of ticks within which everything in the queue is served: each job pauses at most as
often as it is tried. -/
def patience (p : Processor σ) : Nat :=
  (p.queue.length + 1) * p.policy.maxTries * p.policy.retryDelay.waitTicks + 1

end Processor

end SharedSession
