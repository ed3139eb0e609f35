import SharedSession.Lock.Processor

set_option autoImplicit false

/-!
# The course of time

A timeline is a clock that starts at some moment and counts ticks from there, together with the
changes that others will make to the stored text at known ticks. Time only passes while somebody
waits: it goes from one tick at which something is due straight to the next.

`Bench` runs the queue of a single writer along a timeline.
-/

namespace SharedSession

/-- A change to the stored text that another writer will make. -/
structure ForeignWrite where
  tick : Nat
  /-- what is stored from then on -/
  raw : Option String
deriving DecidableEq, Repr, Inhabited

/-- A clock and the changes that others will make. -/
structure Timeline where
  /-- the moment at which the clock was started -/
  start : Timestamp
  /-- the milliseconds that have passed since -/
  tick : Nat
  writes : List ForeignWrite
deriving DecidableEq

namespace Timeline

variable {μ : Type}

/-- The present moment. -/
def now (t : Timeline) : Timestamp := t.start.add t.tick

/-- The changes that are due. -/
def dueWrites (t : Timeline) : List ForeignWrite := t.writes.filter (·.tick ≤ t.tick)

/-- Makes the changes that are due, in the order in which they were announced. -/
def applyWrites (t : Timeline) (b : Backing μ) (s : μ) : Timeline × μ :=
  ({ t with writes := t.writes.filter fun w => t.tick < w.tick },
    t.dueWrites.foldl (fun s w => b.overwrite w.raw s) s)

/-- Announces a change so many ticks ahead. -/
def announce (t : Timeline) (ahead : Nat) (raw : Option String) : Timeline :=
  { t with writes := t.writes ++ [⟨t.tick + ahead, raw⟩] }

/-- The same timeline at another tick. -/
def moveTo (t : Timeline) (tick : Nat) : Timeline := { t with tick := tick }

/-- The earlier of two ticks, of which either may be missing. -/
def earlier : Option Nat → Option Nat → Option Nat
  | none, b => b
  | a, none => a
  | some a, some b => some (min a b)

/-- The first tick at which a change is due. -/
def due? (t : Timeline) : Option Nat := t.writes.foldl (fun d w => earlier d (some w.tick)) none

end Timeline

/-- A writer's queue along a timeline. -/
structure Bench (μ σ : Type) where
  /-- the clock and the changes that others will make -/
  timeline : Timeline
  processor : Processor σ
  world : World μ σ

namespace Bench

variable {μ σ : Type}

/-- Does all that can be done at the present tick. -/
def settle (m : Medium μ) (b : Backing μ) (x : Bench μ σ) : Bench μ σ :=
  let (timeline, medium) := x.timeline.applyWrites b x.world.medium
  let (processor, world) :=
    x.processor.serve m timeline.now timeline.tick { x.world with medium := medium }
  ⟨timeline, processor, world⟩

/-- The next tick at which something is due. -/
def due? (x : Bench μ σ) : Option Nat :=
  Timeline.earlier x.timeline.due? x.processor.due?

/-- Lets time pass, at most so many ticks, until there is a reply. -/
def waitFor (m : Medium μ) (b : Backing μ) : Nat → Bench μ σ → Bench μ σ
  | 0, x => x
  | fuel + 1, x =>
    if !x.processor.replies.isEmpty then x
    else match x.due? with
      | none => x
      | some tick =>
        let next := max tick (x.timeline.tick + 1)
        waitFor m b fuel (settle m b { x with timeline := x.timeline.moveTo next })

/-- Serves the queue and waits until there is a reply. -/
def await (m : Medium μ) (b : Backing μ) (x : Bench μ σ) : List Reply × Bench μ σ :=
  let x := settle m b x
  let x := waitFor m b x.processor.patience x
  let (replies, processor) := x.processor.collect
  (replies, { x with processor := processor })

/-- Submits an operation and waits until it is over. -/
def run (m : Medium μ) (b : Backing μ) (op : Operation σ) (x : Bench μ σ) :
    List Reply × Bench μ σ :=
  await m b { x with processor := x.processor.submit op true }

/-- Waits until everything submitted before has been served. -/
def flush (m : Medium μ) (b : Backing μ) (x : Bench μ σ) : List Reply × Bench μ σ :=
  await m b { x with processor := x.processor.flush }

end Bench

end SharedSession
