import SharedSession.Time

set_option autoImplicit false

/-!
# Past values by time

A history says which value held at which time, so that an event can be given the session that was
active when it happened, even after that session has ended. Entries stand newest first; the newest
may be open, which means that its value still holds. Both ends of a span belong to it.
-/

namespace SharedSession

/-- A value and the span of time over which it held. -/
structure HistoryEntry (α : Type) where
  value : α
  /-- the first moment at which it held -/
  start : Timestamp
  /-- the last moment at which it held, absent while it still holds -/
  stop : Option Timestamp
deriving DecidableEq

namespace HistoryEntry

variable {α : Type}

/-- Whether the value still holds. -/
def isOpen (e : HistoryEntry α) : Bool := e.stop.isNone

/-- Whether the value held at a moment. -/
def covers (e : HistoryEntry α) (t : Timestamp) : Bool :=
  e.start ≤ t && (match e.stop with
    | some stop => t ≤ stop
    | none => true)

/-- Whether the value holds or ended no earlier than the given moment. -/
def endsFrom (e : HistoryEntry α) (threshold : Timestamp) : Bool :=
  match e.stop with
  | some stop => threshold ≤ stop
  | none => true

/-- The entry with an end, if it had none. -/
def close (e : HistoryEntry α) (stop : Timestamp) : HistoryEntry α :=
  { e with stop := some (e.stop.getD stop) }

end HistoryEntry

/-- The values that held, newest first, and how long an ended one stays known. -/
structure History (α : Type) where
  /-- how long an ended value stays known -/
  retention : Span
  /-- the values with their spans, newest first -/
  entries : List (HistoryEntry α)
deriving DecidableEq

namespace History

variable {α : Type}

/-- The history in which nothing has held yet. -/
def new (retention : Span) : History α := ⟨retention, []⟩

/-- Notes that a value holds from `start` on. -/
def add (h : History α) (value : α) (start : Timestamp) : History α :=
  { h with entries := ⟨value, start, none⟩ :: h.entries }

/-- Ends the newest entry if it is open. -/
def closeActive (h : History α) (stop : Timestamp) : History α :=
  { h with entries := match h.entries with
      | e :: es => e.close stop :: es
      | [] => [] }

/-- The value that still holds. -/
def current? (h : History α) : Option α := (h.entries.head?.filter (·.isOpen)).map (·.value)

/-- The newest value that held at a moment. -/
def at? (h : History α) (t : Timestamp) : Option α :=
  (h.entries.find? (·.covers t)).map (·.value)

/-- The value at a moment, or the one that still holds if no moment is given. -/
def find? (h : History α) : Option Timestamp → Option α
  | none => h.current?
  | some t => h.at? t

/-- Forgets what ended more than the retention before `now`. -/
def clearOld (h : History α) (now : Timestamp) : History α :=
  { h with entries := h.entries.filter (·.endsFrom (now.back h.retention.millis)) }

/-- Forgets everything. -/
def reset (h : History α) : History α := { h with entries := [] }

/-- The number of entries. -/
def size (h : History α) : Nat := h.entries.length

/-- Whether there are no entries. -/
def isEmpty (h : History α) : Bool := h.entries.isEmpty

end History

end SharedSession
