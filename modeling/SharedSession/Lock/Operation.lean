import SharedSession.Storage.Medium
import SharedSession.Names

set_option autoImplicit false

/-!
# Operations on the shared session

An operation reads the shared record, decides what is to become of it, and is told the outcome
once it has settled. What it decides with, and what it changes on the side, is a state of the
writer's own, of a type `σ` that each kind of writer chooses.
-/

namespace SharedSession

/-- What an operation wants done with the shared record. -/
inductive Outcome where
  /-- store this record, with a new deadline; a cleared record is removed instead -/
  | persist (r : Record)
  | clear
  | unchanged
deriving DecidableEq, Inhabited

namespace Outcome

/-- The outcome as it is carried out at `now`: storing nothing but bookkeeping is removing, and
what is stored carries no lock and a deadline `d` ahead. -/
def resolve (now : Timestamp) (d : Span) : Outcome → Outcome
  | .persist r => if r.isCleared then .clear else .persist (r.withoutLock.expand now d)
  | .clear => .clear
  | .unchanged => .unchanged

theorem resolve_persist_of_cleared {r : Record} (now : Timestamp) (d : Span)
    (h : r.isCleared = true) : (persist r).resolve now d = .clear := by
  simp [resolve, h]

theorem resolve_persist_of_not_cleared {r : Record} (now : Timestamp) (d : Span)
    (h : r.isCleared = false) :
    (persist r).resolve now d = .persist (r.withoutLock.expand now d) := by
  simp [resolve, h]

end Outcome

/-- When an operation's decision is asked for, and a name that it may use for what it creates. -/
structure Occasion where
  now : Timestamp
  /-- a name that nobody has used before -/
  fresh : String
deriving DecidableEq

/-- A read-modify-write request against the shared record. -/
structure Operation (σ : Type) where
  /-- decides about the record; only the last decision of a run is carried out -/
  transform : Occasion → Record → σ → Outcome × σ
  /-- told the final record, in this order, once the operation has settled -/
  callbacks : List (Timestamp → Record → σ → σ)

namespace Operation

variable {σ : Type}

/-- The operation without anybody to tell. -/
def ofTransform (f : Occasion → Record → σ → Outcome × σ) : Operation σ := ⟨f, []⟩

/-- The operation that also tells `f`, after all others. -/
def onSettled (op : Operation σ) (f : Timestamp → Record → σ → σ) : Operation σ :=
  { op with callbacks := op.callbacks ++ [f] }

/-- Tells everybody the final record. -/
def settle (op : Operation σ) (now : Timestamp) (r : Record) (own : σ) : σ :=
  op.callbacks.foldl (fun own f => f now r own) own

end Operation

/-! ## The world of a writer -/

/-- What an operation acts on: the medium, the writer's own state and the source of names. -/
structure World (μ σ : Type) where
  medium : μ
  own : σ
  names : Supply

namespace World

variable {μ σ : Type}

/-- Reads the session. -/
def load (m : Medium μ) (w : World μ σ) : Record × World μ σ :=
  let (r, s) := m.load w.medium
  (r, { w with medium := s })

/-- Stores a session. -/
def save (m : Medium μ) (r : Record) (w : World μ σ) : World μ σ :=
  { w with medium := m.save r w.medium }

/-- Removes the session. -/
def wipe (m : Medium μ) (w : World μ σ) : World μ σ := { w with medium := m.wipe w.medium }

/-- Takes a fresh name. -/
def draw (w : World μ σ) : String × World μ σ :=
  let (name, names) := w.names.draw
  (name, { w with names := names })

/-- Asks an operation for its decision about a record. -/
def consult (op : Operation σ) (now : Timestamp) (r : Record) (w : World μ σ) :
    Outcome × World μ σ :=
  let (fresh, w) := w.draw
  let (outcome, own) := op.transform ⟨now, fresh⟩ r w.own
  (outcome, { w with own := own })

/-- Tells everybody that an operation has settled. -/
def settle (op : Operation σ) (now : Timestamp) (r : Record) (w : World μ σ) : World μ σ :=
  { w with own := op.settle now r w.own }

end World

end SharedSession
