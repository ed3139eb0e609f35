import SharedSession.Timeline

set_option autoImplicit false

/-!
# Removing the stored session

The session is removed by an operation of its own, under the lock if the medium has one. Where a
writer died and left its lock behind, that operation is dropped; then the session can be removed
past the lock. Either way it is said whether the removal is reported as done.
-/

namespace SharedSession.CommandLine

variable {μ : Type}

/-- The operation that removes the session. -/
def removal : Operation Unit := .ofTransform fun _ _ own => (.clear, own)

/-- Whether the first reply is that of an operation which settled. -/
def hasSettled : List Reply → Bool
  | .settled _ :: _ => true
  | _ => false

/-- Removes the session under the lock. -/
def expire (m : Medium μ) (k : Backing μ) (policy : LockPolicy) (now : Timestamp) (names : Supply)
    (s : μ) : Bool × μ :=
  let bench : Bench μ Unit := ⟨⟨now, 0, []⟩, .new policy, ⟨s, (), names⟩⟩
  let (replies, bench) := bench.run m k removal
  (hasSettled replies, bench.world.medium)

/-- Removes the session past the lock. It is read before, for the sake of a warning about a lock
that somebody may still hold. -/
def forceExpire (m : Medium μ) (s : μ) : Bool × μ := (true, m.wipe (m.load s).2)

/-- What is said about a removal that is reported as done. -/
def removalLine (force : Bool) : String :=
  if force then "Session cleared (forced)" else "Session cleared"

/-- What is said about a removal that was dropped. -/
def droppedLine : String := "Session is locked by another writer; nothing cleared"

end SharedSession.CommandLine
