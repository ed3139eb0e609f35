import SharedSession.Lock.Operation

set_option autoImplicit false

/-!
# One attempt under the lock

A medium cannot compare and swap, so writers keep off each other with a lock that they write into
the record: a token that nobody else has. An attempt reads the record and gives way to any lock it
finds; it writes the record with its own token, and from then on reads the token back before every
step that counts. Whoever finds another token, or none, has lost the lock to a contender and gives
up the attempt.

A `Stage` says where an attempt stands and what it knows there. Each stage but the two final ones
makes one call on the medium, so two attempts can be set against each other call by call:
`Stage.step` makes the next call. `Stage.run` makes an attempt's calls one after another;
`Stage.calls` counts how many are left at most.
-/

namespace SharedSession

/-- Where an attempt finds out that a contender is at work. -/
inductive Checkpoint where
  /-- at the first read: somebody holds the lock -/
  | initial
  /-- at the second: the own lock was overwritten -/
  | acquired
  /-- at the third: the lock changed during the decision -/
  | postProcess
  /-- at the fourth: the result was overwritten -/
  | postPersist
deriving DecidableEq, Repr, Inhabited

/-- Where an attempt stands. -/
inductive Stage where
  /-- about to read the record for the first time -/
  | opening
  /-- about to write the record that was read, with the own token -/
  | locking (token : String) (base : Record)
  /-- about to read the token back and to ask for the decision -/
  | confirming (token : String)
  /-- about to read the token back and to carry out the decision -/
  | rechecking (token : String) (outcome : Outcome)
  /-- about to write the result, with the own token -/
  | writing (token : String) (result : Record)
  /-- about to remove the record, and the lock with it -/
  | clearing
  /-- about to read the result back -/
  | verifying (token : String)
  /-- about to write the record that was read back, without a lock -/
  | releasing (result : Record)
  | settled (result : Record)
  | contended (found : Checkpoint)
deriving DecidableEq, Inhabited

namespace Stage

variable {μ σ : Type}

/-- Whether the attempt is over. -/
def isFinal : Stage → Bool
  | .settled _ => true
  | .contended _ => true
  | _ => false

/-- How many calls an attempt makes from here on at most. -/
def calls : Stage → Nat
  | .opening => 7
  | .locking _ _ => 6
  | .confirming _ => 5
  | .rechecking _ _ => 4
  | .writing _ _ => 3
  | .verifying _ => 2
  | .clearing => 1
  | .releasing _ => 1
  | .settled _ => 0
  | .contended _ => 0

/-- Makes the next call. The deadline of what is stored lies `d` ahead of the present moment. -/
def step (m : Medium μ) (op : Operation σ) (d : Span) (now : Timestamp) :
    Stage → World μ σ → Stage × World μ σ
  | .opening, w =>
    let (r, w) := w.load m
    if r.lock?.isSome then (.contended .initial, w)
    else
      let (token, w) := w.draw
      (.locking token r, w)
  | .locking token base, w => (.confirming token, w.save m (base.withLock token))
  | .confirming token, w =>
    let (r, w) := w.load m
    if r.lock? = some token then
      let (outcome, w) := w.consult op now r.withoutLock
      (.rechecking token outcome, w)
    else (.contended .acquired, w)
  | .rechecking token outcome, w =>
    let (r, w) := w.load m
    if r.lock? = some token then
      match outcome.resolve now d with
      | .persist result => (.writing token result, w)
      | .clear => (.clearing, w)
      | .unchanged => (.verifying token, w)
    else (.contended .postProcess, w)
  | .writing token result, w => (.verifying token, w.save m (result.withLock token))
  | .clearing, w => (.settled ∅, w.wipe m)
  | .verifying token, w =>
    let (r, w) := w.load m
    if r.lock? = some token then (.releasing r.withoutLock, w)
    else (.contended .postPersist, w)
  | .releasing result, w => (.settled result, w.save m result)
  | .settled result, w => (.settled result, w)
  | .contended found, w => (.contended found, w)

/-- Makes so many calls, all at one moment. -/
def run (m : Medium μ) (op : Operation σ) (d : Span) (now : Timestamp) :
    Nat → Stage → World μ σ → Stage × World μ σ
  | 0, stage, w => (stage, w)
  | n + 1, stage, w =>
    let (stage, w) := stage.step m op d now w
    run m op d now n stage w

theorem isFinal_iff_calls (s : Stage) : s.isFinal ↔ s.calls = 0 := by
  cases s <;> simp [isFinal, calls]

/-- Every call brings an attempt nearer to its end. -/
theorem calls_step (m : Medium μ) (op : Operation σ) (d : Span) (now : Timestamp) (s : Stage)
    (w : World μ σ) : (s.step m op d now w).1.calls ≤ s.calls - 1 := by
  cases s with
  | opening => simp only [step]; split <;> simp [calls]
  | locking token base => simp [step, calls]
  | confirming token => simp only [step]; split <;> simp [calls]
  | rechecking token outcome =>
    simp only [step]
    split
    · split <;> simp [calls]
    · simp [calls]
  | writing token result => simp [step, calls]
  | clearing => simp [step, calls]
  | verifying token => simp only [step]; split <;> simp [calls]
  | releasing result => simp [step, calls]
  | settled result => simp [step, calls]
  | contended found => simp [step, calls]

/-- As many calls as are left bring an attempt to its end. -/
theorem isFinal_run (m : Medium μ) (op : Operation σ) (d : Span) (now : Timestamp) (n : Nat)
    (s : Stage) (w : World μ σ) (h : s.calls ≤ n) : (s.run m op d now n w).1.isFinal := by
  induction n generalizing s w with
  | zero => exact (isFinal_iff_calls s).2 (Nat.le_zero.1 h)
  | succ n ih =>
    exact ih _ _ (Nat.le_trans (calls_step m op d now s w) (by omega))

end Stage

/-! ## Whole attempts -/

/-- How an attempt ended. -/
inductive Attempt where
  | settled (result : Record)
  | contended (found : Checkpoint)
deriving DecidableEq

namespace Attempt

variable {μ σ : Type}

/-- How the attempt at a stage ended; an attempt that has not ended counts as given up. -/
def ofStage : Stage → Attempt
  | .settled result => .settled result
  | .contended found => .contended found
  | _ => .contended .initial

/-- A whole attempt at one moment. From the first stage there are at most seven calls. -/
def locked (m : Medium μ) (op : Operation σ) (d : Span) (now : Timestamp) (w : World μ σ) :
    Attempt × World μ σ :=
  let (stage, w) := Stage.opening.run m op d now 7 w
  (ofStage stage, w)

/-- Without other writers there is nothing to lock: read, decide, write. -/
def unlocked (m : Medium μ) (op : Operation σ) (d : Span) (now : Timestamp) (w : World μ σ) :
    Record × World μ σ :=
  let (r, w) := w.load m
  let current := r.withoutLock
  let (outcome, w) := w.consult op now current
  match outcome.resolve now d with
  | .persist result => (result, w.save m result)
  | .clear => (∅, w.wipe m)
  | .unchanged => (current, w)

end Attempt

end SharedSession
