import Mathlib.Logic.Relation
import SharedSession.Proofs.Lock.Segment

set_option autoImplicit false

/-!
# A queue served one job after another

Serving a queue does all that can be done at one moment. `Processor.serveNext` does the first of it:
the operation in hand goes on, or the next job begins, up to its end or to a pause. Serving is doing
that again and again, so whatever one job leaves alone, the whole queue does.

An operation acts on a writer's own state only when it is asked for its decision and when it is told
the result; how often that happens, and what the medium answers, makes no difference to what both of
them keep.

Main statements: `Processor.serve_steps`, `Processor.operations_serveNext`,
`Processor.own_serveNext`.
-/

namespace SharedSession

variable {μ σ : Type}

/-! ## What an operation keeps -/

/-- Something is true of the writer's own state after an operation was asked, or told its end, if it
was before. -/
structure Operation.Keeps (op : Operation σ) (P : σ → Prop) : Prop where
  transform : ∀ o r own, P own → P (op.transform o r own).2
  settle : ∀ now r own, P own → P (op.settle now r own)

section

variable {P : σ → Prop} {op : Operation σ} (m : Medium μ) (d : Span) (now : Timestamp)

theorem World.own_consult (h : op.Keeps P) (r : Record) {w : World μ σ} (hw : P w.own) :
    P (w.consult op now r).2.own :=
  h.transform _ r w.own hw

theorem Stage.own_step (h : op.Keeps P) (s : Stage) {w : World μ σ} (hw : P w.own) :
    P (s.step m op d now w).2.own := by
  have hload : P (w.load m).2.own := hw
  cases s with
  | opening =>
    simp only [step]
    split
    · exact hload
    · exact hload
  | locking token base => exact hw
  | confirming token =>
    simp only [step]
    split
    · exact World.own_consult now h _ hload
    · exact hload
  | rechecking token outcome =>
    simp only [step]
    split
    · split <;> exact hload
    · exact hload
  | writing token result => exact hw
  | clearing => exact hw
  | verifying token =>
    simp only [step]
    split <;> exact hload
  | releasing result => exact hw
  | settled result => exact hw
  | contended found => exact hw

theorem Stage.own_run (h : op.Keeps P) (n : Nat) (s : Stage) {w : World μ σ} (hw : P w.own) :
    P (s.run m op d now n w).2.own := by
  induction n generalizing s w with
  | zero => exact hw
  | succ n ih => exact ih _ (Stage.own_step m d now h s hw)

theorem Attempt.own_unlocked (h : op.Keeps P) {w : World μ σ} (hw : P w.own) :
    P (Attempt.unlocked m op d now w).2.own := by
  have hconsulted : P ((w.load m).2.consult op now (w.load m).1.withoutLock).2.own :=
    World.own_consult now h _ (w := (w.load m).2) hw
  unfold Attempt.unlocked
  dsimp only
  split <;> exact hconsulted

end

namespace Processor

section

variable {P : σ → Prop} {op : Operation σ} (m : Medium μ) (policy : LockPolicy) (now : Timestamp)
  (tick : Nat) (isAwaited : Bool)

theorem own_attempts (h : op.Keeps P) (left : Nat) {w : World μ σ} (hw : P w.own) :
    P (attempts m policy now tick op isAwaited left w).2.own := by
  induction left generalizing w with
  | zero => exact hw
  | succ left ih =>
    have hlocked : P (Attempt.locked m op policy.expirationDelay now w).2.own :=
      Stage.own_run m policy.expirationDelay now h 7 .opening hw
    unfold attempts
    split
    · next r v heq =>
      rw [heq] at hlocked
      exact h.settle now r v.own hlocked
    · next found v heq =>
      rw [heq] at hlocked
      split
      · exact ih hlocked
      · exact hlocked

theorem own_start (h : op.Keeps P) {w : World μ σ} (hw : P w.own) :
    P (start m policy now tick op isAwaited w).2.own := by
  unfold start
  split
  · exact own_attempts m policy now tick isAwaited h policy.maxTries hw
  · exact h.settle now _ _ (Attempt.own_unlocked m policy.expirationDelay now h hw)

/-- What pauses is the operation that was tried. -/
theorem op_of_attempts {left : Nat} {w v : World μ σ} {z : Pause σ}
    (h : attempts m policy now tick op isAwaited left w = (.pausing z, v)) : z.op = op := by
  induction left generalizing w with
  | zero => cases h
  | succ left ih =>
    unfold attempts at h
    split at h
    · cases h
    · split at h
      · exact ih h
      · cases h
        rfl

theorem op_of_start {w v : World μ σ} {z : Pause σ}
    (h : start m policy now tick op isAwaited w = (.pausing z, v)) : z.op = op := by
  unfold start at h
  split at h
  · exact op_of_attempts m policy now tick isAwaited h
  · cases h

end

/-! ## One job after another -/

/-- The queue when an operation in hand has ended or pauses. -/
def proceed (p : Processor σ) (isAwaited : Bool) : Progress σ × World μ σ → Processor σ × World μ σ
  | (.done r, w) => (p.reply isAwaited r, w)
  | (.pausing z, w) => ({ p with pause := some z }, w)

/-- Goes on with the operation whose pause is over, or else begins the next job. -/
def serveNext (m : Medium μ) (now : Timestamp) (tick : Nat) (p : Processor σ) (w : World μ σ) :
    Processor σ × World μ σ :=
  match p.pause with
  | some z =>
    if tick < z.wake then (p, w)
    else { p with pause := none }.proceed z.isAwaited
      (attempts m p.policy now tick z.op z.isAwaited z.triesLeft w)
  | none =>
    match p.queue with
    | [] => (p, w)
    | .barrier :: jobs => ({ p with queue := jobs }.reply true .flushed, w)
    | .run op isAwaited :: jobs =>
      { p with queue := jobs }.proceed isAwaited (start m p.policy now tick op isAwaited w)

section

variable (m : Medium μ) (now : Timestamp) (tick : Nat)

/-- One queue and its world come from another by serving one job. -/
def Steps (x y : Processor σ × World μ σ) : Prop := y = x.1.serveNext m now tick x.2

theorem reply_queue (p : Processor σ) (jobs : List (Job σ)) (isAwaited : Bool) (r : Reply) :
    { p with queue := jobs }.reply isAwaited r = { p.reply isAwaited r with queue := jobs } := by
  cases isAwaited <;> rfl

theorem serveJobs_steps (jobs : List (Job σ)) {p : Processor σ} (hpause : p.pause = none)
    (w : World μ σ) : Relation.ReflTransGen (Steps m now tick) ({ p with queue := jobs }, w)
      (serveJobs m now tick jobs p w) := by
  induction jobs generalizing p w with
  | nil => exact .refl
  | cons job jobs ih =>
    have hrest : ∀ (isAwaited : Bool) (r : Reply) (v : World μ σ),
        Relation.ReflTransGen (Steps m now tick) ({ p with queue := jobs }.reply isAwaited r, v)
          (serveJobs m now tick jobs (p.reply isAwaited r) v) := by
      intro isAwaited r v
      rw [reply_queue]
      exact ih ((pause_reply _ _ _).trans hpause) v
    cases job with
    | barrier =>
      have hstep : serveNext m now tick { p with queue := .barrier :: jobs } w
          = ({ p with queue := jobs }.reply true .flushed, w) := by
        simp only [serveNext, hpause]
      exact .head hstep.symm (hrest true .flushed w)
    | run op isAwaited =>
      have hstep : serveNext m now tick { p with queue := .run op isAwaited :: jobs } w
          = { p with queue := jobs }.proceed isAwaited
            (start m p.policy now tick op isAwaited w) := by
        simp only [serveNext, hpause]
      unfold serveJobs
      cases hs : start m p.policy now tick op isAwaited w with
      | mk progress v =>
        rw [hs] at hstep
        cases progress with
        | done r => exact .head hstep.symm (hrest isAwaited r v)
        | pausing z => exact .single hstep.symm

/-- Serving the queue is serving one job after another. -/
theorem serve_steps (p : Processor σ) (w : World μ σ) :
    Relation.ReflTransGen (Steps m now tick) (p, w) (p.serve m now tick w) := by
  unfold serve
  cases hpause : p.pause with
  | none => exact serveJobs_steps m now tick p.queue hpause w
  | some z =>
    dsimp only
    split
    · exact .refl
    · next hdue =>
      have hstep : p.serveNext m now tick w = { p with pause := none }.proceed z.isAwaited
          (attempts m p.policy now tick z.op z.isAwaited z.triesLeft w) := by
        simp only [serveNext, hpause, if_neg hdue]
      cases hs : attempts m p.policy now tick z.op z.isAwaited z.triesLeft w with
      | mk progress v =>
        rw [hs] at hstep
        cases progress with
        | done r =>
          refine .head hstep.symm ?_
          have hpaused : ({ p with pause := none }.reply z.isAwaited r).pause = none :=
            pause_reply _ _ _
          have hsame : { { p with pause := none }.reply z.isAwaited r with queue := p.queue }
              = { p with pause := none }.reply z.isAwaited r := by
            rw [← reply_queue]
          have hrest := serveJobs_steps m now tick p.queue hpaused v
          rwa [hsame] at hrest
        | pausing z' => exact .single hstep.symm

end

/-! ## The operations in the queue -/

/-- The operations that are not over, oldest first. -/
def operations (p : Processor σ) : List (Operation σ) :=
  p.waiting.filterMap fun
    | .run op _ => some op
    | .barrier => none

theorem operations_eq (p : Processor σ) : p.operations = (p.pause.map (·.op)).toList ++
    p.queue.filterMap fun
      | .run op _ => some op
      | .barrier => none := by
  unfold operations waiting
  rw [List.filterMap_append]
  cases p.pause <;> rfl

@[simp] theorem operations_reply (p : Processor σ) (isAwaited : Bool) (r : Reply) :
    (p.reply isAwaited r).operations = p.operations := by
  cases isAwaited <;> rfl

theorem operations_flush (p : Processor σ) : p.flush.operations = p.operations := by
  unfold flush
  split
  · exact p.operations_reply true .flushed
  · rw [operations_eq, operations_eq, List.filterMap_append]
    simp

/-- What is submitted joins what was there, unless the queue has been stopped. -/
theorem operations_submit_subset (p : Processor σ) (op : Operation σ) (isAwaited : Bool) :
    (p.submit op isAwaited).operations ⊆ p.operations ++ [op] := by
  unfold submit
  split
  · rw [operations_reply]
    exact List.subset_append_left _ _
  · rw [operations_eq, operations_eq, List.filterMap_append, List.append_assoc]
    exact List.Subset.refl _

section

variable (m : Medium μ) (now : Timestamp) (tick : Nat) {p : Processor σ} {w : World μ σ}

/-- Nothing but the operation in hand is put back. -/
theorem operations_proceed_subset (q : Processor σ) (op : Operation σ) (isAwaited : Bool)
    (x : Progress σ × World μ σ) (hpause : q.pause = none)
    (hop : ∀ z v, x = (.pausing z, v) → z.op = op) :
    (q.proceed isAwaited x).1.operations ⊆ op :: q.operations := by
  obtain ⟨r | z, v⟩ := x
  · show (q.reply isAwaited r).operations ⊆ _
    rw [operations_reply]
    exact List.subset_cons_self op _
  · rw [operations_eq, operations_eq, hpause]
    obtain rfl := hop z v rfl
    exact List.Subset.refl _

/-- To serve a job brings no other operation into the queue. -/
theorem operations_serveNext_subset (p : Processor σ) (w : World μ σ) :
    (p.serveNext m now tick w).1.operations ⊆ p.operations := by
  unfold serveNext
  split
  · next z hpause =>
    split
    · exact List.Subset.refl _
    · refine List.Subset.trans
        (operations_proceed_subset _ z.op _ _ rfl fun z' v hs => op_of_attempts m _ _ _ _ hs) ?_
      rw [operations_eq p, hpause, operations_eq]
      exact List.Subset.refl _
  · next hpause =>
    split
    · exact List.Subset.refl _
    · next jobs hqueue =>
      rw [operations_reply, operations_eq, operations_eq, hqueue]
      exact List.Subset.refl _
    · next op isAwaited jobs hqueue =>
      refine List.Subset.trans (operations_proceed_subset { p with queue := jobs } op isAwaited _ hpause
        fun z v hs => op_of_start m _ _ _ _ hs) ?_
      rw [operations_eq p, operations_eq, hpause, hqueue]
      exact List.Subset.refl _

/-- To serve a job keeps what all operations in the queue keep. -/
theorem own_serveNext {P : σ → Prop} (h : ∀ op ∈ p.operations, op.Keeps P) (hw : P w.own) :
    P (p.serveNext m now tick w).2.own := by
  have hproceed : ∀ (q : Processor σ) (isAwaited : Bool) (x : Progress σ × World μ σ), P x.2.own →
      P (q.proceed isAwaited x).2.own := by
    rintro q isAwaited ⟨r | z, v⟩ hx <;> exact hx
  unfold serveNext
  split
  · next z hpause =>
    split
    · exact hw
    · refine hproceed _ _ _ (own_attempts m _ _ _ _ (h z.op ?_) _ hw)
      rw [operations_eq, hpause]
      exact List.mem_cons_self
  · split
    · exact hw
    · exact hw
    · next op isAwaited jobs hqueue =>
      refine hproceed _ _ _ (own_start m _ _ _ _ (h op ?_) hw)
      rw [operations_eq, hqueue]
      exact List.mem_append_right _ List.mem_cons_self

end

end Processor

end SharedSession
