import SharedSession.Proofs.Lock.OneByOne

set_option autoImplicit false

/-!
# A queue served one try after another

A writer can be stopped wherever it waits: between two jobs, and in every pause between two tries,
which may take no time at all. `Processor.tryNext` goes on from one such moment to the next: it makes
one attempt at the operation in hand or at the next one. Serving a job is doing that again and
again.

Main statements: `Processor.serveNext_tries`, `Processor.leadAll_tryNext`.
-/

namespace SharedSession

variable {μ σ : Type}

namespace Processor

section

variable (m : Medium μ) (policy : LockPolicy) (now : Timestamp) (tick : Nat) (op : Operation σ)
  (isAwaited : Bool)

/-- Makes an attempt, if one is left; a contended one is followed by a pause. -/
def tryOnce : Nat → World μ σ → Progress σ × World μ σ
  | 0, w => (.done .dropped, w)
  | left + 1, w =>
    match Attempt.locked m op policy.expirationDelay now w with
    | (.settled r, v) => (.done (.settled r), v.settle op now r)
    | (.contended _, v) =>
      (.pausing ⟨op, isAwaited, left, tick + policy.retryDelay.waitTicks⟩, v)

/-- The acts of that. -/
def tryOnceActs : Nat → World μ σ → List (Act σ)
  | 0, _ => []
  | _ + 1, w =>
    Attempt.lockedActs m op policy.expirationDelay now w ++
      match Attempt.locked m op policy.expirationDelay now w with
      | (.settled r, _) => op.tellings now r
      | (.contended _, _) => []

/-- Begins an operation with its first try. -/
def tryFirst (w : World μ σ) : Progress σ × World μ σ :=
  if m.locking then tryOnce m policy now tick op isAwaited policy.maxTries w
  else start m policy now tick op isAwaited w

/-- The acts of the first try. -/
def tryFirstActs (w : World μ σ) : List (Act σ) :=
  if m.locking then tryOnceActs m policy now op policy.maxTries w else startActs m policy now op w

theorem leadAll_tryOnce (left : Nat) (w : World μ σ) :
    LeadAll m ((tryOnceActs m policy now op left w).map (.run op isAwaited, ·)) w.state
      (tryOnce m policy now tick op isAwaited left w).2.state := by
  cases left with
  | zero => exact .nil
  | succ left =>
    have hlocked := Attempt.leadAll_locked m op policy.expirationDelay now isAwaited w
    simp only [tryOnce, tryOnceActs, List.map_append]
    generalize Attempt.locked m op policy.expirationDelay now w = ended at hlocked ⊢
    obtain ⟨found, v⟩ := ended
    cases found with
    | settled r => exact hlocked.append (op.leadAll_tellings m isAwaited now r v)
    | contended found => exact hlocked.append .nil

theorem leadAll_tryFirst (w : World μ σ) :
    LeadAll m ((tryFirstActs m policy now op w).map (.run op isAwaited, ·)) w.state
      (tryFirst m policy now tick op isAwaited w).2.state := by
  unfold tryFirst tryFirstActs
  split
  · exact leadAll_tryOnce m policy now tick op isAwaited policy.maxTries w
  · exact leadAll_start m policy now tick op isAwaited w

/-- What keeps an operation's own state, a try keeps. -/
theorem own_tryOnce {op : Operation σ} {P : σ → Prop} (h : op.Keeps P) (left : Nat)
    {w : World μ σ} (hw : P w.own) :
    P (tryOnce m policy now tick op isAwaited left w).2.own := by
  cases left with
  | zero => exact hw
  | succ left =>
    have hlocked : P (Attempt.locked m op policy.expirationDelay now w).2.own :=
      Stage.own_run m policy.expirationDelay now h 7 .opening hw
    simp only [tryOnce]
    generalize Attempt.locked m op policy.expirationDelay now w = ended at hlocked ⊢
    obtain ⟨found, v⟩ := ended
    cases found with
    | settled r => exact h.settle now r v.own hlocked
    | contended found => exact hlocked

theorem own_tryFirst {op : Operation σ} {P : σ → Prop} (h : op.Keeps P) {w : World μ σ}
    (hw : P w.own) : P (tryFirst m policy now tick op isAwaited w).2.own := by
  unfold tryFirst
  split
  · exact own_tryOnce m policy now tick isAwaited h policy.maxTries hw
  · exact own_start m policy now tick isAwaited h hw

/-- What pauses is the operation that was tried. -/
theorem op_of_tryOnce {left : Nat} {w v : World μ σ} {z : Pause σ}
    (h : tryOnce m policy now tick op isAwaited left w = (.pausing z, v)) : z.op = op := by
  cases left with
  | zero => cases h
  | succ left =>
    simp only [tryOnce] at h
    split at h <;> cases h
    rfl

theorem op_of_tryFirst {w v : World μ σ} {z : Pause σ}
    (h : tryFirst m policy now tick op isAwaited w = (.pausing z, v)) : z.op = op := by
  unfold tryFirst at h
  split at h
  · exact op_of_tryOnce m policy now tick op isAwaited h
  · exact op_of_start m policy now tick isAwaited h

end

/-- Makes a try at the operation whose pause is over, or else at the next one. -/
def tryNext (m : Medium μ) (now : Timestamp) (tick : Nat) (p : Processor σ) (w : World μ σ) :
    Processor σ × World μ σ :=
  match p.pause with
  | some z =>
    if tick < z.wake then (p, w)
    else { p with pause := none }.proceed z.isAwaited
      (tryOnce m p.policy now tick z.op z.isAwaited z.triesLeft w)
  | none =>
    match p.queue with
    | [] => (p, w)
    | .barrier :: jobs => ({ p with queue := jobs }.reply true .flushed, w)
    | .run op isAwaited :: jobs =>
      { p with queue := jobs }.proceed isAwaited (tryFirst m p.policy now tick op isAwaited w)

/-- The acts of that. -/
def tryNextActs (m : Medium μ) (now : Timestamp) (tick : Nat) (p : Processor σ) (w : World μ σ) :
    List (Job σ × Act σ) :=
  match p.pause with
  | some z =>
    if tick < z.wake then []
    else (tryOnceActs m p.policy now z.op z.triesLeft w).map (z.job, ·)
  | none =>
    match p.queue with
    | .run op isAwaited :: _ => (tryFirstActs m p.policy now op w).map (.run op isAwaited, ·)
    | _ => []

/-- What one try can come to, with its acts. -/
inductive Tries (m : Medium μ) (now : Timestamp) (tick : Nat) (p : Processor σ) (w : World μ σ) :
    List (Job σ × Act σ) → Processor σ × World μ σ → Prop where
  /-- there is nothing to do, or a pause is not over -/
  | waits : Tries m now tick p w [] (p, w)
  | marks {jobs : List (Job σ)} (hpause : p.pause = none) (hqueue : p.queue = .barrier :: jobs) :
      Tries m now tick p w [] ({ p with queue := jobs }.reply true .flushed, w)
  | resumes {z : Pause σ} (hpause : p.pause = some z) :
      Tries m now tick p w ((tryOnceActs m p.policy now z.op z.triesLeft w).map (z.job, ·))
        ({ p with pause := none }.proceed z.isAwaited
          (tryOnce m p.policy now tick z.op z.isAwaited z.triesLeft w))
  | begins {op : Operation σ} {isAwaited : Bool} {jobs : List (Job σ)} (hpause : p.pause = none)
      (hqueue : p.queue = .run op isAwaited :: jobs) :
      Tries m now tick p w ((tryFirstActs m p.policy now op w).map (.run op isAwaited, ·))
        ({ p with queue := jobs }.proceed isAwaited
          (tryFirst m p.policy now tick op isAwaited w))

section

variable (m : Medium μ) (now : Timestamp) (tick : Nat)

theorem tries_tryNext (p : Processor σ) (w : World μ σ) :
    Tries m now tick p w (p.tryNextActs m now tick w) (p.tryNext m now tick w) := by
  obtain ⟨policy, queue, pause, replies, isStopped⟩ := p
  unfold tryNext tryNextActs
  cases pause with
  | some z =>
    dsimp only
    split
    · exact .waits
    · exact .resumes rfl
  | none =>
    cases queue with
    | nil => exact .waits
    | cons job jobs =>
      cases job with
      | barrier => exact .marks rfl rfl
      | run op isAwaited => exact .begins rfl rfl

theorem world_proceed (p : Processor σ) (isAwaited : Bool) (x : Progress σ × World μ σ) :
    (p.proceed isAwaited x).2 = x.2 := by
  obtain ⟨progress, v⟩ := x
  cases progress <;> rfl

/-- The acts of a try lead where the try leads. -/
theorem leadAll_tryNext (p : Processor σ) (w : World μ σ) :
    LeadAll m (p.tryNextActs m now tick w) w.state (p.tryNext m now tick w).2.state := by
  have htries := tries_tryNext m now tick p w
  generalize p.tryNextActs m now tick w = acts at htries ⊢
  generalize p.tryNext m now tick w = x at htries ⊢
  cases htries with
  | waits => exact .nil
  | marks hpause hqueue => exact .nil
  | @resumes z hpause =>
    rw [world_proceed]
    exact leadAll_tryOnce m p.policy now tick z.op z.isAwaited z.triesLeft w
  | @begins op isAwaited jobs hpause hqueue =>
    rw [world_proceed]
    exact leadAll_tryFirst m p.policy now tick op isAwaited w

/-- A try brings no other operation into the queue. -/
theorem operations_tryNext_subset (p : Processor σ) (w : World μ σ) :
    (p.tryNext m now tick w).1.operations ⊆ p.operations := by
  have htries := tries_tryNext m now tick p w
  generalize p.tryNextActs m now tick w = acts at htries
  generalize p.tryNext m now tick w = x at htries ⊢
  cases htries with
  | waits => exact List.Subset.refl _
  | @marks jobs hpause hqueue =>
    rw [operations_reply, operations_eq, operations_eq, hqueue]
    exact List.Subset.refl _
  | @resumes z hpause =>
    refine List.Subset.trans (operations_proceed_subset _ z.op _ _ rfl fun z' v hs =>
      op_of_tryOnce m _ _ _ _ _ hs) ?_
    rw [operations_eq p, hpause, operations_eq]
    exact List.Subset.refl _
  | @begins op isAwaited jobs hpause hqueue =>
    refine List.Subset.trans (operations_proceed_subset { p with queue := jobs } op isAwaited _ hpause
      fun z v hs => op_of_tryFirst m _ _ _ _ _ hs) ?_
    rw [operations_eq p, operations_eq, hpause, hqueue]
    exact List.Subset.refl _

/-- A try keeps what all operations in the queue keep. -/
theorem own_tryNext {p : Processor σ} {w : World μ σ} {P : σ → Prop}
    (h : ∀ op ∈ p.operations, op.Keeps P) (hw : P w.own) :
    P (p.tryNext m now tick w).2.own := by
  have htries := tries_tryNext m now tick p w
  generalize p.tryNextActs m now tick w = acts at htries
  generalize p.tryNext m now tick w = x at htries ⊢
  cases htries with
  | waits => exact hw
  | marks hpause hqueue => exact hw
  | @resumes z hpause =>
    rw [world_proceed]
    refine own_tryOnce m _ _ _ _ (h z.op ?_) _ hw
    rw [operations_eq, hpause]
    exact List.mem_cons_self
  | @begins op isAwaited jobs hpause hqueue =>
    rw [world_proceed]
    refine own_tryFirst m _ _ _ _ (h op ?_) hw
    rw [operations_eq, hqueue]
    exact List.mem_append_right _ List.mem_cons_self

/-! ## Jobs consist of tries -/

/-- One queue and its world come from another by a try. -/
def ByTry (x y : Processor σ × World μ σ) : Prop := y = x.1.tryNext m now tick x.2

/-- The tries of an operation follow one another until it is over or its pause takes time. -/
theorem attempts_tries (p : Processor σ) (hpause : p.pause = none) (op : Operation σ)
    (isAwaited : Bool) (left : Nat) (w : World μ σ) :
    Relation.ReflTransGen (ByTry m now tick)
      (p.proceed isAwaited (tryOnce m p.policy now tick op isAwaited left w))
      (p.proceed isAwaited (attempts m p.policy now tick op isAwaited left w)) := by
  induction left generalizing w with
  | zero => exact .refl
  | succ left ih =>
    simp only [tryOnce, attempts]
    cases Attempt.locked m op p.policy.expirationDelay now w with
    | mk ended v =>
      cases ended with
      | settled r => exact .refl
      | contended found =>
        dsimp only
        by_cases hwait : p.policy.retryDelay.waitTicks = 0
        · -- the pause is over at once, and the next try begins
          rw [if_pos hwait, hwait, Nat.add_zero]
          refine .head ?_ (ih v)
          have hsame : { p with pause := none } = p := by rw [← hpause]
          show _ = tryNext m now tick { p with pause := some ⟨op, isAwaited, left, tick⟩ } v
          simp only [tryNext, Nat.lt_irrefl, if_false, hsame]
        · rw [if_neg hwait]

theorem start_tries (p : Processor σ) (hpause : p.pause = none) (op : Operation σ)
    (isAwaited : Bool) (w : World μ σ) :
    Relation.ReflTransGen (ByTry m now tick)
      (p.proceed isAwaited (tryFirst m p.policy now tick op isAwaited w))
      (p.proceed isAwaited (start m p.policy now tick op isAwaited w)) := by
  unfold tryFirst
  cases hlocking : m.locking with
  | true =>
    have hstart : start m p.policy now tick op isAwaited w
        = attempts m p.policy now tick op isAwaited p.policy.maxTries w := if_pos hlocking
    rw [hstart]
    exact attempts_tries m now tick p hpause op isAwaited p.policy.maxTries w
  | false => exact .refl

/-- To serve a job is to make one try after another. -/
theorem serveNext_tries (p : Processor σ) (w : World μ σ) :
    Relation.ReflTransGen (ByTry m now tick) (p, w) (p.serveNext m now tick w) := by
  obtain ⟨policy, queue, pause, replies, isStopped⟩ := p
  cases pause with
  | some z =>
    by_cases hearly : tick < z.wake
    · have hwaits : serveNext m now tick ⟨policy, queue, some z, replies, isStopped⟩ w
          = (⟨policy, queue, some z, replies, isStopped⟩, w) := if_pos hearly
      rw [hwaits]
    · have hserve : serveNext m now tick ⟨policy, queue, some z, replies, isStopped⟩ w
          = proceed ⟨policy, queue, none, replies, isStopped⟩ z.isAwaited
            (attempts m policy now tick z.op z.isAwaited z.triesLeft w) := if_neg hearly
      have hstep : tryNext m now tick ⟨policy, queue, some z, replies, isStopped⟩ w
          = proceed ⟨policy, queue, none, replies, isStopped⟩ z.isAwaited
            (tryOnce m policy now tick z.op z.isAwaited z.triesLeft w) := if_neg hearly
      rw [hserve]
      exact .head hstep.symm (attempts_tries m now tick ⟨policy, queue, none, replies, isStopped⟩
        rfl z.op z.isAwaited z.triesLeft w)
  | none =>
    cases queue with
    | nil => exact .refl
    | cons job jobs =>
      cases job with
      | barrier => exact .single rfl
      | run op isAwaited =>
        exact .head rfl (start_tries m now tick ⟨policy, jobs, none, replies, isStopped⟩ rfl op
          isAwaited w)

end

end Processor

end SharedSession
