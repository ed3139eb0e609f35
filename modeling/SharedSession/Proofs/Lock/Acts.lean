import SharedSession.Proofs.Lock.Stage
import SharedSession.Lock.Processor
import SharedSession.Storage.Script

set_option autoImplicit false

/-!
# What is done for a job

Serving a job consists of acts: calls on the medium, questions for a decision, and words to those
who wait for the operation to settle. Next to each function that serves stands the list of its acts
in the order in which they happen, each with the job that it is done for.

`LeadAll` says where acts lead that are done one after another, without a word about the protocol.
The acts of a call, an attempt or a whole queue lead exactly where the call, the attempt or the
queue leads, on any medium.

Main statement: `Processor.leadAll_serve`.
-/

namespace SharedSession

/-- Something that is done for a job. -/
inductive Act (σ : Type) where
  | call (c : Call)
  /-- the decision about a record is asked for and given -/
  | ask (o : Occasion) (given : Record) (answer : Outcome)
  /-- one who waits is told the final record -/
  | tell (callback : Timestamp → Record → σ → σ) (now : Timestamp) (result : Record)

namespace Act

variable {σ : Type}

/-- Whether the medium is asked for what is stored. -/
def isRead : Act σ → Bool
  | .call (.read _) => true
  | _ => false

/-- Whether the medium is asked to store or to remove something. -/
def isWrite : Act σ → Bool
  | .call (.write _) => true
  | .call .clear => true
  | _ => false

/-- Whether one who waits is told the result. -/
def isTelling : Act σ → Bool
  | .tell _ _ _ => true
  | _ => false

/-- Whether a decision is asked for. -/
def isAsking : Act σ → Bool
  | .ask _ _ _ => true
  | _ => false

end Act

section

variable {μ σ : Type}

/-- Where an act leads that is done for a job: from one state of the medium and the writer to
another. -/
inductive Leads (m : Medium μ) : Job σ → Act σ → μ × σ → μ × σ → Prop where
  | read {job : Job σ} {s t : μ} {answer : Except StorageError (Option String)} {own : σ}
      (h : m.retrieve s = (answer, t)) : Leads m job (.call (.read answer)) (s, own) (t, own)
  | write {job : Job σ} {text : String} {s : μ} {own : σ} :
      Leads m job (.call (.write text)) (s, own) ((m.persist text s).2, own)
  | clear {job : Job σ} {s : μ} {own : σ} :
      Leads m job (.call .clear) (s, own) ((m.clear s).2, own)
  | ask {op : Operation σ} {isAwaited : Bool} {o : Occasion} {given : Record} {answer : Outcome}
      {s : μ} {own own' : σ} (h : op.transform o given own = (answer, own')) :
      Leads m (.run op isAwaited) (.ask o given answer) (s, own) (s, own')
  | tell {op : Operation σ} {isAwaited : Bool} {callback : Timestamp → Record → σ → σ}
      {now : Timestamp} {r : Record} {s : μ} {own : σ} (h : callback ∈ op.callbacks) :
      Leads m (.run op isAwaited) (.tell callback now r) (s, own) (s, callback now r own)

/-- Where acts lead that are done one after another. -/
inductive LeadAll (m : Medium μ) : List (Job σ × Act σ) → μ × σ → μ × σ → Prop where
  | nil {x : μ × σ} : LeadAll m [] x x
  | cons {job : Job σ} {act : Act σ} {acts : List (Job σ × Act σ)} {x y z : μ × σ}
      (first : Leads m job act x y) (rest : LeadAll m acts y z) :
      LeadAll m ((job, act) :: acts) x z

theorem LeadAll.append {m : Medium μ} {acts more : List (Job σ × Act σ)} {x y z : μ × σ}
    (hacts : LeadAll m acts x y) (hmore : LeadAll m more y z) : LeadAll m (acts ++ more) x z := by
  induction hacts with
  | nil => exact hmore
  | cons first _ ih => exact .cons first (ih hmore)

theorem LeadAll.single {m : Medium μ} {job : Job σ} {act : Act σ} {x y : μ × σ}
    (h : Leads m job act x y) : LeadAll m [(job, act)] x y := .cons h .nil

/-- What can be read off and changed by acts. -/
def World.state (w : World μ σ) : μ × σ := (w.medium, w.own)

/-! ## One call -/

/-- The call that reading the session makes. -/
def Medium.loadCall (m : Medium μ) (s : μ) : Call := .read (m.retrieve s).1

/-- The call that storing a session makes. -/
def Medium.saveCall (r : Record) : Call := if r.isEmpty then .clear else .write r.encode

namespace Act

@[simp] theorem isRead_saveCall (r : Record) :
    (Act.call (Medium.saveCall r) : Act σ).isRead = false := by
  unfold Medium.saveCall
  split <;> rfl

@[simp] theorem isWrite_saveCall (r : Record) :
    (Act.call (Medium.saveCall r) : Act σ).isWrite = true := by
  unfold Medium.saveCall
  split <;> rfl

@[simp] theorem isAsking_saveCall (r : Record) :
    (Act.call (Medium.saveCall r) : Act σ).isAsking = false := by
  unfold Medium.saveCall
  split <;> rfl

end Act

/-- The question for a decision about a record. -/
def World.question (op : Operation σ) (now : Timestamp) (r : Record) (w : World μ σ) : Act σ :=
  .ask ⟨now, w.names.next⟩ r (op.transform ⟨now, w.names.next⟩ r w.own).1

theorem leads_load (m : Medium μ) (job : Job σ) (w : World μ σ) :
    Leads m job (.call (m.loadCall w.medium)) w.state (w.load m).2.state := .read rfl

theorem leads_save (m : Medium μ) (job : Job σ) (r : Record) (w : World μ σ) :
    Leads m job (.call (Medium.saveCall r)) w.state (w.save m r).state := by
  unfold Medium.saveCall World.save Medium.save
  split
  · exact .clear
  · exact .write

theorem leads_question (m : Medium μ) (op : Operation σ) (isAwaited : Bool) (now : Timestamp)
    (r : Record) (w : World μ σ) :
    Leads m (.run op isAwaited) (w.question op now r) w.state (w.consult op now r).2.state := .ask rfl

namespace Stage

/-- The acts of the next call. -/
def acts (m : Medium μ) (op : Operation σ) (now : Timestamp) : Stage → World μ σ → List (Act σ)
  | .opening, w => [.call (m.loadCall w.medium)]
  | .locking token base, _ => [.call (Medium.saveCall (base.withLock token))]
  | .confirming token, w =>
    let (r, v) := w.load m
    if r.lock? = some token then [.call (m.loadCall w.medium), v.question op now r.withoutLock]
    else [.call (m.loadCall w.medium)]
  | .rechecking _ _, w => [.call (m.loadCall w.medium)]
  | .writing token result, _ => [.call (Medium.saveCall (result.withLock token))]
  | .clearing, _ => [.call .clear]
  | .verifying _, w => [.call (m.loadCall w.medium)]
  | .releasing result, _ => [.call (Medium.saveCall result)]
  | .settled _, _ => []
  | .contended _, _ => []

/-- The acts of so many calls. -/
def actsOf (m : Medium μ) (op : Operation σ) (d : Span) (now : Timestamp) :
    Nat → Stage → World μ σ → List (Act σ)
  | 0, _, _ => []
  | n + 1, s, w =>
    let (s', w') := s.step m op d now w
    s.acts m op now w ++ actsOf m op d now n s' w'

/-- Where the token is missing, the read that shows it is all that is done. -/
theorem acts_of_lost {m : Medium μ} {op : Operation σ} {now : Timestamp} {s : Stage}
    {token : String} {w v : World μ σ} {r : Record} (hs : s.awaited? = some token)
    (hload : w.load m = (r, v)) (hlost : r.lock? ≠ some token) :
    s.acts m op now w = [.call (m.loadCall w.medium)] := by
  cases s with
  | confirming token' =>
    cases hs
    simp only [acts, hload, if_neg hlost]
  | rechecking token' answer => rfl
  | verifying token' => rfl
  | _ => cases hs

variable (m : Medium μ) (op : Operation σ) (isAwaited : Bool) (d : Span) (now : Timestamp)

theorem leadAll_acts (s : Stage) (w : World μ σ) :
    LeadAll m ((s.acts m op now w).map (.run op isAwaited, ·)) w.state
      (s.step m op d now w).2.state := by
  cases hload : w.load m with
  | mk r v =>
    have hread : Leads m (.run op isAwaited) (.call (m.loadCall w.medium)) w.state v.state := by
      have hleads := leads_load m (.run op isAwaited) w
      rwa [hload] at hleads
    have hlost : ∀ {token : String}, s.awaited? = some token → r.lock? ≠ some token →
        (s.step m op d now w).2 = v := by
      intro token hs hlock
      rw [step_of_lost hs hload hlock]
    cases s with
    | opening =>
      cases hlock : r.lock? with
      | some token =>
        rw [step_opening_of_locked hload (by rw [hlock]; rfl)]
        exact .single hread
      | none =>
        rw [step_opening_of_free hload hlock]
        exact .single hread
    | locking token base => exact .single (leads_save m _ _ w)
    | confirming token =>
      by_cases hlock : r.lock? = some token
      · rw [step_confirming_of_held hload hlock]
        simp only [acts, hload, if_pos hlock]
        exact .cons hread (.single (leads_question m op isAwaited now _ v))
      · rw [hlost rfl hlock]
        simp only [acts, hload, if_neg hlock]
        exact .single hread
    | rechecking token answer =>
      by_cases hlock : r.lock? = some token
      · rw [step_rechecking_of_held answer hload hlock]
        exact .single hread
      · rw [hlost rfl hlock]
        exact .single hread
    | writing token result => exact .single (leads_save m _ _ w)
    | clearing => exact .single .clear
    | verifying token =>
      by_cases hlock : r.lock? = some token
      · rw [step_verifying_of_held hload hlock]
        exact .single hread
      · rw [hlost rfl hlock]
        exact .single hread
    | releasing result => exact .single (leads_save m _ _ w)
    | settled result => exact .nil
    | contended found => exact .nil

theorem leadAll_actsOf (n : Nat) (s : Stage) (w : World μ σ) :
    LeadAll m ((s.actsOf m op d now n w).map (.run op isAwaited, ·)) w.state
      (s.run m op d now n w).2.state := by
  induction n generalizing s w with
  | zero => exact .nil
  | succ n ih =>
    simp only [actsOf, run, List.map_append]
    exact (leadAll_acts m op isAwaited d now s w).append (ih _ _)

end Stage

/-! ## Attempts -/

namespace Operation

/-- Telling everybody the final record. -/
def tellings (op : Operation σ) (now : Timestamp) (r : Record) : List (Act σ) :=
  op.callbacks.map (.tell · now r)

theorem leadAll_tellings (m : Medium μ) (op : Operation σ) (isAwaited : Bool) (now : Timestamp)
    (r : Record) (w : World μ σ) :
    LeadAll m ((op.tellings now r).map (.run op isAwaited, ·)) w.state
      (w.settle op now r).state := by
  -- the induction is on the callbacks that are left, all of them the operation's own
  have hsome : ∀ (callbacks : List (Timestamp → Record → σ → σ)) (own : σ),
      (∀ f ∈ callbacks, f ∈ op.callbacks) →
      LeadAll m ((callbacks.map (Act.tell · now r)).map (Job.run op isAwaited, ·)) (w.medium, own)
        (w.medium, callbacks.foldl (fun own f => f now r own) own) := by
    intro callbacks
    induction callbacks with
    | nil => exact fun own _ => .nil
    | cons f callbacks ih =>
      intro own hmem
      exact .cons (.tell (hmem f List.mem_cons_self))
        (ih _ fun g hg => hmem g (List.mem_cons_of_mem f hg))
  exact hsome op.callbacks w.own fun _ hf => hf

end Operation

namespace Attempt

variable (m : Medium μ) (op : Operation σ) (d : Span) (now : Timestamp)

/-- The acts of a whole attempt under the lock. -/
def lockedActs (w : World μ σ) : List (Act σ) := Stage.opening.actsOf m op d now 7 w

/-- The acts of carrying a resolved outcome out without a lock. -/
def carryingOut : Outcome → List (Act σ)
  | .persist result => [.call (Medium.saveCall result)]
  | .clear => [.call .clear]
  | .unchanged => []

/-- The acts where there is nothing to lock. -/
def unlockedActs (w : World μ σ) : List (Act σ) :=
  let (r, v) := w.load m
  [.call (m.loadCall w.medium), v.question op now r.withoutLock]
    ++ carryingOut ((v.consult op now r.withoutLock).1.resolve now d)

theorem leadAll_locked (isAwaited : Bool) (w : World μ σ) :
    LeadAll m ((lockedActs m op d now w).map (.run op isAwaited, ·)) w.state
      (locked m op d now w).2.state :=
  Stage.leadAll_actsOf m op isAwaited d now 7 .opening w

theorem leadAll_unlocked (isAwaited : Bool) (w : World μ σ) :
    LeadAll m ((unlockedActs m op d now w).map (.run op isAwaited, ·)) w.state
      (unlocked m op d now w).2.state := by
  have hread := leads_load m (.run op isAwaited) w
  have hask := leads_question m op isAwaited now (w.load m).1.withoutLock (w.load m).2
  unfold unlockedActs unlocked
  generalize w.load m = loaded at hread hask ⊢
  dsimp only
  generalize loaded.2.consult op now loaded.1.withoutLock = consulted at hask ⊢
  refine .cons hread (.cons hask ?_)
  cases consulted.1.resolve now d with
  | persist result => exact .single (leads_save m _ result _)
  | clear => exact .single .clear
  | unchanged => exact .nil

end Attempt

/-! ## Queues -/

/-- The job that pauses. -/
def Pause.job (z : Pause σ) : Job σ := .run z.op z.isAwaited

namespace Processor

variable (m : Medium μ) (policy : LockPolicy) (now : Timestamp) (tick : Nat)

/-- The acts of attempts up to the end of the operation or to a pause. -/
def attemptsActs (op : Operation σ) : Nat → World μ σ → List (Act σ)
  | 0, _ => []
  | left + 1, w =>
    Attempt.lockedActs m op policy.expirationDelay now w ++
      match Attempt.locked m op policy.expirationDelay now w with
      | (.settled r, _) => op.tellings now r
      | (.contended _, v) =>
        if policy.retryDelay.waitTicks = 0 then attemptsActs op left v else []

/-- The acts of beginning an operation. -/
def startActs (op : Operation σ) (w : World μ σ) : List (Act σ) :=
  if m.locking then attemptsActs m policy now op policy.maxTries w
  else
    Attempt.unlockedActs m op policy.expirationDelay now w
      ++ op.tellings now (Attempt.unlocked m op policy.expirationDelay now w).1

/-- The acts of serving jobs until one pauses. -/
def serveJobsActs : List (Job σ) → World μ σ → List (Job σ × Act σ)
  | [], _ => []
  | .barrier :: jobs, w => serveJobsActs jobs w
  | .run op isAwaited :: jobs, w =>
    (startActs m policy now op w).map (.run op isAwaited, ·) ++
      match start m policy now tick op isAwaited w with
      | (.done _, v) => serveJobsActs jobs v
      | (.pausing _, _) => []

/-- The acts of all that can be done now. -/
def serveActs (p : Processor σ) (w : World μ σ) : List (Job σ × Act σ) :=
  match p.pause with
  | none => serveJobsActs m p.policy now tick p.queue w
  | some z =>
    if tick < z.wake then []
    else
      (attemptsActs m p.policy now z.op z.triesLeft w).map (z.job, ·) ++
        match attempts m p.policy now tick z.op z.isAwaited z.triesLeft w with
        | (.done _, v) => serveJobsActs m p.policy now tick p.queue v
        | (.pausing _, _) => []

/-- An attempt that settles is all that there is to an operation. -/
theorem start_of_locking {op : Operation σ} {w v : World μ σ} {r : Record}
    (hlocking : m.locking = true) (htries : 1 ≤ policy.maxTries)
    (h : Attempt.locked m op policy.expirationDelay now w = (.settled r, v)) (isAwaited : Bool) :
    start m policy now tick op isAwaited w = (.done (.settled r), v.settle op now r) ∧
      startActs m policy now op w
        = Attempt.lockedActs m op policy.expirationDelay now w ++ op.tellings now r := by
  obtain ⟨tries, hmax⟩ := Nat.exists_eq_add_of_le' htries
  simp only [start, startActs, hlocking, reduceIte, hmax, attempts, attemptsActs, h, and_self]

theorem start_of_not_locking {op : Operation σ} {w v : World μ σ} {r : Record}
    (hlocking : m.locking = false)
    (h : Attempt.unlocked m op policy.expirationDelay now w = (r, v)) (isAwaited : Bool) :
    start m policy now tick op isAwaited w = (.done (.settled r), v.settle op now r) ∧
      startActs m policy now op w
        = Attempt.unlockedActs m op policy.expirationDelay now w ++ op.tellings now r := by
  simp only [start, startActs, hlocking, Bool.false_eq_true, reduceIte, h, and_self]

theorem leadAll_attempts (op : Operation σ) (isAwaited : Bool) (left : Nat) (w : World μ σ) :
    LeadAll m ((attemptsActs m policy now op left w).map (.run op isAwaited, ·)) w.state
      (attempts m policy now tick op isAwaited left w).2.state := by
  induction left generalizing w with
  | zero => exact .nil
  | succ left ih =>
    have hattempt := Attempt.leadAll_locked m op policy.expirationDelay now isAwaited w
    unfold attemptsActs attempts
    rw [List.map_append]
    cases hlocked : Attempt.locked m op policy.expirationDelay now w with
    | mk found v =>
      rw [hlocked] at hattempt
      cases found with
      | settled r => exact hattempt.append (op.leadAll_tellings m isAwaited now r v)
      | contended found =>
        refine hattempt.append ?_
        dsimp only
        split
        · exact ih v
        · exact .nil

theorem leadAll_start (op : Operation σ) (isAwaited : Bool) (w : World μ σ) :
    LeadAll m ((startActs m policy now op w).map (.run op isAwaited, ·)) w.state
      (start m policy now tick op isAwaited w).2.state := by
  unfold startActs start
  split
  · exact leadAll_attempts m policy now tick op isAwaited policy.maxTries w
  · rw [List.map_append]
    exact (Attempt.leadAll_unlocked m op policy.expirationDelay now isAwaited w).append
      (op.leadAll_tellings m isAwaited now _ _)

@[simp] theorem policy_reply (p : Processor σ) (isAwaited : Bool) (r : Reply) :
    (p.reply isAwaited r).policy = p.policy := by
  cases isAwaited <;> rfl

@[simp] theorem pause_reply (p : Processor σ) (isAwaited : Bool) (r : Reply) :
    (p.reply isAwaited r).pause = p.pause := by
  cases isAwaited <;> rfl

theorem leadAll_serveJobs (jobs : List (Job σ)) (p : Processor σ) (w : World μ σ)
    (hpolicy : p.policy = policy) :
    LeadAll m (serveJobsActs m policy now tick jobs w) w.state
      (serveJobs m now tick jobs p w).2.state := by
  induction jobs generalizing p w with
  | nil => exact .nil
  | cons job jobs ih =>
    cases job with
    | barrier => exact ih _ w (by rw [policy_reply, hpolicy])
    | run op isAwaited =>
      have hstart := leadAll_start m policy now tick op isAwaited w
      unfold serveJobsActs serveJobs
      rw [hpolicy]
      cases hs : start m policy now tick op isAwaited w with
      | mk progress v =>
        rw [hs] at hstart
        cases progress with
        | done reply => exact hstart.append (ih _ v (by rw [policy_reply, hpolicy]))
        | pausing z => exact hstart.append .nil

/-- The acts that are noted lead where serving leads. -/
theorem leadAll_serve (p : Processor σ) (w : World μ σ) :
    LeadAll m (serveActs m now tick p w) w.state (p.serve m now tick w).2.state := by
  unfold serveActs serve
  cases hpause : p.pause with
  | none => exact leadAll_serveJobs m p.policy now tick p.queue p w rfl
  | some z =>
    dsimp only
    split
    · exact .nil
    · have hattempts := leadAll_attempts m p.policy now tick z.op z.isAwaited z.triesLeft w
      cases hs : attempts m p.policy now tick z.op z.isAwaited z.triesLeft w with
      | mk progress v =>
        rw [hs] at hattempts
        cases progress with
        | done reply =>
          exact hattempts.append
            (leadAll_serveJobs m p.policy now tick p.queue _ v (policy_reply _ _ _))
        | pausing z' => exact hattempts.append .nil

end Processor

end

end SharedSession
