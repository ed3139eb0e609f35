import Mathlib.Data.List.Basic
import SharedSession.Proofs.Lock.Acts

set_option autoImplicit false

/-!
# One segment for each job

What is done for the jobs of a queue falls into segments, one for each job, in the order of
submission, and the segment of a job has ended before that of the next begins. The segment of an
operation that settles ends with a word to each of its callbacks; that of a dropped operation has no
such word, and for a mark nothing is done. This holds on any medium, whatever its calls answer.

Main statements: `Processor.InTurn.serve`, with `Segment.IsWhole` for what a segment may look like.
-/

namespace SharedSession

variable {μ σ : Type}

/-! ## The work on one operation -/

/-- What may be done for an operation before it is over: it begins with a read, and nobody is told
anything. -/
structure IsWork (acts : List (Act σ)) : Prop where
  opens : ∀ act ∈ acts.head?, act.isRead = true
  silent : ∀ act ∈ acts, act.isTelling = false

theorem isWork_nil : IsWork ([] : List (Act σ)) := ⟨by simp, by simp⟩

theorem IsWork.append {acts more : List (Act σ)} (h : IsWork acts) (hmore : IsWork more) :
    IsWork (acts ++ more) where
  opens act hact := by
    cases acts with
    | nil => exact hmore.opens act hact
    | cons first rest => exact h.opens act hact
  silent act hact := by
    rcases List.mem_append.1 hact with hleft | hright
    · exact h.silent act hleft
    · exact hmore.silent act hright

namespace Stage

theorem silent_acts (m : Medium μ) (op : Operation σ) (now : Timestamp) (s : Stage)
    (w : World μ σ) : ∀ act ∈ s.acts m op now w, act.isTelling = false := by
  cases s with
  | confirming token =>
    simp only [acts]
    split <;> simp [Act.isTelling, World.question]
  | _ => simp [acts, Act.isTelling]

theorem silent_actsOf (m : Medium μ) (op : Operation σ) (d : Span) (now : Timestamp) (n : Nat)
    (s : Stage) (w : World μ σ) : ∀ act ∈ s.actsOf m op d now n w, act.isTelling = false := by
  induction n generalizing s w with
  | zero => simp [actsOf]
  | succ n ih =>
    intro act hact
    rcases List.mem_append.1 hact with hfirst | hrest
    · exact silent_acts m op now s w act hfirst
    · exact ih _ _ act hrest

end Stage

namespace Attempt

variable (m : Medium μ) (op : Operation σ) (d : Span) (now : Timestamp) (w : World μ σ)

theorem isWork_lockedActs : IsWork (lockedActs m op d now w) where
  opens act hact := by
    cases hact
    rfl
  silent := Stage.silent_actsOf m op d now 7 .opening w

theorem lockedActs_ne_nil : lockedActs m op d now w ≠ [] := List.cons_ne_nil _ _

theorem isWork_unlockedActs : IsWork (unlockedActs m op d now w) where
  opens act hact := by
    cases hact
    rfl
  silent act hact := by
    simp only [unlockedActs, List.mem_append, List.mem_cons, List.not_mem_nil, or_false] at hact
    rcases hact with (rfl | rfl) | hcarried
    · rfl
    · rfl
    · unfold carryingOut at hcarried
      split at hcarried
      · cases List.mem_singleton.1 hcarried
        rfl
      · cases List.mem_singleton.1 hcarried
        rfl
      · cases hcarried

end Attempt

/-- How far acts for an operation have brought it. -/
inductive Brings (op : Operation σ) (isAwaited : Bool) : List (Act σ) → Progress σ → Prop where
  | settled {work : List (Act σ)} {now : Timestamp} {r : Record} (h : IsWork work)
      (hne : work ≠ []) : Brings op isAwaited (work ++ op.tellings now r) (.done (.settled r))
  | dropped {work : List (Act σ)} (h : IsWork work) : Brings op isAwaited work (.done .dropped)
  | pausing {work : List (Act σ)} {left wake : Nat} (h : IsWork work) :
      Brings op isAwaited work (.pausing ⟨op, isAwaited, left, wake⟩)

theorem Brings.prepend {op : Operation σ} {isAwaited : Bool} {acts more : List (Act σ)}
    {progress : Progress σ} (h : IsWork acts) (hmore : Brings op isAwaited more progress) :
    Brings op isAwaited (acts ++ more) progress := by
  cases hmore with
  | settled hwork hne =>
    rw [← List.append_assoc]
    exact .settled (h.append hwork) fun hnil => hne (List.append_eq_nil_iff.1 hnil).2
  | dropped hwork => exact .dropped (h.append hwork)
  | pausing hwork => exact .pausing (h.append hwork)

namespace Processor

variable (m : Medium μ) (policy : LockPolicy) (now : Timestamp) (tick : Nat)

theorem brings_attempts (op : Operation σ) (isAwaited : Bool) (left : Nat) (w : World μ σ) :
    Brings op isAwaited (attemptsActs m policy now op left w)
      (attempts m policy now tick op isAwaited left w).1 := by
  induction left generalizing w with
  | zero => exact .dropped isWork_nil
  | succ left ih =>
    have hwork := Attempt.isWork_lockedActs m op policy.expirationDelay now w
    have hne := Attempt.lockedActs_ne_nil m op policy.expirationDelay now w
    unfold attemptsActs attempts
    cases hlocked : Attempt.locked m op policy.expirationDelay now w with
    | mk found v =>
      cases found with
      | settled r => exact .settled hwork hne
      | contended found =>
        dsimp only
        split
        · exact (ih v).prepend hwork
        · rw [List.append_nil]
          exact .pausing hwork

theorem brings_start (op : Operation σ) (isAwaited : Bool) (w : World μ σ) :
    Brings op isAwaited (startActs m policy now op w)
      (start m policy now tick op isAwaited w).1 := by
  unfold startActs start
  split
  · exact brings_attempts m policy now tick op isAwaited policy.maxTries w
  · exact .settled (Attempt.isWork_unlockedActs m op policy.expirationDelay now w)
      (List.cons_ne_nil _ _)

end Processor

/-! ## Segments -/

/-- Whether somebody waits for the reply to a job. -/
def Job.isAwaited : Job σ → Bool
  | .run _ isAwaited => isAwaited
  | .barrier => true

/-- A job that is over: what was done for it, and what became of it. -/
structure Segment (σ : Type) where
  job : Job σ
  acts : List (Act σ)
  reply : Reply

namespace Segment

/-- What was done, with the job that it was done for. -/
def labelled (s : Segment σ) : List (Job σ × Act σ) := s.acts.map (s.job, ·)

/-- What the one who submitted the job is told, if somebody waits for it. -/
def told (s : Segment σ) : List Reply := if s.job.isAwaited then [s.reply] else []

/-- How a job can end. All callbacks of an operation are told the record that it settled with, each
once and in order, after all else; those of a dropped operation are not told anything. For a mark
nothing is done. -/
inductive IsWhole : Segment σ → Prop where
  | settled {op : Operation σ} {isAwaited : Bool} {work : List (Act σ)} {now : Timestamp}
      {r : Record} (h : IsWork work) (hne : work ≠ []) :
      IsWhole ⟨.run op isAwaited, work ++ op.tellings now r, .settled r⟩
  | dropped {op : Operation σ} {isAwaited : Bool} {work : List (Act σ)} (h : IsWork work) :
      IsWhole ⟨.run op isAwaited, work, .dropped⟩
  | flushed : IsWhole ⟨.barrier, [], .flushed⟩

end Segment

theorem Brings.isWhole {op : Operation σ} {isAwaited : Bool} {acts : List (Act σ)} {reply : Reply}
    (h : Brings op isAwaited acts (.done reply)) :
    Segment.IsWhole ⟨.run op isAwaited, acts, reply⟩ := by
  cases h with
  | settled hwork hne => exact .settled hwork hne
  | dropped hwork => exact .dropped hwork

namespace Processor

/-- The jobs that are not over, oldest first. -/
def waiting (p : Processor σ) : List (Job σ) := (p.pause.map Pause.job).toList ++ p.queue

/-- What was done for the job that pauses, with that job. -/
def unfinished (p : Processor σ) (begun : List (Act σ)) : List (Job σ × Act σ) :=
  match p.pause with
  | some z => begun.map (z.job, ·)
  | none => []

/-- Of the jobs that were submitted, those that are over come first, and all that was done consists
of their segments and of what was done for the job that pauses. -/
structure InTurn (p : Processor σ) (submitted : List (Job σ)) (acts : List (Job σ × Act σ))
    (segments : List (Segment σ)) (begun : List (Act σ)) : Prop where
  submitted_eq : submitted = segments.map Segment.job ++ p.waiting
  acts_eq : acts = segments.flatMap Segment.labelled ++ p.unfinished begun
  isWhole : ∀ s ∈ segments, s.IsWhole
  isWork : IsWork begun
  replies_eq : p.replies = segments.flatMap Segment.told
  isRunning : p.isStopped = false

variable {p : Processor σ} {submitted jobs : List (Job σ)} {acts : List (Job σ × Act σ)}
  {segments : List (Segment σ)} {begun : List (Act σ)}

/-- A job that comes to its end leaves a segment, and the next one is at the front. -/
theorem InTurn.finish {s : Segment σ}
    (h : ({ p with queue := s.job :: jobs, pause := none } : Processor σ).InTurn submitted acts
      segments begun) (hs : s.IsWhole) :
    ({ p.reply s.job.isAwaited s.reply with queue := jobs, pause := none } : Processor σ).InTurn
      submitted (acts ++ s.labelled) (segments ++ [s]) [] where
  submitted_eq := by
    rw [h.submitted_eq, List.map_append, List.append_assoc]
    rfl
  acts_eq := by
    have hacts : acts = segments.flatMap Segment.labelled ++ [] := h.acts_eq
    rw [hacts, List.append_nil, List.flatMap_append, List.flatMap_singleton]
    exact (List.append_nil _).symm
  isWhole t ht := by
    rcases List.mem_append.1 ht with hold | hnew
    · exact h.isWhole t hold
    · rw [List.mem_singleton.1 hnew]
      exact hs
  isWork := isWork_nil
  replies_eq := by
    have hreplies : p.replies = segments.flatMap Segment.told := h.replies_eq
    rw [List.flatMap_append, List.flatMap_singleton, ← hreplies, Segment.told]
    cases s.job.isAwaited with
    | true => rfl
    | false => exact (List.append_nil _).symm
  isRunning := by
    have hrunning : p.isStopped = false := h.isRunning
    cases s.job.isAwaited <;> exact hrunning

/-- A job that pauses is still the oldest of those that are not over. -/
theorem InTurn.suspend {z : Pause σ} {work : List (Act σ)}
    (h : ({ p with queue := z.job :: jobs, pause := none } : Processor σ).InTurn submitted acts
      segments begun) (hwork : IsWork work) :
    ({ p with queue := jobs, pause := some z } : Processor σ).InTurn submitted
      (acts ++ work.map (z.job, ·)) segments work where
  submitted_eq := h.submitted_eq
  acts_eq := by
    have hacts : acts = segments.flatMap Segment.labelled ++ [] := h.acts_eq
    rw [hacts, List.append_nil]
    rfl
  isWhole := h.isWhole
  isWork := hwork
  replies_eq := h.replies_eq
  isRunning := h.isRunning

/-- Serving the rest of the queue adds a segment for each job that comes to its end. -/
theorem InTurn.serveJobs (m : Medium μ) (now : Timestamp) (tick : Nat) (w : World μ σ)
    (h : ({ p with queue := jobs, pause := none } : Processor σ).InTurn submitted acts segments [])
    (hpause : p.pause = none) :
    ∃ segments' begun', (Processor.serveJobs m now tick jobs p w).1.InTurn submitted
      (acts ++ serveJobsActs m p.policy now tick jobs w) segments' begun' := by
  induction jobs generalizing p w acts segments with
  | nil =>
    refine ⟨segments, [], ?_⟩
    have hp : (Processor.serveJobs m now tick [] p w).1 = { p with queue := [], pause := none } := by
      rw [← hpause]
      rfl
    rw [hp, serveJobsActs, List.append_nil]
    exact h
  | cons job jobs ih =>
    cases job with
    | barrier =>
      have hfinish := h.finish (s := ⟨.barrier, [], .flushed⟩) .flushed
      have hrest := ih w hfinish ((pause_reply _ _ _).trans hpause)
      rwa [policy_reply, Segment.labelled, List.map_nil, List.append_nil] at hrest
    | run op isAwaited =>
      have hbrings := brings_start m p.policy now tick op isAwaited w
      unfold Processor.serveJobs serveJobsActs
      generalize startActs m p.policy now op w = work at hbrings ⊢
      cases hs : start m p.policy now tick op isAwaited w with
      | mk progress v =>
        rw [hs] at hbrings
        cases progress with
        | done reply =>
          have hfinish := h.finish (s := ⟨.run op isAwaited, work, reply⟩) hbrings.isWhole
          have hrest := ih v hfinish ((pause_reply _ _ _).trans hpause)
          rwa [policy_reply, List.append_assoc] at hrest
        | pausing z =>
          cases hbrings with
          | pausing hwork =>
            refine ⟨segments, work, ?_⟩
            rw [List.append_nil]
            exact InTurn.suspend (z := ⟨op, isAwaited, _, _⟩) h hwork

/-- Serving keeps the order. -/
theorem InTurn.serve (m : Medium μ) (now : Timestamp) (tick : Nat) (w : World μ σ)
    (h : p.InTurn submitted acts segments begun) :
    ∃ segments' begun', (p.serve m now tick w).1.InTurn submitted
      (acts ++ p.serveActs m now tick w) segments' begun' := by
  unfold Processor.serve serveActs
  cases hpause : p.pause with
  | none =>
    have hfree : ({ p with queue := p.queue, pause := none } : Processor σ).InTurn submitted acts
        segments [] :=
      ⟨h.submitted_eq.trans (by simp [waiting, hpause]),
        h.acts_eq.trans (by simp [unfinished, hpause]), h.isWhole, isWork_nil, h.replies_eq,
        h.isRunning⟩
    exact hfree.serveJobs m now tick w hpause
  | some z =>
    dsimp only
    split
    · exact ⟨segments, begun, by rwa [List.append_nil]⟩
    · -- as if the job that paused stood at the front of the queue, with nothing done for it
      have hfront : ({ p with queue := z.job :: p.queue, pause := none } : Processor σ).InTurn
          submitted (segments.flatMap Segment.labelled) segments [] :=
        ⟨h.submitted_eq.trans (by simp [waiting, hpause]), (List.append_nil _).symm, h.isWhole,
          isWork_nil, h.replies_eq, h.isRunning⟩
      have hacts : ∀ more : List (Act σ), acts ++ more.map (z.job, ·)
          = segments.flatMap Segment.labelled ++ (begun ++ more).map (z.job, ·) := by
        intro more
        rw [h.acts_eq, List.map_append, List.append_assoc]
        simp [unfinished, hpause]
      have hbrings := (brings_attempts m p.policy now tick z.op z.isAwaited z.triesLeft w).prepend
        h.isWork
      rw [← List.append_assoc, hacts]
      generalize begun ++ attemptsActs m p.policy now z.op z.triesLeft w = work at hbrings ⊢
      cases hs : attempts m p.policy now tick z.op z.isAwaited z.triesLeft w with
      | mk progress v =>
        rw [hs] at hbrings
        cases progress with
        | done reply =>
          have hfinish := InTurn.finish (p := { p with pause := none }) (s := ⟨z.job, work, reply⟩)
            hfront hbrings.isWhole
          have hrest := hfinish.serveJobs m now tick v (pause_reply _ _ _)
          rwa [policy_reply] at hrest
        | pausing z' =>
          cases hbrings with
          | pausing hwork =>
            refine ⟨segments, work, ?_⟩
            rw [List.append_nil]
            exact InTurn.suspend (z := ⟨z.op, z.isAwaited, _, _⟩) hfront hwork

end Processor

end SharedSession
