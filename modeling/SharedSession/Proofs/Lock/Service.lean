import Mathlib.Logic.Basic
import SharedSession.Proofs.Lock.Segment

set_option autoImplicit false

/-!
# A writer at work

A `Service` is a writer at work: jobs are submitted to its queue, it gets to serve it at one moment
after another, and in between others change what is on the medium as they like. It keeps a list of
all that was submitted and of all that was done.

Whatever happens, the jobs are served in the order in which they were submitted; and if time goes
on, every one of them comes to its end, because no operation pauses more often than it may try.

Main statements: `Service.inTurn_run`, `Service.exists_idle`, `Service.served_in_order`.
-/

namespace SharedSession

variable {μ σ : Type}

namespace Processor

/-! ## What is left to do -/

/-- A bound for the pauses and ends that are still to come. -/
def load (p : Processor σ) : Nat :=
  ((p.pause.map fun z => z.triesLeft + 1).getD 0) + p.queue.length * (p.policy.maxTries + 1)

theorem triesLeft_lt_of_attempts (m : Medium μ) (policy : LockPolicy) (now : Timestamp)
    (tick : Nat) {op : Operation σ} {isAwaited : Bool} {left : Nat} {w v : World μ σ} {z : Pause σ}
    (h : attempts m policy now tick op isAwaited left w = (.pausing z, v)) : z.triesLeft < left := by
  induction left generalizing w with
  | zero => cases h
  | succ left ih =>
    unfold attempts at h
    split at h
    · cases h
    · split at h
      · exact Nat.lt_succ_of_lt (ih h)
      · cases h
        exact Nat.lt_succ_self left

theorem triesLeft_lt_of_start (m : Medium μ) (policy : LockPolicy) (now : Timestamp)
    (tick : Nat) {op : Operation σ} {isAwaited : Bool} {w v : World μ σ} {z : Pause σ}
    (h : start m policy now tick op isAwaited w = (.pausing z, v)) :
    z.triesLeft < policy.maxTries := by
  unfold start at h
  split at h
  · exact triesLeft_lt_of_attempts m policy now tick h
  · cases h

section

variable (m : Medium μ) (now : Timestamp) (tick : Nat)

theorem load_serveJobs (jobs : List (Job σ)) (p : Processor σ) (w : World μ σ)
    (hpause : p.pause = none) :
    (Processor.serveJobs m now tick jobs p w).1.waiting = [] ∨
      (Processor.serveJobs m now tick jobs p w).1.load
        < jobs.length * (p.policy.maxTries + 1) := by
  induction jobs generalizing p w with
  | nil =>
    left
    simp [Processor.serveJobs, waiting, hpause]
  | cons job jobs ih =>
    rw [List.length_cons, Nat.succ_mul]
    have hrest : ∀ (isAwaited : Bool) (reply : Reply) (v : World μ σ),
        (Processor.serveJobs m now tick jobs (p.reply isAwaited reply) v).1.waiting = [] ∨
          (Processor.serveJobs m now tick jobs (p.reply isAwaited reply) v).1.load
            < jobs.length * (p.policy.maxTries + 1) + (p.policy.maxTries + 1) := by
      intro isAwaited reply v
      refine (ih (p.reply isAwaited reply) v ((pause_reply _ _ _).trans hpause)).imp_right ?_
      rw [policy_reply]
      exact fun hlt => Nat.lt_add_right _ hlt
    cases job with
    | barrier => exact hrest true .flushed w
    | run op isAwaited =>
      unfold Processor.serveJobs
      cases hs : start m p.policy now tick op isAwaited w with
      | mk progress v =>
        cases progress with
        | done reply => exact hrest isAwaited reply v
        | pausing z =>
          right
          have htries := triesLeft_lt_of_start m p.policy now tick hs
          show z.triesLeft + 1 + jobs.length * (p.policy.maxTries + 1) < _
          omega

/-- Before the pause is over nothing happens. -/
theorem serve_of_early {p : Processor σ} {z : Pause σ} (hz : p.pause = some z)
    (hearly : tick < z.wake) (w : World μ σ) : p.serve m now tick w = (p, w) := by
  unfold Processor.serve
  simp only [hz, if_pos hearly]

/-- When no pause is in the way, the jobs come nearer to their ends. -/
theorem load_serve (p : Processor σ) (w : World μ σ)
    (hdue : ∀ z, p.pause = some z → z.wake ≤ tick) :
    (p.serve m now tick w).1.waiting = [] ∨ (p.serve m now tick w).1.load < p.load := by
  cases hpause : p.pause with
  | none =>
    have hload : p.load = p.queue.length * (p.policy.maxTries + 1) := by
      simp [load, hpause]
    unfold Processor.serve
    rw [hpause, hload]
    exact load_serveJobs m now tick p.queue p w hpause
  | some z =>
    have hload : p.load = z.triesLeft + 1 + p.queue.length * (p.policy.maxTries + 1) := by
      simp [load, hpause]
    have hnotEarly : ¬ tick < z.wake := Nat.not_lt.2 (hdue z hpause)
    unfold Processor.serve
    simp only [hpause, if_neg hnotEarly]
    cases hs : attempts m p.policy now tick z.op z.isAwaited z.triesLeft w with
    | mk progress v =>
      cases progress with
      | done reply =>
        refine (load_serveJobs m now tick p.queue _ v (pause_reply _ _ _)).imp_right ?_
        rw [policy_reply, hload]
        exact fun hlt => Nat.lt_add_left _ hlt
      | pausing z' =>
        right
        have htries := triesLeft_lt_of_attempts m p.policy now tick hs
        rw [hload]
        show z'.triesLeft + 1 + p.queue.length * (p.policy.maxTries + 1) < _
        omega

end

end Processor

/-! ## A writer at work -/

/-- What happens to a writer. -/
inductive Turn (μ σ : Type) where
  /-- an operation is submitted, and perhaps somebody waits for its reply -/
  | submit (op : Operation σ) (isAwaited : Bool)
  /-- a mark is submitted, and somebody waits until it is reached -/
  | flush
  /-- the writer does all that it can do at a moment -/
  | serve (now : Timestamp) (tick : Nat)
  /-- somebody else changes what is on the medium -/
  | interfere (change : μ → μ)

/-- Whether something is submitted. -/
def Turn.isSubmission : Turn μ σ → Bool
  | .submit _ _ => true
  | .flush => true
  | _ => false

/-- A writer in its world, all that was submitted to it and all that it did, oldest first. -/
structure Service (μ σ : Type) where
  processor : Processor σ
  world : World μ σ
  submitted : List (Job σ)
  acts : List (Job σ × Act σ)

namespace Service

/-- A writer to which nothing has been submitted. -/
def start (policy : LockPolicy) (w : World μ σ) : Service μ σ := ⟨.new policy, w, [], []⟩

/-- The writer after a turn. -/
def turn (m : Medium μ) (x : Service μ σ) : Turn μ σ → Service μ σ
  | .submit op isAwaited =>
    { x with
      processor := x.processor.submit op isAwaited
      submitted := x.submitted ++ [.run op isAwaited] }
  | .flush => { x with processor := x.processor.flush, submitted := x.submitted ++ [.barrier] }
  | .serve now tick =>
    let (p, w) := x.processor.serve m now tick x.world
    { x with
      processor := p
      world := w
      acts := x.acts ++ x.processor.serveActs m now tick x.world }
  | .interfere change => { x with world := { x.world with medium := change x.world.medium } }

/-- The writer after turns, one by one. -/
def run (m : Medium μ) (x : Service μ σ) (turns : List (Turn μ σ)) : Service μ σ :=
  turns.foldl (turn m) x

section

variable (m : Medium μ)

@[simp] theorem run_nil (x : Service μ σ) : x.run m [] = x := rfl

@[simp] theorem run_cons (x : Service μ σ) (t : Turn μ σ) (turns : List (Turn μ σ)) :
    x.run m (t :: turns) = (x.turn m t).run m turns := rfl

theorem run_append (x : Service μ σ) (turns more : List (Turn μ σ)) :
    x.run m (turns ++ more) = (x.run m turns).run m more := List.foldl_append

end

/-- The jobs are served in the order in which they were submitted. -/
def InTurn (x : Service μ σ) (segments : List (Segment σ)) (begun : List (Act σ)) : Prop :=
  x.processor.InTurn x.submitted x.acts segments begun

theorem inTurn_start (policy : LockPolicy) (w : World μ σ) : (start policy w).InTurn [] [] :=
  ⟨rfl, rfl, fun _ h => (List.not_mem_nil h).elim, isWork_nil, rfl, rfl⟩

variable {x : Service μ σ} {segments : List (Segment σ)} {begun : List (Act σ)}

/-- What is submitted comes behind all else. -/
theorem InTurn.enqueue (h : x.InTurn segments begun) (job : Job σ) :
    ({ x with
      processor := { x.processor with queue := x.processor.queue ++ [job] }
      submitted := x.submitted ++ [job] } : Service μ σ).InTurn segments begun where
  submitted_eq := by
    rw [h.submitted_eq, List.append_assoc]
    exact congrArg (segments.map Segment.job ++ ·) (List.append_assoc _ _ _)
  acts_eq := h.acts_eq
  isWhole := h.isWhole
  isWork := h.isWork
  replies_eq := h.replies_eq
  isRunning := h.isRunning

/-- Whatever happens next, the order is kept. -/
theorem InTurn.turn (m : Medium μ) (h : x.InTurn segments begun) (t : Turn μ σ) :
    ∃ segments' begun', (x.turn m t).InTurn segments' begun' := by
  cases t with
  | submit op isAwaited =>
    have hsubmit : x.processor.submit op isAwaited
        = { x.processor with queue := x.processor.queue ++ [.run op isAwaited] } := by
      simp [Processor.submit, h.isRunning]
    refine ⟨segments, begun, ?_⟩
    rw [Service.turn, hsubmit]
    exact h.enqueue (.run op isAwaited)
  | flush =>
    have hflush : x.processor.flush
        = { x.processor with queue := x.processor.queue ++ [.barrier] } := by
      simp [Processor.flush, h.isRunning]
    refine ⟨segments, begun, ?_⟩
    rw [Service.turn, hflush]
    exact h.enqueue .barrier
  | serve now tick => exact Processor.InTurn.serve m now tick x.world h
  | interfere change => exact ⟨segments, begun, h⟩

theorem inTurn_run (m : Medium μ) (turns : List (Turn μ σ)) (h : x.InTurn segments begun) :
    ∃ segments' begun', (x.run m turns).InTurn segments' begun' := by
  induction turns generalizing x segments begun with
  | nil => exact ⟨segments, begun, h⟩
  | cons t turns ih =>
    obtain ⟨segments', begun', h'⟩ := h.turn m t
    exact ih h'

/-! ## Every job comes to its end -/

/-- Nothing more is submitted, and the writer gets to serve again and again, as late as one likes. -/
structure GoesOn (later : Nat → Turn μ σ) : Prop where
  isQuiet : ∀ n, (later n).isSubmission = false
  serves : ∀ n t, ∃ k ≥ n, ∃ now tick, later k = .serve now tick ∧ t ≤ tick

/-- Unless something is submitted, the queue stays as it is or comes nearer to its end. -/
theorem turn_cases (m : Medium μ) (x : Service μ σ) {t : Turn μ σ}
    (ht : t.isSubmission = false) :
    (x.turn m t).processor = x.processor ∨ (x.turn m t).processor.waiting = [] ∨
      (x.turn m t).processor.load < x.processor.load := by
  cases t with
  | submit op isAwaited => cases ht
  | flush => cases ht
  | interfere change => exact .inl rfl
  | serve now tick =>
    by_cases hdue : ∀ z, x.processor.pause = some z → z.wake ≤ tick
    · exact .inr (x.processor.load_serve m now tick x.world hdue)
    · simp only [not_forall] at hdue
      obtain ⟨z, hz, hearly⟩ := hdue
      left
      show (x.processor.serve m now tick x.world).1 = x.processor
      rw [Processor.serve_of_early m now tick hz (Nat.not_le.1 hearly)]

/-- Until the writer gets to serve after the pause, at the latest, something has come nearer to its
end. -/
theorem exists_load_lt (m : Medium μ) {later : Nat → Turn μ σ} (hgoes : GoesOn later)
    (x : Service μ σ) (first gap : Nat) {now : Timestamp} {tick : Nat}
    (hserve : later (first + gap) = .serve now tick)
    (hdue : ∀ z, x.processor.pause = some z → z.wake ≤ tick) :
    ∃ n, (x.run m ((List.range' first n).map later)).processor.waiting = [] ∨
      (x.run m ((List.range' first n).map later)).processor.load < x.processor.load := by
  induction gap generalizing x first with
  | zero =>
    rw [Nat.add_zero] at hserve
    refine ⟨1, ?_⟩
    rw [List.range'_one, List.map_singleton, hserve]
    exact x.processor.load_serve m now tick x.world hdue
  | succ gap ih =>
    rcases turn_cases m x (hgoes.isQuiet first) with hsame | hnearer
    · have hserve' : later (first + 1 + gap) = .serve now tick := by
        rw [← hserve]
        congr 1
        omega
      rw [← hsame] at hdue
      obtain ⟨n, hn⟩ := ih (x.turn m (later first)) (first + 1) hserve' hdue
      rw [hsame] at hn
      exact ⟨n + 1, hn⟩
    · exact ⟨1, hnearer⟩

/-- If time goes on, all that was submitted comes to its end. -/
theorem exists_idle (m : Medium μ) {later : Nat → Turn μ σ} (hgoes : GoesOn later)
    (x : Service μ σ) (first : Nat) :
    ∃ n, (x.run m ((List.range' first n).map later)).processor.waiting = [] := by
  generalize hload : x.processor.load = load
  induction load using Nat.strongRecOn generalizing x first with
  | ind load ih =>
    obtain ⟨k, hk, now, tick, hserve, htick⟩ :=
      hgoes.serves first ((x.processor.pause.map Pause.wake).getD 0)
    have hdue : ∀ z, x.processor.pause = some z → z.wake ≤ tick := by
      intro z hz
      rwa [hz] at htick
    obtain ⟨gap, rfl⟩ := Nat.exists_eq_add_of_le hk
    obtain ⟨n, hidle | hless⟩ := exists_load_lt m hgoes x first gap hserve hdue
    · exact ⟨n, hidle⟩
    · rw [hload] at hless
      obtain ⟨n', hn'⟩ := ih _ hless (x.run m ((List.range' first n).map later)) (first + n) rfl
      refine ⟨n + n', ?_⟩
      rw [← List.range'_append_1, List.map_append, run_append]
      exact hn'

/-- The jobs of a writer are served strictly one after another in the order in which they were
submitted, on any medium and whatever others do to it.

What was done consists of one segment for each job that is over and of what was done for the oldest
of the others; what a segment may look like says `Segment.IsWhole`, and the replies are those of the
segments. It is really what the writer did: on the medium and on the writer, serving does the acts
that are noted, one after another, and no others. If time goes on, every job comes to its end. -/
theorem served_in_order (m : Medium μ) (policy : LockPolicy) (w : World μ σ)
    (turns : List (Turn μ σ)) :
    (∃ segments begun, ((start policy w).run m turns).InTurn segments begun) ∧
    (∀ now tick, ∃ acts,
      (((start policy w).run m turns).turn m (.serve now tick)).acts
        = ((start policy w).run m turns).acts ++ acts ∧
      LeadAll m acts ((start policy w).run m turns).world.state
        (((start policy w).run m turns).turn m (.serve now tick)).world.state) ∧
    (∀ later : Nat → Turn μ σ, GoesOn later →
      ∃ n, ((start policy w).run m (turns ++ (List.range n).map later)).processor.waiting = []) := by
  refine ⟨inTurn_run m turns (inTurn_start policy w), ?_, ?_⟩
  · intro now tick
    exact ⟨_, rfl, Processor.leadAll_serve m now tick _ _⟩
  · intro later hgoes
    obtain ⟨n, hn⟩ := exists_idle m hgoes ((start policy w).run m turns) 0
    exact ⟨n, by rwa [run_append, List.range_eq_range']⟩

/-- The writer gets to serve at every tick. -/
def everyTick (n : Nat) : Turn μ σ := .serve (.clamp n) n

theorem everyTick_goesOn : GoesOn (everyTick : Nat → Turn μ σ) where
  isQuiet _ := rfl
  serves n t := ⟨max n t, Nat.le_max_left n t, .clamp ↑(max n t), max n t, rfl,
    Nat.le_max_right n t⟩

/-- Two operations and a mark come to their ends although a lock stands in the cell that nobody
takes away. -/
theorem idle_behind_lock :
    GoesOn (everyTick : Nat → Turn (Option String) Unit) ∧
      ∃ n, ((start ⟨.ofMillis 10, 3, .ofMillis 900⟩ ⟨some "lock=held", (), .identifiers 0⟩).run
        (.memory true) ([.submit (.ofTransform fun _ _ own => (.clear, own)) true, .flush,
          .submit (.ofTransform fun _ _ own => (.unchanged, own)) false]
            ++ (List.range n).map everyTick)).processor.waiting = [] :=
  ⟨everyTick_goesOn, (served_in_order (.memory true) ⟨.ofMillis 10, 3, .ofMillis 900⟩
    ⟨some "lock=held", (), .identifiers 0⟩ _).2.2 everyTick everyTick_goesOn⟩

end Service

end SharedSession
