import SharedSession.Proofs.Lock.Service
import SharedSession.Proofs.Names
import SharedSession.Proofs.Storage.Keeper

set_option autoImplicit false

/-!
# Reads that fail under the lock

A read that fails shows a record without entries. At a checkpoint that looks as if a contender had
removed the token, so the attempt is given up; but the token is still there, and nobody takes it
away. So an operation on a medium that nobody else writes leaves the record without a lock exactly
if it settles. If it is dropped, the operations behind it find its lock and give way to it, and so
may its own later attempts.

Main statements: `Service.lock_free_iff_settled`, `Service.lock_abandoned`.
-/

namespace SharedSession

variable {μ σ : Type}

/-- Whether a read was tried in vain. -/
def Act.isFailedRead : Act σ → Bool
  | .call (.read (.error _)) => true
  | _ => false

@[simp] theorem isFailedRead_saveCall (r : Record) :
    (Act.call (Medium.saveCall r) : Act σ).isFailedRead = false := by
  unfold Medium.saveCall
  split <;> rfl

/-- A read shows what is kept unless it fails. -/
theorem Medium.Keeps.load_cases_world {m : Medium μ} {view : μ → Record} (h : m.Keeps view)
    (w : World μ σ) :
    ∃ (r : Record) (v : World μ σ), w.load m = (r, v) ∧ view v.medium = view w.medium ∧
      ((r = view w.medium ∧ (Act.call (m.loadCall w.medium) : Act σ).isFailedRead = false) ∨
        (r = ∅ ∧ (Act.call (m.loadCall w.medium) : Act σ).isFailedRead = true)) := by
  refine ⟨(w.load m).1, (w.load m).2, rfl, h.view_load_world w, ?_⟩
  show (Medium.recordOf (m.retrieve w.medium).1 = view w.medium ∧ _) ∨
    (Medium.recordOf (m.retrieve w.medium).1 = ∅ ∧ _)
  unfold Medium.loadCall
  cases hanswer : (m.retrieve w.medium).1 with
  | ok content => exact .inl ⟨h.ofStored_eq hanswer, rfl⟩
  | error e => exact .inr ⟨rfl, rfl⟩

/-! ## One attempt -/

namespace Stage

/-- What holds at a stage behind the first read, and whether a read has failed since. -/
def Holds (view : μ → Record) (hasFailed : Bool) (w : World μ σ) : Stage → Prop
  | .opening => False
  | .locking _ _ => hasFailed = false
  | .confirming token => hasFailed = false ∧ (view w.medium).lock? = some token
  | .rechecking token _ => hasFailed = false ∧ (view w.medium).lock? = some token
  | .writing _ _ => hasFailed = false
  | .clearing => hasFailed = false
  | .verifying token => hasFailed = false ∧ (view w.medium).lock? = some token
  | .releasing r => hasFailed = false ∧ r.lock? = none
  | .settled _ => hasFailed = false ∧ (view w.medium).lock? = none
  | .contended _ => hasFailed = true ∧ (view w.medium).lock?.isSome

section

variable {m : Medium μ} {view : μ → Record} (op : Operation σ) (d : Span) (now : Timestamp)

/-- Where the token is missing although nobody took it away, the read has failed. -/
theorem holds_of_lost {s : Stage} {token : String} {w v : World μ σ} {hasFailed : Bool}
    (hs : s.awaited? = some token) (hheld : (view w.medium).lock? = some token)
    (hload : w.load m = (∅, v)) (hview : view v.medium = view w.medium)
    (hbad : (Act.call (m.loadCall w.medium) : Act σ).isFailedRead = true) :
    Holds view (hasFailed || (s.acts m op now w).any Act.isFailedRead)
      (s.step m op d now w).2 (s.step m op d now w).1 := by
  have hlost : (∅ : Record).lock? ≠ some token := by
    rw [Record.lock?, Record.get?_empty]
    exact (Option.some_ne_none token).symm
  rw [step_of_lost hs hload hlost, acts_of_lost hs hload hlost]
  refine ⟨?_, ?_⟩
  · rw [List.any_cons, hbad, Bool.true_or, Bool.or_true]
  · rw [hview, hheld]
    rfl

theorem holds_step (h : m.Keeps view) {s : Stage} {w : World μ σ} {hasFailed : Bool}
    (hs : Holds view hasFailed w s) :
    Holds view (hasFailed || (s.acts m op now w).any Act.isFailedRead)
      (s.step m op d now w).2 (s.step m op d now w).1 := by
  obtain ⟨r, v, hload, hview, hread⟩ := h.load_cases_world w
  cases s with
  | opening => exact hs.elim
  | locking token base =>
    obtain rfl : hasFailed = false := hs
    refine ⟨by simp [acts], ?_⟩
    exact (h.lock?_view_save _ w).trans (Record.lock?_withLock base token)
  | confirming token =>
    obtain ⟨rfl, hheld⟩ := hs
    rcases hread with ⟨rfl, hok⟩ | ⟨rfl, hbad⟩
    · rw [step_confirming_of_held hload hheld]
      have hasks : (v.question op now (view w.medium).withoutLock).isFailedRead = false := rfl
      refine ⟨by simp [acts, hload, hheld, hok, hasks], ?_⟩
      rw [← hheld, ← hview]
      rfl
    · exact holds_of_lost op d now rfl hheld hload hview hbad
  | rechecking token answer =>
    obtain ⟨rfl, hheld⟩ := hs
    rcases hread with ⟨rfl, hok⟩ | ⟨rfl, hbad⟩
    · rw [step_rechecking_of_held answer hload hheld]
      have hacts : ((rechecking token answer).acts m op now w).any Act.isFailedRead = false := by
        simp [acts, hok]
      rw [hacts]
      cases answer.resolve now d with
      | persist r => rfl
      | clear => rfl
      | unchanged => exact ⟨rfl, hview ▸ hheld⟩
    · exact holds_of_lost op d now rfl hheld hload hview hbad
  | writing token r' =>
    obtain rfl : hasFailed = false := hs
    refine ⟨by simp [acts], ?_⟩
    exact (h.lock?_view_save _ w).trans (Record.lock?_withLock r' token)
  | clearing =>
    obtain rfl : hasFailed = false := hs
    refine ⟨rfl, ?_⟩
    show (view (w.wipe m).medium).lock? = none
    rw [h.view_wipe_world]
    exact Record.get?_empty _
  | verifying token =>
    obtain ⟨rfl, hheld⟩ := hs
    rcases hread with ⟨rfl, hok⟩ | ⟨rfl, hbad⟩
    · rw [step_verifying_of_held hload hheld]
      exact ⟨by simp [acts, hok], Record.lock?_withoutLock _⟩
    · exact holds_of_lost op d now rfl hheld hload hview hbad
  | releasing r' =>
    obtain ⟨rfl, hfree⟩ := hs
    exact ⟨by simp [acts], (h.lock?_view_save r' w).trans hfree⟩
  | settled r' =>
    rw [acts, List.any_nil, Bool.or_false]
    exact hs
  | contended found =>
    rw [acts, List.any_nil, Bool.or_false]
    exact hs

theorem holds_run (h : m.Keeps view) (n : Nat) {s : Stage} {w : World μ σ} {hasFailed : Bool}
    (hs : Holds view hasFailed w s) :
    Holds view (hasFailed || (s.actsOf m op d now n w).any Act.isFailedRead)
      (s.run m op d now n w).2 (s.run m op d now n w).1 := by
  induction n generalizing s w hasFailed with
  | zero =>
    rw [actsOf, List.any_nil, Bool.or_false]
    exact hs
  | succ n ih =>
    have hrest := ih (holds_step op d now h hs)
    rwa [Bool.or_assoc, ← List.any_append] at hrest

end

end Stage

namespace Attempt

/-- Whether an attempt finds a lock at its first read, or one of its later reads fails. -/
def isSpoiled (m : Medium μ) (op : Operation σ) (d : Span) (now : Timestamp) (w : World μ σ) :
    Bool :=
  (w.load m).1.lock?.isSome || (lockedActs m op d now w).tail.any Act.isFailedRead

theorem isSpoiled_of_free {m : Medium μ} {view : μ → Record} (h : m.Keeps view)
    {w : World μ σ} (hfree : (view w.medium).lock? = none) (op : Operation σ) (d : Span)
    (now : Timestamp) :
    isSpoiled m op d now w = (lockedActs m op d now w).tail.any Act.isFailedRead := by
  obtain ⟨r, v, hload, -, ⟨rfl, -⟩ | ⟨rfl, -⟩⟩ := h.load_cases_world w
  · rw [isSpoiled, hload, hfree]
    rfl
  · rw [isSpoiled, hload, Record.lock?, Record.get?_empty]
    rfl

/-- What an attempt leaves that was spoiled or not. -/
def Leaves (view : μ → Record) (wasSpoiled : Bool) (w : World μ σ) : Attempt → Prop
  | .settled _ => wasSpoiled = false ∧ (view w.medium).lock? = none
  | .contended _ => wasSpoiled = true ∧ (view w.medium).lock?.isSome

/-- An attempt settles, and leaves no lock, exactly if it was not spoiled. -/
theorem leaves_locked {m : Medium μ} {view : μ → Record} (h : m.Keeps view) (op : Operation σ)
    (d : Span) (now : Timestamp) (w : World μ σ) :
    Leaves view (isSpoiled m op d now w) (locked m op d now w).2 (locked m op d now w).1 := by
  obtain ⟨r, v, hload, hview, hread⟩ := h.load_cases_world w
  have hacts : (lockedActs m op d now w).tail
      = (Stage.opening.step m op d now w).1.actsOf m op d now 6
          (Stage.opening.step m op d now w).2 := rfl
  have hfinal := Stage.isFinal_run m op d now 7 .opening w (Nat.le_refl 7)
  unfold isSpoiled locked
  rw [hacts, hload]
  unfold Stage.run at hfinal ⊢
  cases hlock : r.lock? with
  | some token =>
    rw [Stage.step_opening_of_locked hload (by rw [hlock]; rfl)] at hfinal ⊢
    dsimp only
    rw [Stage.run_of_final rfl]
    refine ⟨rfl, ?_⟩
    rcases hread with ⟨rfl, -⟩ | ⟨rfl, -⟩
    · rw [hview, hlock]
      rfl
    · rw [Record.lock?, Record.get?_empty] at hlock
      cases hlock
  | none =>
    rw [Stage.step_opening_of_free hload hlock] at hfinal ⊢
    have hlocking : Stage.Holds view false v.draw.2 (.locking v.names.next r) := rfl
    have hholds := Stage.holds_run op d now h 6 hlocking
    dsimp only at hfinal ⊢
    rw [Option.isSome_none]
    generalize Stage.run m op d now 6 (.locking v.names.next r) v.draw.2 = ended at hfinal hholds ⊢
    obtain ⟨s, u⟩ := ended
    cases s with
    | settled result => exact hholds
    | contended found => exact hholds
    | _ => cases hfinal

end Attempt

/-! ## One operation -/

/-- What is left of the lock when an operation has come so far. -/
def Progress.Leaves (view : μ → Record) (isAwaited : Bool) (w : World μ σ) : Progress σ → Prop
  | .done reply => (view w.medium).lock? = none ↔ ∃ r, reply = .settled r
  | .pausing z => z.isAwaited = isAwaited ∧ (view w.medium).lock?.isSome

namespace Processor

theorem leaves_attempts {m : Medium μ} {view : μ → Record} (h : m.Keeps view)
    (policy : LockPolicy) (now : Timestamp) (tick : Nat) (op : Operation σ) (isAwaited : Bool)
    (left : Nat) (w : World μ σ) (hleft : left = 0 → (view w.medium).lock?.isSome) :
    (attempts m policy now tick op isAwaited left w).1.Leaves view isAwaited
      (attempts m policy now tick op isAwaited left w).2 := by
  -- with no try left the operation is dropped, so by then an attempt must have left its lock
  induction left generalizing w with
  | zero =>
    have hlocked := hleft rfl
    refine ⟨?_, fun hsettled => nomatch hsettled⟩
    intro hfree
    rw [show (view w.medium).lock? = none from hfree] at hlocked
    cases hlocked
  | succ left ih =>
    have hleaves := Attempt.leaves_locked h op policy.expirationDelay now w
    unfold attempts
    generalize Attempt.locked m op policy.expirationDelay now w = ended at hleaves ⊢
    obtain ⟨found, v⟩ := ended
    cases found with
    | settled r => exact ⟨fun _ => ⟨r, rfl⟩, fun _ => hleaves.2⟩
    | contended found =>
      dsimp only
      split
      · exact ih v fun _ => hleaves.2
      · exact ⟨rfl, hleaves.2⟩

theorem start_of_unspoiled {m : Medium μ} {view : μ → Record} (h : m.Keeps view)
    (hlocking : m.locking = true) {policy : LockPolicy} (htries : 1 ≤ policy.maxTries)
    {op : Operation σ} {now : Timestamp} {w : World μ σ}
    (hsound : Attempt.isSpoiled m op policy.expirationDelay now w = false) (tick : Nat)
    (isAwaited : Bool) :
    ∃ (r : Record) (v : World μ σ),
      start m policy now tick op isAwaited w = (.done (.settled r), v) ∧
      (view v.medium).lock? = none := by
  have hleaves := Attempt.leaves_locked h op policy.expirationDelay now w
  cases hlocked : Attempt.locked m op policy.expirationDelay now w with
  | mk ended v =>
    rw [hlocked, hsound] at hleaves
    cases ended with
    | contended found => cases hleaves.1
    | settled r =>
      obtain ⟨hstart, -⟩ := start_of_locking m policy now tick hlocking htries hlocked isAwaited
      exact ⟨r, _, hstart, hleaves.2⟩

/-- The queue of a writer whose only operation has come so far. -/
def after (policy : LockPolicy) : Progress σ → Processor σ
  | .done reply => ⟨policy, [], none, [reply], false⟩
  | .pausing z => ⟨policy, [], some z, [], false⟩

/-- Where an operation is all that there is, serving is beginning it. -/
theorem serve_submitted (m : Medium μ) (policy : LockPolicy) (now : Timestamp) (tick : Nat)
    (op : Operation σ) (w : World μ σ) :
    ((new policy).submit op true).serve m now tick w
      = (after policy (start m policy now tick op true w).1,
          (start m policy now tick op true w).2) := by
  simp only [new, submit, serve, Bool.false_eq_true, reduceIte, List.nil_append, serveJobs]
  cases start m policy now tick op true w with
  | mk progress v => cases progress <;> rfl

/-- Where its pause is over, serving is going on with its attempts. -/
theorem serve_paused (m : Medium μ) (policy : LockPolicy) (now : Timestamp) {tick : Nat}
    {z : Pause σ} (hz : z.isAwaited = true) (hdue : z.wake ≤ tick) (w : World μ σ) :
    (⟨policy, [], some z, [], false⟩ : Processor σ).serve m now tick w
      = (after policy (attempts m policy now tick z.op true z.triesLeft w).1,
          (attempts m policy now tick z.op true z.triesLeft w).2) := by
  simp only [serve, hz, if_neg (Nat.not_lt.2 hdue), serveJobs]
  cases attempts m policy now tick z.op true z.triesLeft w with
  | mk progress v => cases progress <;> rfl

/-- How the queue of a writer stands that has been given a single operation. -/
inductive Undertakes (view : μ → Record) (policy : LockPolicy) (op : Operation σ) :
    Processor σ → World μ σ → Prop where
  | waits {w : World μ σ} (h : (view w.medium).lock? = none) :
      Undertakes view policy op ⟨policy, [.run op true], none, [], false⟩ w
  | pauses {z : Pause σ} {w : World μ σ} (htries : policy.maxTries ≠ 0) (hz : z.isAwaited = true)
      (h : (view w.medium).lock?.isSome) :
      Undertakes view policy op ⟨policy, [], some z, [], false⟩ w
  | ended {reply : Reply} {w : World μ σ}
      (h : (view w.medium).lock? = none ↔ policy.maxTries = 0 ∨ ∃ r, reply = .settled r) :
      Undertakes view policy op ⟨policy, [], none, [reply], false⟩ w

theorem undertakes_after {view : μ → Record} {policy : LockPolicy} (htries : policy.maxTries ≠ 0)
    (op : Operation σ) {progress : Progress σ} {w : World μ σ}
    (h : progress.Leaves view true w) : Undertakes view policy op (after policy progress) w := by
  cases progress with
  | done reply => exact .ended (h.trans (by simp [htries]))
  | pausing z => exact .pauses htries h.1 h.2

theorem Undertakes.serve {m : Medium μ} {view : μ → Record} (hm : m.Keeps view)
    (hlocking : m.locking = true) {policy : LockPolicy} {op : Operation σ} {p : Processor σ}
    {w : World μ σ} (h : Undertakes view policy op p w) (now : Timestamp) (tick : Nat) :
    Undertakes view policy op (p.serve m now tick w).1 (p.serve m now tick w).2 := by
  cases h with
  | @waits w hfree =>
    have hstart : start m policy now tick op true w
        = attempts m policy now tick op true policy.maxTries w := if_pos hlocking
    have hserve := serve_submitted m policy now tick op w
    rw [hstart] at hserve
    rw [show (⟨policy, [.run op true], none, [], false⟩ : Processor σ)
      = (new policy).submit op true from rfl, hserve]
    by_cases htries : policy.maxTries = 0
    · rw [htries]
      exact .ended ⟨fun _ => .inl htries, fun _ => hfree⟩
    · exact undertakes_after htries op (leaves_attempts hm policy now tick op true policy.maxTries w
        fun hzero => absurd hzero htries)
  | @pauses z w htries hz hlocked =>
    by_cases hearly : tick < z.wake
    · rw [serve_of_early m now tick rfl hearly]
      exact .pauses htries hz hlocked
    · have hleaves := leaves_attempts hm policy now tick z.op true z.triesLeft w fun _ => hlocked
      rw [serve_paused m policy now hz (Nat.not_lt.1 hearly)]
      exact undertakes_after htries op hleaves
  | ended hreply => exact .ended hreply

end Processor

namespace Service

/-- A writer that was given one operation and got to serve it at these moments. -/
def servedAt (m : Medium μ) (policy : LockPolicy) (w : World μ σ) (op : Operation σ)
    (moments : List (Timestamp × Nat)) : Service μ σ :=
  ((start policy w).turn m (.submit op true)).run m (moments.map fun t => .serve t.1 t.2)

theorem undertakes_run {m : Medium μ} {view : μ → Record} (hm : m.Keeps view)
    (hlocking : m.locking = true) {policy : LockPolicy} {op : Operation σ}
    (moments : List (Timestamp × Nat)) {x : Service μ σ}
    (h : Processor.Undertakes view policy op x.processor x.world) :
    Processor.Undertakes view policy op (x.run m (moments.map fun t => .serve t.1 t.2)).processor
      (x.run m (moments.map fun t => .serve t.1 t.2)).world := by
  induction moments generalizing x with
  | nil => exact h
  | cons t moments ih => exact ih (h.serve hm hlocking t.1 t.2)

theorem undertakes_servedAt {m : Medium μ} {view : μ → Record} (hm : m.Keeps view)
    (hlocking : m.locking = true) (policy : LockPolicy) {w : World μ σ}
    (hfree : (view w.medium).lock? = none) (op : Operation σ) (moments : List (Timestamp × Nat)) :
    Processor.Undertakes view policy op (servedAt m policy w op moments).processor
      (servedAt m policy w op moments).world :=
  undertakes_run hm hlocking moments (.waits hfree)

/-- An operation under the lock, on a medium that nobody else writes and whose writes succeed,
leaves no lock when it is over exactly if it settled, or was not tried at all. It settles at once,
and so leaves none, if no read but the first one fails. -/
theorem lock_free_iff_settled {m : Medium μ} {view : μ → Record} (hm : m.Keeps view)
    (hlocking : m.locking = true) (policy : LockPolicy) (w : World μ σ)
    (hfree : (view w.medium).lock? = none) (op : Operation σ) :
    (∀ moments : List (Timestamp × Nat), (servedAt m policy w op moments).processor.waiting = [] →
      ∃ reply, (servedAt m policy w op moments).processor.replies = [reply] ∧
        ((view (servedAt m policy w op moments).world.medium).lock? = none ↔
          policy.maxTries = 0 ∨ ∃ r, reply = .settled r)) ∧
    (∀ (now : Timestamp) (tick : Nat), 1 ≤ policy.maxTries →
      (∀ act ∈ (Attempt.lockedActs m op policy.expirationDelay now w).tail,
        act.isFailedRead = false) →
      ∃ r, (servedAt m policy w op [(now, tick)]).processor.waiting = [] ∧
        (servedAt m policy w op [(now, tick)]).processor.replies = [.settled r] ∧
        (view (servedAt m policy w op [(now, tick)]).world.medium).lock? = none) := by
  constructor
  · intro moments hidle
    have hstands := undertakes_servedAt hm hlocking policy hfree op moments
    generalize servedAt m policy w op moments = x at hidle hstands ⊢
    obtain ⟨p, v, submitted, acts⟩ := x
    cases hstands with
    | waits h => cases hidle
    | pauses htries hz h => cases hidle
    | @ended reply _ h => exact ⟨reply, rfl, h⟩
  · intro now tick htries hreads
    have hsound : Attempt.isSpoiled m op policy.expirationDelay now w = false := by
      rw [Attempt.isSpoiled_of_free hm hfree, List.any_eq_false]
      intro act hact
      rw [hreads act hact]
      exact Bool.false_ne_true
    obtain ⟨r, v, hstart, hend⟩ :=
      Processor.start_of_unspoiled hm hlocking htries hsound tick true
    have hserve : ((Processor.new policy).submit op true).serve m now tick w
        = (⟨policy, [], none, [.settled r], false⟩, v) := by
      rw [Processor.serve_submitted, hstart]
      rfl
    refine ⟨r, ?_⟩
    simp only [servedAt, start, List.map_cons, List.map_nil, run_cons, run_nil, turn, hserve]
    exact ⟨rfl, trivial, hend⟩

/-- An operation that keeps what it finds. -/
def keeping : Operation Unit := .ofTransform fun _ _ own => (.unchanged, own)

/-- A single try has to do. -/
def oneTry : LockPolicy := ⟨.ofMillis 10, 1, .ofMillis 900⟩

/-- A cell with a session, whose reads fail or not as the list says. -/
def sessionCell (reads : List Bool) : World (List Bool × Option String) Unit :=
  ⟨(reads, some "id=a"), (), .tallies⟩

/-- One moment to try and another to see that no try is left. -/
def twoMoments : List (Timestamp × Nat) := [(.epoch, 0), (.clamp 10, 10)]

/-- If the last read of an attempt fails the lock is left, but not if only the first one fails. -/
theorem lock_left_by_last_read :
    (∃ reply,
      (servedAt (.flaky true) oneTry (sessionCell [false, false, false, true]) keeping
        twoMoments).processor.replies = [reply] ∧
      ((Record.ofStored (servedAt (.flaky true) oneTry (sessionCell [false, false, false, true])
        keeping twoMoments).world.medium.2).lock? = none ↔
          oneTry.maxTries = 0 ∨ ∃ r, reply = .settled r)) ∧
    (∃ r,
      (servedAt (.flaky true) oneTry (sessionCell [true]) keeping [(.epoch, 0)]).processor.waiting
        = [] ∧
      (servedAt (.flaky true) oneTry (sessionCell [true]) keeping [(.epoch, 0)]).processor.replies
        = [.settled r] ∧
      (Record.ofStored (servedAt (.flaky true) oneTry (sessionCell [true]) keeping
        [(.epoch, 0)]).world.medium.2).lock? = none) := by
  constructor
  · exact (lock_free_iff_settled (Medium.flaky_keeps true) rfl oneTry
      (sessionCell [false, false, false, true]) (by decide +kernel) keeping).1 twoMoments
      (by decide +kernel)
  · exact (lock_free_iff_settled (Medium.flaky_keeps true) rfl oneTry (sessionCell [true])
      (by decide +kernel) keeping).2 .epoch 0 (by decide) (by decide +kernel)

/-- An operation that keeps what it finds leaves its lock in the cell if its last read fails, and
the operation behind it, none of whose reads fails, is dropped because of that. -/
theorem lock_abandoned :
    (Record.ofStored (sessionCell [false, false, false, true]).medium.2).lock? = none ∧
    (servedAt (.flaky true) oneTry (sessionCell [false, false, false, true]) keeping
      twoMoments).processor.waiting = [] ∧
    (Record.ofStored (servedAt (.flaky true) oneTry (sessionCell [false, false, false, true])
      keeping twoMoments).world.medium.2).lock? = some "i" ∧
    ((servedAt (.flaky true) oneTry (sessionCell [false, false, false, true]) keeping
      twoMoments).run (.flaky true) [.submit keeping true, .serve (.clamp 20) 20,
        .serve (.clamp 30) 30]).processor.replies = [.dropped, .dropped] := by
  decide +kernel

end Service

end SharedSession
