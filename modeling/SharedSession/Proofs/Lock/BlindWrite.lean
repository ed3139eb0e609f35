import SharedSession.Proofs.Lock.Abandonment
import SharedSession.Proofs.Product.Request

set_option autoImplicit false

/-!
# Writes behind a failed read

A read that fails shows a record without entries, and the first thing that an attempt under the lock
does is to write back what its first read showed, with a token. If that read failed, the session is
gone, whatever the operation decides afterwards. Later reads do no such harm: where they fail the
attempt is given up.

A `Sight` keeps account of this along the acts of a writer. An operation that decides to leave the
record as it is does so, but for the lock, exactly unless something was written behind a failed
read; without the lock it writes nothing.

Main statements: `Service.kept_unless_written_blindly`, `Service.session_erased_by_poll`.
-/

namespace SharedSession

variable {μ σ : Type}

namespace Act

/-- Whether no decision is given, or the one to leave the record as it is. -/
def isKeeping : Act σ → Bool
  | .ask _ _ answer => answer = .unchanged
  | _ => true

end Act

/-- What a writer's latest read is worth, and whether it heeded that. -/
structure Sight where
  /-- whether the latest read failed -/
  hasFailed : Bool
  /-- whether something was written although the latest read had failed -/
  wroteBlindly : Bool
deriving DecidableEq

namespace Sight

/-- Nothing has been read or written. -/
def fresh : Sight := ⟨false, false⟩

/-- After an act. Every read replaces what the one before it was worth. -/
def after (s : Sight) (act : Act σ) : Sight where
  hasFailed := if act.isRead then act.isFailedRead else s.hasFailed
  wroteBlindly := s.wroteBlindly || (s.hasFailed && act.isWrite)

/-- After acts, one by one. -/
def afterAll (s : Sight) (acts : List (Act σ)) : Sight := acts.foldl after s

/-- What is left of a record that nobody wanted to change. -/
def left (s : Sight) (r : Record) : Record := if s.wroteBlindly then ∅ else r

@[simp] theorem afterAll_nil (s : Sight) : s.afterAll ([] : List (Act σ)) = s := rfl

@[simp] theorem afterAll_cons (s : Sight) (act : Act σ) (acts : List (Act σ)) :
    s.afterAll (act :: acts) = (s.after act).afterAll acts := rfl

theorem afterAll_append (s : Sight) (acts more : List (Act σ)) :
    s.afterAll (acts ++ more) = (s.afterAll acts).afterAll more := List.foldl_append

theorem afterAll_of_job (s : Sight) (job : Job σ) (acts : List (Act σ)) :
    s.afterAll ((acts.map (job, ·)).map Prod.snd) = s.afterAll acts := by
  rw [List.map_map]
  exact congrArg s.afterAll (List.map_id acts)

theorem after_load (s : Sight) (m : Medium μ) (t : μ) :
    s.after (.call (m.loadCall t) : Act σ)
      = ⟨(Act.call (m.loadCall t) : Act σ).isFailedRead, s.wroteBlindly⟩ := by
  simp [after, Medium.loadCall, Act.isRead, Act.isWrite]

theorem after_save (s : Sight) (r : Record) :
    s.after (.call (Medium.saveCall r) : Act σ)
      = ⟨s.hasFailed, s.wroteBlindly || s.hasFailed⟩ := by
  simp [after]

theorem after_question (s : Sight) (op : Operation σ) (now : Timestamp) (r : Record)
    (w : World μ σ) : s.after (w.question op now r) = s := by
  simp [after, World.question, Act.isRead, Act.isWrite]

theorem afterAll_tellings (s : Sight) (op : Operation σ) (now : Timestamp) (r : Record) :
    s.afterAll (op.tellings now r) = s := by
  unfold Operation.tellings
  induction op.callbacks with
  | nil => rfl
  | cons f fs ih =>
    rw [List.map_cons, afterAll_cons]
    have htell : s.after (.tell f now r) = s := by simp [after, Act.isRead, Act.isWrite]
    rw [htell, ih]

/-- Who never sees a read fail does not write blindly. -/
theorem wroteBlindly_of_reads {s : Sight} {acts : List (Act σ)} (hfresh : s.wroteBlindly = false)
    (hseen : s.hasFailed = false) (hreads : ∀ act ∈ acts, act.isFailedRead = false) :
    (s.afterAll acts).wroteBlindly = false := by
  induction acts generalizing s with
  | nil => exact hfresh
  | cons act acts ih =>
    refine ih ?_ ?_ fun act' hact' => hreads act' (List.mem_cons_of_mem act hact')
    · simp [after, hfresh, hseen]
    · simp [after, hseen, hreads act List.mem_cons_self]

theorem lock?_left {r : Record} (h : r.lock? = none) (s : Sight) : (s.left r).lock? = none := by
  unfold left
  split
  · exact Record.get?_empty _
  · exact h

end Sight

/-- Nothing that is read has an entry under the empty key. -/
theorem Medium.get?_load_empty (m : Medium μ) (s : μ) : (m.load s).1.get? "" = none := by
  show (recordOf (m.retrieve s).1).get? "" = none
  cases (m.retrieve s).1 with
  | ok content => exact Record.get?_ofStored_empty content
  | error e => exact Record.get?_empty ""

/-! ## One attempt -/

namespace Stage

/-- What holds at a stage of an operation that keeps what it finds, where `base` is the record from
before it without a lock. -/
def Keeps (view : μ → Record) (base : Record) (s : Sight) (w : World μ σ) : Stage → Prop
  | .locking _ r => r = (if s.hasFailed then ∅ else s.left base) ∧ r.get? "" = none
  | .rechecking _ answer => (view w.medium).withoutLock = s.left base ∧ answer = .unchanged
  | .writing _ _ => False
  | .clearing => False
  | .releasing r => r = s.left base ∧ s.hasFailed = false ∧ r.get? "" = none
  | _ => (view w.medium).withoutLock = s.left base

section

variable {m : Medium μ} {view : μ → Record} (op : Operation σ) (d : Span) (now : Timestamp)
  {base : Record} {sight : Sight}

/-- The attempt is given up, and all is as it was. -/
theorem keeps_of_lost {s : Stage} {token : String} {w v : World μ σ} {r : Record}
    (hs : s.awaited? = some token) (hload : w.load m = (r, v)) (hlost : r.lock? ≠ some token)
    (hview : view v.medium = view w.medium)
    (hbase : (view w.medium).withoutLock = sight.left base) :
    Keeps view base (sight.afterAll (s.acts m op now w)) (s.step m op d now w).2
      (s.step m op d now w).1 := by
  rw [step_of_lost hs hload hlost, acts_of_lost hs hload hlost, Sight.afterAll_cons,
    Sight.afterAll_nil, Sight.after_load]
  show (view v.medium).withoutLock = sight.left base
  rw [hview, hbase]

theorem keeps_step (h : m.Keeps view) (hfree : base.lock? = none) {s : Stage} {w : World μ σ}
    (hs : Keeps view base sight w s)
    (hkeep : ∀ act ∈ s.acts m op now w, act.isKeeping = true) :
    Keeps view base (sight.afterAll (s.acts m op now w)) (s.step m op d now w).2
      (s.step m op d now w).1 := by
  obtain ⟨r, v, hload, hview, hread⟩ := h.load_cases_world w
  have hplain : r.get? "" = none := by
    have hempty := m.get?_load_empty w.medium
    rwa [show (m.load w.medium).1 = r from congrArg Prod.fst hload] at hempty
  -- a token is only read back by a read that did not fail
  have hheld : ∀ {token : String}, r.lock? = some token →
      r = view w.medium ∧ (Act.call (m.loadCall w.medium) : Act σ).isFailedRead = false := by
    intro token hlock
    rcases hread with hok | ⟨rfl, -⟩
    · exact hok
    · rw [Record.lock?, Record.get?_empty] at hlock
      cases hlock
  cases s with
  | opening =>
    have hbase : (view w.medium).withoutLock = sight.left base := hs
    have hacts : opening.acts m op now w = [.call (m.loadCall w.medium)] := rfl
    rw [hacts, Sight.afterAll_cons, Sight.afterAll_nil, Sight.after_load]
    cases hlock : r.lock? with
    | some token =>
      rw [step_opening_of_locked hload (by rw [hlock]; rfl)]
      show (view v.medium).withoutLock = sight.left base
      rw [hview, hbase]
    | none =>
      rw [step_opening_of_free hload hlock]
      refine ⟨?_, hplain⟩
      rcases hread with ⟨rfl, hok⟩ | ⟨rfl, hbad⟩
      · rw [hok]
        exact (Record.withoutLock_eq_self hlock).symm.trans hbase
      · rw [hbad]
        rfl
  | locking token r' =>
    obtain ⟨hr', hplain'⟩ := hs
    have hacts : (locking token r').acts m op now w
        = [.call (Medium.saveCall (r'.withLock token))] := rfl
    rw [hacts, Sight.afterAll_cons, Sight.afterAll_nil, Sight.after_save]
    have hleft : r' = Sight.left ⟨sight.hasFailed, sight.wroteBlindly || sight.hasFailed⟩ base := by
      rw [hr', Sight.left, Sight.left]
      cases sight.hasFailed <;> simp
    show (view (w.save m (r'.withLock token)).medium).withoutLock = _
    rw [h.view_save_withLock, Record.withoutLock_withLock, Record.erase_of_get?_eq_none hplain',
      Record.withoutLock_eq_self, ← hleft]
    rw [hleft]
    exact Sight.lock?_left hfree _
  | confirming token =>
    have hbase : (view w.medium).withoutLock = sight.left base := hs
    by_cases hlock : r.lock? = some token
    · have hacts : (confirming token).acts m op now w
          = [.call (m.loadCall w.medium), v.question op now r.withoutLock] := by
        simp only [acts, hload, if_pos hlock]
      have hanswer : (v.consult op now r.withoutLock).1 = .unchanged := by
        have hask := hkeep (v.question op now r.withoutLock) (by rw [hacts]; simp)
        exact of_decide_eq_true hask
      rw [step_confirming_of_held hload hlock, hacts, Sight.afterAll_cons, Sight.afterAll_cons,
        Sight.afterAll_nil, Sight.after_question, Sight.after_load]
      refine ⟨?_, hanswer⟩
      show (view v.medium).withoutLock = sight.left base
      rw [hview, hbase]
    · exact keeps_of_lost op d now rfl hload hlock hview hbase
  | rechecking token answer =>
    obtain ⟨hbase, rfl⟩ := hs
    by_cases hlock : r.lock? = some token
    · rw [step_rechecking_of_held _ hload hlock]
      show (view v.medium).withoutLock = _
      rw [hview, hbase]
      have hacts : (rechecking token .unchanged).acts m op now w
          = [.call (m.loadCall w.medium)] := rfl
      rw [hacts, Sight.afterAll_cons, Sight.afterAll_nil, Sight.after_load]
      rfl
    · exact keeps_of_lost op d now rfl hload hlock hview hbase
  | writing token r' => exact hs.elim
  | clearing => exact hs.elim
  | verifying token =>
    have hbase : (view w.medium).withoutLock = sight.left base := hs
    by_cases hlock : r.lock? = some token
    · obtain ⟨rfl, hok⟩ := hheld hlock
      have hacts : (verifying token).acts m op now w = [.call (m.loadCall w.medium)] := rfl
      rw [step_verifying_of_held hload hlock, hacts, Sight.afterAll_cons, Sight.afterAll_nil,
        Sight.after_load, hok]
      refine ⟨hbase, rfl, ?_⟩
      rw [Record.get?_withoutLock (Ne.symm Record.lockKey_ne_empty)]
      exact hplain
    · exact keeps_of_lost op d now rfl hload hlock hview hbase
  | releasing r' =>
    obtain ⟨hr', hseen, hplain'⟩ := hs
    have hacts : (releasing r').acts m op now w = [.call (Medium.saveCall r')] := rfl
    rw [hacts, Sight.afterAll_cons, Sight.afterAll_nil, Sight.after_save, hseen, Bool.or_false]
    show (view (w.save m r').medium).withoutLock = sight.left base
    rw [h.view_save_world, Record.erase_of_get?_eq_none hplain', hr']
    exact Record.withoutLock_eq_self (Sight.lock?_left hfree sight)
  | settled r' => exact hs
  | contended found => exact hs

theorem keeps_run (h : m.Keeps view) (hfree : base.lock? = none) (n : Nat) {s : Stage}
    {w : World μ σ} (hs : Keeps view base sight w s)
    (hkeep : ∀ act ∈ s.actsOf m op d now n w, act.isKeeping = true) :
    Keeps view base (sight.afterAll (s.actsOf m op d now n w)) (s.run m op d now n w).2
      (s.run m op d now n w).1 := by
  induction n generalizing s w sight with
  | zero => exact hs
  | succ n ih =>
    have hacts : s.actsOf m op d now (n + 1) w = s.acts m op now w
        ++ (s.step m op d now w).1.actsOf m op d now n (s.step m op d now w).2 := rfl
    rw [hacts, Sight.afterAll_append]
    rw [hacts] at hkeep
    exact ih
      (keeps_step op d now h hfree hs fun act hact => hkeep act (List.mem_append_left _ hact))
      fun act hact => hkeep act (List.mem_append_right _ hact)

end

end Stage

/-- What is on the medium when a writer has done nothing but leave the record as it is: the first
record, but for the lock, unless the writer wrote blindly. A writer that takes no lock has not
touched it. -/
structure World.HasKept (m : Medium μ) (view : μ → Record) (first : Record) (s : Sight)
    (w : World μ σ) : Prop where
  rest : (view w.medium).withoutLock = s.left first.withoutLock
  whole : m.locking = false → view w.medium = first

section

variable {m : Medium μ} {view : μ → Record} {first : Record} {sight : Sight}

namespace Attempt

variable (op : Operation σ) (d : Span) (now : Timestamp)

theorem hasKept_locked (h : m.Keeps view) (hlocking : m.locking = true) {w : World μ σ}
    (hw : w.HasKept m view first sight)
    (hkeep : ∀ act ∈ lockedActs m op d now w, act.isKeeping = true) :
    (locked m op d now w).2.HasKept m view first
      (sight.afterAll (lockedActs m op d now w)) := by
  have hopening : Stage.Keeps view first.withoutLock sight w .opening := hw.rest
  have hend := Stage.keeps_run op d now h (Record.lock?_withoutLock first) 7 hopening hkeep
  have hfinal := Stage.isFinal_run m op d now 7 .opening w (Nat.le_refl 7)
  unfold locked lockedActs
  generalize Stage.opening.run m op d now 7 w = ended at hend hfinal ⊢
  obtain ⟨s, v⟩ := ended
  have hwhole : m.locking = false → view v.medium = first := by
    rw [hlocking]
    exact fun hfalse => Bool.noConfusion hfalse
  cases s with
  | settled r => exact ⟨hend, hwhole⟩
  | contended found => exact ⟨hend, hwhole⟩
  | _ => cases hfinal

theorem hasKept_unlocked (h : m.Keeps view) {w : World μ σ} (hw : w.HasKept m view first sight)
    (hkeep : ∀ act ∈ unlockedActs m op d now w, act.isKeeping = true) :
    (unlocked m op d now w).2.HasKept m view first
      (sight.afterAll (unlockedActs m op d now w)) := by
  cases hload : w.load m with
  | mk r v =>
    have hview : view v.medium = view w.medium := by
      have hsame := h.view_load_world w
      rwa [hload] at hsame
    have hacts : unlockedActs m op d now w
        = [.call (m.loadCall w.medium), v.question op now r.withoutLock]
          ++ carryingOut ((v.consult op now r.withoutLock).1.resolve now d) := by
      unfold unlockedActs
      rw [hload]
    have hanswer : (v.consult op now r.withoutLock).1 = .unchanged := by
      have hask := hkeep (v.question op now r.withoutLock) (by rw [hacts]; simp)
      exact of_decide_eq_true hask
    have hend : (unlocked m op d now w).2 = (v.consult op now r.withoutLock).2 := by
      unfold unlocked
      rw [hload]
      dsimp only
      rw [hanswer]
      rfl
    rw [hend, hacts, hanswer, Sight.afterAll_append, Sight.afterAll_cons, Sight.afterAll_cons,
      Sight.afterAll_nil, Sight.after_question, Sight.after_load]
    exact ⟨(congrArg Record.withoutLock hview).trans hw.rest,
      fun hlocking => hview.trans (hw.whole hlocking)⟩

end Attempt

namespace Processor

variable (policy : LockPolicy) (now : Timestamp) (tick : Nat)

theorem hasKept_attempts (h : m.Keeps view) (hlocking : m.locking = true) (op : Operation σ)
    (isAwaited : Bool) (left : Nat) {w : World μ σ} (hw : w.HasKept m view first sight)
    (hkeep : ∀ act ∈ attemptsActs m policy now op left w, act.isKeeping = true) :
    (attempts m policy now tick op isAwaited left w).2.HasKept m view first
      (sight.afterAll (attemptsActs m policy now op left w)) := by
  induction left generalizing w sight with
  | zero => exact hw
  | succ left ih =>
    have hlocked := Attempt.hasKept_locked op policy.expirationDelay now h hlocking hw
    unfold attemptsActs at hkeep ⊢
    unfold attempts
    rw [Sight.afterAll_append]
    replace hlocked := hlocked fun act hact => hkeep act (List.mem_append_left _ hact)
    replace hkeep := fun act hact => hkeep act (List.mem_append_right _ hact)
    generalize sight.afterAll (Attempt.lockedActs m op policy.expirationDelay now w) = sight'
      at hlocked ⊢
    generalize Attempt.locked m op policy.expirationDelay now w = ended at hlocked hkeep ⊢
    obtain ⟨found, v⟩ := ended
    cases found with
    | settled r =>
      dsimp only
      rw [Sight.afterAll_tellings]
      exact ⟨hlocked.rest, hlocked.whole⟩
    | contended found =>
      dsimp only at hkeep ⊢
      split
      · next hzero =>
        rw [if_pos hzero] at hkeep
        exact ih hlocked hkeep
      · exact hlocked

theorem hasKept_start (h : m.Keeps view) (op : Operation σ) (isAwaited : Bool) {w : World μ σ}
    (hw : w.HasKept m view first sight)
    (hkeep : ∀ act ∈ startActs m policy now op w, act.isKeeping = true) :
    (start m policy now tick op isAwaited w).2.HasKept m view first
      (sight.afterAll (startActs m policy now op w)) := by
  unfold startActs at hkeep ⊢
  unfold start
  split
  · next hlocking =>
    rw [if_pos hlocking] at hkeep
    exact hasKept_attempts policy now tick h hlocking op isAwaited policy.maxTries hw hkeep
  · next hlocking =>
    rw [if_neg hlocking] at hkeep
    have hunlocked := Attempt.hasKept_unlocked op policy.expirationDelay now h hw
      fun act hact => hkeep act (List.mem_append_left _ hact)
    rw [Sight.afterAll_append, Sight.afterAll_tellings]
    exact ⟨hunlocked.rest, hunlocked.whole⟩

theorem hasKept_serveJobs (h : m.Keeps view) (jobs : List (Job σ)) (p : Processor σ)
    {w : World μ σ} (hpolicy : p.policy = policy) (hw : w.HasKept m view first sight)
    (hkeep : ∀ e ∈ serveJobsActs m policy now tick jobs w, e.2.isKeeping = true) :
    (serveJobs m now tick jobs p w).2.HasKept m view first
      (sight.afterAll ((serveJobsActs m policy now tick jobs w).map Prod.snd)) := by
  induction jobs generalizing p w sight with
  | nil => exact hw
  | cons job jobs ih =>
    cases job with
    | barrier => exact ih _ (by rw [policy_reply, hpolicy]) hw hkeep
    | run op isAwaited =>
      unfold serveJobsActs at hkeep ⊢
      have hstart := hasKept_start policy now tick h op isAwaited hw fun act hact =>
        hkeep (.run op isAwaited, act) (List.mem_append_left _ (List.mem_map_of_mem hact))
      replace hkeep := fun e he => hkeep e (List.mem_append_right _ he)
      unfold serveJobs
      rw [List.map_append, Sight.afterAll_append, Sight.afterAll_of_job, hpolicy]
      generalize sight.afterAll (startActs m policy now op w) = sight' at hstart ⊢
      generalize start m policy now tick op isAwaited w = begun at hstart hkeep ⊢
      obtain ⟨progress, v⟩ := begun
      cases progress with
      | done reply => exact ih _ (by rw [policy_reply, hpolicy]) hstart hkeep
      | pausing z => exact hstart

theorem hasKept_serve (h : m.Keeps view) (p : Processor σ) {w : World μ σ}
    (hpause : p.pause.isSome → m.locking = true) (hw : w.HasKept m view first sight)
    (hkeep : ∀ e ∈ serveActs m now tick p w, e.2.isKeeping = true) :
    (p.serve m now tick w).2.HasKept m view first
      (sight.afterAll ((serveActs m now tick p w).map Prod.snd)) := by
  unfold serveActs at hkeep ⊢
  unfold serve
  cases hz : p.pause with
  | none =>
    rw [hz] at hkeep
    exact hasKept_serveJobs p.policy now tick h p.queue p rfl hw hkeep
  | some z =>
    rw [hz] at hkeep hpause
    dsimp only at hkeep ⊢
    split
    · exact hw
    · next hdue =>
      rw [if_neg hdue] at hkeep
      have hattempts := hasKept_attempts p.policy now tick h (hpause rfl) z.op z.isAwaited
        z.triesLeft hw fun act hact =>
          hkeep (z.job, act) (List.mem_append_left _ (List.mem_map_of_mem hact))
      replace hkeep := fun e he => hkeep e (List.mem_append_right _ he)
      rw [List.map_append, Sight.afterAll_append, Sight.afterAll_of_job]
      generalize sight.afterAll (attemptsActs m p.policy now z.op z.triesLeft w) = sight'
        at hattempts ⊢
      generalize attempts m p.policy now tick z.op z.isAwaited z.triesLeft w = ended
        at hattempts hkeep ⊢
      obtain ⟨progress, v⟩ := ended
      cases progress with
      | done reply =>
        exact hasKept_serveJobs p.policy now tick h p.queue _ (policy_reply _ _ _) hattempts hkeep
      | pausing z' => exact hattempts

/-- Only an operation that takes the lock pauses. -/
theorem locking_of_pausing {op : Operation σ} {isAwaited : Bool} {w v : World μ σ} {z : Pause σ}
    (h : start m policy now tick op isAwaited w = (.pausing z, v)) : m.locking = true := by
  unfold start at h
  split at h
  · assumption
  · cases h

theorem locking_of_pause_serveJobs (jobs : List (Job σ)) (p : Processor σ) (w : World μ σ)
    (hpause : p.pause.isSome → m.locking = true)
    (h : (serveJobs m now tick jobs p w).1.pause.isSome) : m.locking = true := by
  induction jobs generalizing p w with
  | nil => exact hpause h
  | cons job jobs ih =>
    cases job with
    | barrier =>
      refine ih _ w ?_ h
      rwa [pause_reply]
    | run op isAwaited =>
      unfold serveJobs at h
      cases hs : start m p.policy now tick op isAwaited w with
      | mk progress v =>
        rw [hs] at h
        cases progress with
        | done reply =>
          refine ih _ v ?_ h
          rwa [pause_reply]
        | pausing z => exact locking_of_pausing p.policy now tick hs

theorem locking_of_pause_serve (p : Processor σ) (w : World μ σ)
    (hpause : p.pause.isSome → m.locking = true) (h : (p.serve m now tick w).1.pause.isSome) :
    m.locking = true := by
  cases hz : p.pause with
  | some z =>
    rw [hz] at hpause
    exact hpause rfl
  | none =>
    unfold serve at h
    rw [hz] at h
    exact locking_of_pause_serveJobs now tick p.queue p w hpause h

end Processor

end

/-! ## A whole run -/

/-- Whether somebody else changes what is on the medium. -/
def Turn.isInterference : Turn μ σ → Bool
  | .interfere _ => true
  | _ => false

namespace Service

/-- What the writer's latest read is worth, and whether it heeded that so far. -/
def sight (x : Service μ σ) : Sight := Sight.fresh.afterAll (x.acts.map Prod.snd)

/-- How a writer stands that has done nothing but leave the record as it is. -/
structure HasKept (m : Medium μ) (view : μ → Record) (first : Record) (x : Service μ σ) : Prop where
  hasKept : x.world.HasKept m view first x.sight
  locking_of_pause : x.processor.pause.isSome → m.locking = true

section

variable {m : Medium μ} {view : μ → Record} {first : Record}

theorem HasKept.turn (h : m.Keeps view) {x : Service μ σ} (hx : x.HasKept m view first)
    {t : Turn μ σ} (halone : t.isInterference = false)
    (hkeep : ∀ e ∈ (x.turn m t).acts, e.2.isKeeping = true) :
    (x.turn m t).HasKept m view first := by
  cases t with
  | interfere change => cases halone
  | submit op isAwaited =>
    refine ⟨hx.hasKept, fun hpause => hx.locking_of_pause ?_⟩
    rw [← hpause]
    show _ = (x.processor.submit op isAwaited).pause.isSome
    unfold Processor.submit
    split
    · rw [Processor.pause_reply]
    · rfl
  | flush =>
    refine ⟨hx.hasKept, fun hpause => hx.locking_of_pause ?_⟩
    rw [← hpause]
    show _ = x.processor.flush.pause.isSome
    unfold Processor.flush
    split
    · rw [Processor.pause_reply]
    · rfl
  | serve now tick =>
    refine ⟨?_, Processor.locking_of_pause_serve now tick x.processor x.world hx.locking_of_pause⟩
    have hserve := Processor.hasKept_serve now tick h x.processor hx.locking_of_pause hx.hasKept
      fun e he => hkeep e (List.mem_append_right _ he)
    rw [sight, ← Sight.afterAll_append, ← List.map_append] at hserve
    exact hserve

/-- What was done is not forgotten. -/
theorem acts_prefix_run (x : Service μ σ) (turns : List (Turn μ σ)) :
    x.acts <+: (x.run m turns).acts := by
  induction turns generalizing x with
  | nil => exact List.prefix_rfl
  | cons t turns ih =>
    refine List.IsPrefix.trans ?_ (ih (x.turn m t))
    cases t with
    | serve now tick => exact List.prefix_append _ _
    | submit op isAwaited => exact List.prefix_rfl
    | flush => exact List.prefix_rfl
    | interfere change => exact List.prefix_rfl

theorem HasKept.run (h : m.Keeps view) {x : Service μ σ} (hx : x.HasKept m view first)
    {turns : List (Turn μ σ)} (halone : ∀ t ∈ turns, t.isInterference = false)
    (hkeep : ∀ e ∈ (x.run m turns).acts, e.2.isKeeping = true) :
    (x.run m turns).HasKept m view first := by
  induction turns generalizing x with
  | nil => exact hx
  | cons t turns ih =>
    have hturn := hx.turn h (halone t List.mem_cons_self) fun e he =>
      hkeep e ((acts_prefix_run (x.turn m t) turns).mem he)
    exact ih hturn (fun t' ht' => halone t' (List.mem_cons_of_mem t ht')) hkeep

end

/-- Operations that decide to leave the record as it is, on a medium that nobody else writes, do so
but for the lock, exactly unless the writer stored what a failed read had shown; then nothing is
left. If no read fails nothing is stored blindly, and without the lock nothing is stored at all. -/
theorem kept_unless_written_blindly {m : Medium μ} {view : μ → Record} (h : m.Keeps view)
    (policy : LockPolicy) (w : World μ σ) (turns : List (Turn μ σ))
    (halone : ∀ t ∈ turns, t.isInterference = false)
    (hkeep : ∀ e ∈ ((start policy w).run m turns).acts, e.2.isKeeping = true) :
    (view ((start policy w).run m turns).world.medium).withoutLock
        = ((start policy w).run m turns).sight.left (view w.medium).withoutLock ∧
    ((∀ e ∈ ((start policy w).run m turns).acts, e.2.isFailedRead = false) →
      ((start policy w).run m turns).sight.wroteBlindly = false) ∧
    (m.locking = false →
      view ((start policy w).run m turns).world.medium = view w.medium) := by
  have hstart : (start policy w).HasKept m view (view w.medium) :=
    ⟨⟨rfl, fun _ => rfl⟩, fun hpause => nomatch hpause⟩
  have hend := hstart.run h halone hkeep
  refine ⟨hend.hasKept.rest, fun hreads => ?_, hend.hasKept.whole⟩
  refine Sight.wroteBlindly_of_reads rfl rfl fun act hact => ?_
  obtain ⟨e, he, rfl⟩ := List.mem_map.1 hact
  exact hreads e he

/-- An operation that keeps what it finds is submitted and served once. -/
def keepingOnce : List (Turn (List Bool × Option String) Unit) :=
  [.submit keeping true, .serve .epoch 0]

/-- A session outlives an operation that keeps it if a later read fails, and is gone if the first
one does. -/
theorem kept_but_for_first_read :
    (Record.ofStored ((start oneTry (sessionCell [false, false, true])).run (.flaky true)
      keepingOnce).world.medium.2).withoutLock = Record.ofStored (some "id=a") ∧
    (Record.ofStored ((start oneTry (sessionCell [true])).run (.flaky true)
      keepingOnce).world.medium.2).withoutLock = ∅ := by
  constructor
  · refine (kept_unless_written_blindly (Medium.flaky_keeps true) oneTry
      (sessionCell [false, false, true]) keepingOnce (by decide) (by decide +kernel)).1.trans ?_
    decide +kernel
  · refine (kept_unless_written_blindly (Medium.flaky_keeps true) oneTry (sessionCell [true])
      keepingOnce (by decide) (by decide +kernel)).1.trans ?_
    decide +kernel

/-- A product that looks at a live session from time to time. -/
def poller : Product :=
  .new "p" (fun _ _ => .sampledIn) (.ofMillis 900) .epoch (.ofStored (some "id=a&p=1"))

/-- If the first read of a poll fails, the poll decides to leave the record as it is whenever it is
asked, and nothing is left of the session. -/
theorem session_erased_by_poll :
    (∀ e ∈ (servedAt (.flaky true) oneTry ⟨([true], some "id=a&p=1"), poller, .tallies⟩
      Request.watch.operation [(.epoch, 0)]).acts, e.2.isKeeping = true) ∧
    (servedAt (.flaky true) oneTry ⟨([true], some "id=a&p=1"), poller, .tallies⟩
      Request.watch.operation [(.epoch, 0)]).processor.waiting = [] ∧
    (servedAt (.flaky true) oneTry ⟨([true], some "id=a&p=1"), poller, .tallies⟩
      Request.watch.operation [(.epoch, 0)]).world.medium.2 = none := by
  decide +kernel

end Service

end SharedSession
