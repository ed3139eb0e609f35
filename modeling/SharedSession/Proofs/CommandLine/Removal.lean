import SharedSession.CommandLine.Run
import SharedSession.Proofs.Lock.Retrying

set_option autoImplicit false

/-!
# What a reported removal leaves

A removal is reported as done once the medium has been asked to remove the session: past the lock at
once, otherwise by the attempt that settles, which has just read its own token back. What the medium
answers is absorbed like the answer of any other call, so the report does not depend on it: the text
is gone exactly if the medium could remove it, or if there was none.

Main statements: `Stage.withdraws_run`, `CommandLine.gone_iff_cleared`, and what speaks against more
than that, `CommandLine.reported_but_kept`.
-/

namespace SharedSession

variable {μ σ : Type}

/-! ## Honest answers -/

/-- What the medium answers to a removal is the truth about the stored text. -/
structure Medium.ClearsHonestly (m : Medium μ) (k : Backing μ) : Prop where
  gone : ∀ {s t : μ}, m.clear s = (.ok (), t) → k.peek t = none
  kept : ∀ {s t : μ} {e : StorageError}, m.clear s = (.error e, t) → k.peek t = k.peek s

namespace Medium.ClearsHonestly

theorem memory (locking : Bool) : (Medium.memory locking).ClearsHonestly .memory where
  gone h := by
    cases h
    rfl
  kept h := by cases h

/-- Failures that change nothing are honest ones. -/
theorem faulty {m : Medium μ} {k : Backing μ} (h : m.ClearsHonestly k) :
    m.faulty.ClearsHonestly k.faulty where
  gone {s t} hclear := by
    by_cases hfails : s.1.clear = true
    · simp only [Medium.faulty, hfails, reduceIte] at hclear
      cases hclear
    · simp only [Medium.faulty, hfails, Bool.false_eq_true, reduceIte] at hclear
      obtain ⟨hanswer, rfl⟩ := Prod.ext_iff.1 hclear
      exact h.gone (Prod.ext hanswer rfl)
  kept {s t e} hclear := by
    by_cases hfails : s.1.clear = true
    · simp only [Medium.faulty, hfails, reduceIte] at hclear
      cases hclear
      rfl
    · simp only [Medium.faulty, hfails, Bool.false_eq_true, reduceIte] at hclear
      obtain ⟨hanswer, rfl⟩ := Prod.ext_iff.1 hclear
      exact h.kept (Prod.ext hanswer rfl)

/-- Whether anything is left is said by the answer. -/
theorem peek_clear {m : Medium μ} {k : Backing μ} (h : m.ClearsHonestly k) (s : μ) :
    k.peek (m.clear s).2 = none ↔ (m.clear s).1 = .ok () ∨ k.peek s = none := by
  cases hclear : m.clear s with
  | mk answer t =>
    cases answer with
    | ok => simp [h.gone hclear]
    | error e => simp [h.kept hclear]

end Medium.ClearsHonestly

/-! ## Attempts at a removal -/

namespace Stage

/-- What is known at a stage of an operation that always decides to remove: the medium is asked for
it right behind a read that shows a lock, and that is the end. -/
def Withdraws (m : Medium μ) (w : World μ σ) : Stage → Prop
  | .rechecking _ answer => answer = .clear
  | .clearing => ∃ seen : World μ σ, (seen.load m).1.lock?.isSome ∧ w = (seen.load m).2
  | .settled _ => ∃ seen : World μ σ, (seen.load m).1.lock?.isSome ∧ w = (seen.load m).2.wipe m
  | .writing _ _ => False
  | .verifying _ => False
  | .releasing _ => False
  | _ => True

variable {m : Medium μ} {op : Operation σ}
  (hop : ∀ (o : Occasion) (r : Record) (own : σ), (op.transform o r own).1 = .clear)
  (d : Span) (now : Timestamp)

include hop

theorem withdraws_step {s : Stage} {w : World μ σ} (h : s.Withdraws m w) :
    (s.step m op d now w).1.Withdraws m (s.step m op d now w).2 := by
  obtain ⟨r, v, hload⟩ : ∃ r v, w.load m = (r, v) := ⟨_, _, rfl⟩
  cases s with
  | opening =>
    cases hlock : r.lock? with
    | some token =>
      rw [step_opening_of_locked hload (by rw [hlock]; rfl)]
      trivial
    | none =>
      rw [step_opening_of_free hload hlock]
      trivial
  | locking token base => trivial
  | confirming token =>
    by_cases hlock : r.lock? = some token
    · rw [step_confirming_of_held hload hlock]
      exact hop _ _ _
    · rw [step_of_lost rfl hload hlock]
      trivial
  | rechecking token answer =>
    obtain rfl : answer = .clear := h
    by_cases hlock : r.lock? = some token
    · rw [step_rechecking_of_held .clear hload hlock]
      refine ⟨w, ?_, ?_⟩
      · rw [hload, hlock]
        rfl
      · rw [hload]
    · rw [step_of_lost rfl hload hlock]
      trivial
  | clearing =>
    obtain ⟨seen, hlock, rfl⟩ := h
    exact ⟨seen, hlock, rfl⟩
  | settled result => exact h
  | contended found => trivial
  | writing token result => exact h.elim
  | verifying token => exact h.elim
  | releasing result => exact h.elim

theorem withdraws_run (n : Nat) {s : Stage} {w : World μ σ} (h : s.Withdraws m w) :
    (s.run m op d now n w).1.Withdraws m (s.run m op d now n w).2 := by
  induction n generalizing s w with
  | zero => exact h
  | succ n ih => exact ih (withdraws_step hop d now h)

end Stage

/-- An attempt at a removal that settles ends with it, right behind a read that shows a lock. -/
theorem Attempt.cleared_locked {m : Medium μ} {op : Operation σ}
    (hop : ∀ (o : Occasion) (r : Record) (own : σ), (op.transform o r own).1 = .clear)
    {d : Span} {now : Timestamp} {w v : World μ σ} {r : Record}
    (h : locked m op d now w = (.settled r, v)) :
    ∃ seen : World μ σ, (seen.load m).1.lock?.isSome ∧ v = (seen.load m).2.wipe m := by
  have hopening : Stage.opening.Withdraws m w := trivial
  have hend := Stage.withdraws_run hop d now 7 hopening
  unfold locked at h
  generalize Stage.opening.run m op d now 7 w = ended at h hend
  obtain ⟨s, u⟩ := ended
  obtain ⟨hsettled, rfl⟩ := Prod.ext_iff.1 h
  cases s with
  | settled result => exact hend
  | _ => cases hsettled

namespace CommandLine

/-! ## The command -/

/-- A removal, past the lock or not: whether it is reported as done, and what is left. -/
def removing (m : Medium μ) (k : Backing μ) (policy : LockPolicy) (now : Timestamp)
    (names : Supply) (force : Bool) (s : μ) : Bool × μ :=
  if force then forceExpire m s else expire m k policy now names s

/-- That is what the command goes by. -/
theorem remove_eq (env : Environment) (c : Config) (storage : Medium Stores × Backing Stores)
    (force : Bool) (disk : Disk) :
    remove env c storage force disk
      = removed force
          (removing storage.1 storage.2 c.lockPolicy env.now env.names force ⟨disk, none⟩).1
          (removing storage.1 storage.2 c.lockPolicy env.now env.names force ⟨disk, none⟩).2.disk :=
  rfl

theorem code_removed_eq_zero_iff (force isDone : Bool) (disk : Disk) :
    (removed force isDone disk).code = 0 ↔ isDone = true := by
  cases isDone <;> simp [removed, Finish.success, Finish.failure]

theorem expire_eq (m : Medium μ) (k : Backing μ) (policy : LockPolicy) (now : Timestamp)
    (names : Supply) (s : μ) :
    expire m k policy now names s
      = (hasSettled (Bench.run m k removal ⟨⟨now, 0, []⟩, .new policy, ⟨s, (), names⟩⟩).1,
          (Bench.run m k removal ⟨⟨now, 0, []⟩, .new policy, ⟨s, (), names⟩⟩).2.world.medium) := rfl

/-- Where there is nothing to lock, the removal comes right behind a read. -/
theorem expire_of_not_locking {m : Medium μ} (hlocking : m.locking = false) (k : Backing μ)
    (policy : LockPolicy) (now : Timestamp) (names : Supply) (s : μ) :
    expire m k policy now names s = (true, m.wipe (m.load s).2) := by
  have hsettle : Bench.settle m k
      ⟨⟨now, 0, []⟩, (Processor.new policy).submit removal true, ⟨s, (), names⟩⟩
        = .at policy ⟨now, 0, []⟩ (.done (.settled ∅)) ⟨m.wipe (m.load s).2, (), names.draw.2⟩ := by
    rw [Bench.settle_eq, Processor.serve_submitted, Processor.start, hlocking]
    rfl
  have hrun := Bench.await_of_waitFor m k policy hsettle
    (Bench.waitFor_of_reply m k _ (List.cons_ne_nil _ _))
  rw [expire_eq]
  unfold Bench.run
  rw [hrun]
  rfl

/-- Under the lock, a removal that is reported as done comes right behind a read that shows one. -/
theorem expire_of_locking {m : Medium μ} (hlocking : m.locking = true) {k : Backing μ}
    {policy : LockPolicy} {now : Timestamp} {names : Supply} {s t : μ}
    (h : expire m k policy now names s = (true, t)) :
    ∃ seen : μ, (m.load seen).1.lock?.isSome ∧ t = m.wipe (m.load seen).2 := by
  obtain ⟨v, tries, reply, last, u, hpause, hundergoes, hrun⟩ :=
    Bench.run_undergoes m k policy removal hlocking ⟨now, 0, []⟩ (⟨s, (), names⟩ : World μ Unit)
  rw [expire_eq, hrun] at h
  obtain ⟨hsettled, rfl⟩ := Prod.ext_iff.1 h
  have htried := hundergoes.isTried m k policy removal now []
  have hover := htried.ended
  generalize last.tick = ending at hover
  cases hover with
  | @settled lost final r hlost hlast hleft =>
    have hfinal : final ∈ lost ++ [final] := List.mem_append_right lost (List.mem_singleton_self _)
    have hmade := (htried.attempts final hfinal).made
    rw [hlast] at hmade
    obtain ⟨seen, hlock, hleft⟩ := Attempt.cleared_locked (fun _ _ _ => rfl) hmade
    refine ⟨seen.medium, hlock, ?_⟩
    show final.left.medium = _
    rw [hleft]
    rfl
  | dropped hlost hleft hpause => cases hsettled

/-- What a removal that is reported as done has left, by the answer to its last call. -/
structure RemovedUpon (m : Medium μ) (k : Backing μ) (force : Bool) (s seen : μ)
    (answer : Except StorageError Unit) (t : μ) : Prop where
  /-- the removal comes right behind a read -/
  cleared : m.clear (m.load seen).2 = (answer, t)
  /-- which shows a lock, if there is something to lock and the removal does not go past it -/
  behind : if m.locking && !force then (m.load seen).1.lock?.isSome = true else seen = s
  gone : k.peek t = none ↔ answer = .ok () ∨ k.peek (m.load seen).2 = none
  kept : answer ≠ .ok () → k.peek t = k.peek (m.load seen).2

theorem cleared_of_done {m : Medium μ} {k : Backing μ} {policy : LockPolicy} {now : Timestamp}
    {names : Supply} {force : Bool} {s t : μ}
    (h : removing m k policy now names force s = (true, t)) :
    ∃ seen : μ, t = (m.clear (m.load seen).2).2 ∧
      if m.locking && !force then (m.load seen).1.lock?.isSome = true else seen = s := by
  cases force with
  | true =>
    cases h
    exact ⟨s, rfl, by simp⟩
  | false =>
    cases hlocking : m.locking with
    | true =>
      obtain ⟨seen, hlock, rfl⟩ := expire_of_locking hlocking h
      exact ⟨seen, rfl, hlock⟩
    | false =>
      have hdone := expire_of_not_locking hlocking k policy now names s
      obtain ⟨-, rfl⟩ := Prod.ext_iff.1 (hdone.symm.trans h)
      exact ⟨s, rfl, by simp⟩

/-- The command that removes the session ends well only if the medium has been asked to remove it,
and by what the medium answered the text is gone or is still there. -/
theorem gone_iff_cleared {m : Medium μ} {k : Backing μ} (hm : m.ClearsHonestly k)
    (policy : LockPolicy) (now : Timestamp) (names : Supply) (force : Bool) (s : μ) (disk : Disk)
    (hsuccess : (removed force (removing m k policy now names force s).1 disk).code = 0) :
    ∃ (seen : μ) (answer : Except StorageError Unit),
      RemovedUpon m k force s seen answer (removing m k policy now names force s).2 := by
  have hdone := (code_removed_eq_zero_iff force _ disk).1 hsuccess
  cases hremoving : removing m k policy now names force s with
  | mk isDone t =>
    rw [hremoving] at hdone
    obtain rfl : isDone = true := hdone
    obtain ⟨seen, rfl, hseen⟩ := cleared_of_done hremoving
    refine ⟨seen, (m.clear (m.load seen).2).1, rfl, hseen, hm.peek_clear _, ?_⟩
    cases hclear : m.clear (m.load seen).2 with
    | mk answer t =>
      cases answer with
      | ok => exact fun hne => absurd rfl hne
      | error e => exact fun _ => hm.kept hclear

/-- A cell with a session that cannot be removed. -/
def stubbornCell : Faults × Option String := (⟨false, false, true⟩, some "id=a")

/-- A removal there, under the lock or past it. -/
def stubbornRemoval (force : Bool) : Bool × (Faults × Option String) :=
  removing (Medium.memory true).faulty Backing.memory.faulty Service.oneTry .epoch .tallies force
    stubbornCell

/-- What is left where the session cannot be removed. -/
theorem gone_iff_cleared_stubborn :
    (Medium.memory true).faulty.ClearsHonestly Backing.memory.faulty ∧
    (removed false (stubbornRemoval false).1 .empty).code = 0 ∧
    (removed true (stubbornRemoval true).1 .empty).code = 0 ∧
    (∃ seen answer, RemovedUpon (Medium.memory true).faulty Backing.memory.faulty false stubbornCell
      seen answer (stubbornRemoval false).2) ∧
    (∃ seen answer, RemovedUpon (Medium.memory true).faulty Backing.memory.faulty true stubbornCell
      seen answer (stubbornRemoval true).2) :=
  have hm := (Medium.ClearsHonestly.memory true).faulty
  have hunder : (removed false (stubbornRemoval false).1 .empty).code = 0 := by decide +kernel
  have hpast : (removed true (stubbornRemoval true).1 .empty).code = 0 := by decide +kernel
  ⟨hm, hunder, hpast,
    gone_iff_cleared hm Service.oneTry .epoch .tallies false stubbornCell .empty hunder,
    gone_iff_cleared hm Service.oneTry .epoch .tallies true stubbornCell .empty hpast⟩

/-- There the command says that the session is cleared, and the session is still there: as it was,
or with the lock of the command in it, which nobody will remove. -/
theorem reported_but_kept :
    (removed true (stubbornRemoval true).1 .empty).output = "Session cleared (forced)\n" ∧
    Backing.memory.faulty.peek (stubbornRemoval true).2 = some "id=a" ∧
    (removed false (stubbornRemoval false).1 .empty).output = "Session cleared\n" ∧
    Backing.memory.faulty.peek (stubbornRemoval false).2 = some "id=a&lock=i" := by
  decide +kernel

end CommandLine

end SharedSession
