import SharedSession.Proofs.Lock.Contest

set_option autoImplicit false

/-!
# A writer that is left alone

A writer that nobody interrupts at one moment does what its queue does: its calls are the stages of
a whole attempt, and without pauses its attempts are those of `Processor.attempts`.

Main statements: `Contest.run_locked`, `Contest.run_attempts`.
-/

namespace SharedSession

namespace Contest

variable {κ σ : Type} [DecidableEq κ]

/-- Calls of one writer at one moment follow the stages to the end of the attempt. -/
theorem run_stages {work : Workload κ σ} {c : Contest κ σ} {i : κ} {op : Operation σ} {s : Stage}
    (hat : At work c i op s) (now : Timestamp) (n : Nat) (hcalls : s.calls ≤ n) :
    ∃ k ≤ n, ∃ c' : Contest κ σ, c.run work (List.replicate k (.call i now)) = c' ∧
      ∃ ended w, s.run (.memory true) op (work.policy i).expirationDelay now n (c.worldOf i)
          = (ended, w) ∧
        c'.cell = w.medium ∧ c'.names = w.names ∧
        c'.writers = Function.update c.writers i
          ((c.writers i).finish (work.policy i) op now w.own (.ofStage ended)) := by
  induction n generalizing c s with
  | zero =>
    have hfinal : s.isFinal := (Stage.isFinal_iff_calls s).2 (Nat.le_zero.1 hcalls)
    have hunfinished := (c.writers i).unfinished
    rw [hat.stage, hfinal] at hunfinished
    cases hunfinished
  | succ n ih =>
    cases hstep : s.step (.memory true) op (work.policy i).expirationDelay now (c.worldOf i) with
    | mk s' w' =>
      have hcall : c.call work i now
          = c.put i ((c.writers i).arrive (work.policy i) op now w'.own s') w'.medium w'.names
              (s.deeds op now (c.worldOf i)) := by
        rw [call_of_at hat, proceed, hstep]
      cases hfinal : s'.isFinal with
      | true =>
        refine ⟨1, by omega, _, rfl, s', w', ?_, ?_, ?_, ?_⟩
        · rw [Stage.run, hstep]
          exact Stage.run_of_final hfinal
        all_goals simp only [List.replicate_one, run_cons, run_nil, move, hcall, put]
        rw [Writer.arrive_of_final _ _ _ _ _ hfinal]
      | false =>
        have harrive := (c.writers i).arrive_of_unfinished (work.policy i) op now w'.own hfinal
        rw [harrive] at hcall
        have hat' : At work (c.call work i now) i op s' := by
          rw [hcall]
          refine ⟨?_, ?_, ?_⟩
          · rw [current?, writers_put_self]
            exact hat.current
          · rw [writers_put_self]
            exact hat.hasTries
          · rw [writers_put_self]
            rfl
        have hworld : (c.call work i now).worldOf i = w' := by
          rw [worldOf, hcall, writers_put_self]
          rfl
        have hle : s'.calls ≤ n := by
          have hdecrease := Stage.calls_step (.memory true) op (work.policy i).expirationDelay now
            s (c.worldOf i)
          rw [hstep] at hdecrease
          exact Nat.le_trans hdecrease (by omega)
        obtain ⟨k, hk, c', hc', ended, w, hrun, hcell, hnames, hwriters⟩ := ih hat' hle
        refine ⟨k + 1, by omega, c', ?_, ended, w, ?_, hcell, hnames, ?_⟩
        · rw [List.replicate_succ, run_cons, move, hc']
        · rw [Stage.run, hstep, ← hrun, hworld]
        · rw [hwriters, hcall, writers_put_self, Writer.finish_advance]
          simp only [put, Function.update_idem]

/-- A writer that is left alone at one moment makes a whole attempt. -/
theorem run_locked {work : Workload κ σ} {c : Contest κ σ} {i : κ} {op : Operation σ}
    (hat : At work c i op .opening) (now : Timestamp) :
    ∃ k ≤ 7, ∃ c' : Contest κ σ, c.run work (List.replicate k (.call i now)) = c' ∧
      ∃ ended w, Attempt.locked (.memory true) op (work.policy i).expirationDelay now
          (c.worldOf i) = (ended, w) ∧
        c'.cell = w.medium ∧ c'.names = w.names ∧
        c'.writers = Function.update c.writers i
          ((c.writers i).finish (work.policy i) op now w.own ended) := by
  obtain ⟨k, hk, c', hc', ended, w, hrun, hrest⟩ := run_stages hat now 7 (Nat.le_refl 7)
  refine ⟨k, hk, c', hc', .ofStage ended, w, ?_, hrest⟩
  rw [Attempt.locked, hrun]

/-- A writer without pauses that is left alone at one moment serves its operation as its queue
does: by repeated attempts, until the operation is over. -/
theorem run_attempts {work : Workload κ σ} {c : Contest κ σ} {i : κ} {op : Operation σ}
    (hcurrent : c.current? work i = some op) (hstage : (c.writers i).stage = .opening)
    (hwait : (work.policy i).retryDelay.waitTicks = 0) (now : Timestamp) (tick : Nat)
    (isAwaited : Bool) :
    ∃ k, ∃ c' : Contest κ σ, c.run work (List.replicate k (.call i now)) = c' ∧
      ∃ reply w, Processor.attempts (.memory true) (work.policy i) now tick op isAwaited
          (c.writers i).triesLeft (c.worldOf i) = (.done reply, w) ∧
        c'.cell = w.medium ∧ c'.names = w.names ∧
        c'.writers = Function.update c.writers i ((c.writers i).next (work.policy i) w.own) := by
  generalize htries : (c.writers i).triesLeft = tries
  induction tries generalizing c with
  | zero =>
    refine ⟨1, _, rfl, .dropped, c.worldOf i, rfl, ?_⟩
    have hcall : c.call work i now
        = c.put i ((c.writers i).next (work.policy i) (c.writers i).own) c.cell c.names
            [.dropped] := by
      simp only [call, hcurrent, if_pos htries]
    simp only [List.replicate_one, run_cons, run_nil, move, hcall]
    exact ⟨rfl, rfl, rfl⟩
  | succ tries ih =>
    have hat : At work c i op .opening := ⟨hcurrent, by omega, hstage⟩
    obtain ⟨k, -, c', hc', ended, w, hlocked, hcell, hnames, hwriters⟩ := run_locked hat now
    cases ended with
    | settled r =>
      refine ⟨k, c', hc', .settled r, w.settle op now r, ?_, hcell, hnames, hwriters⟩
      simp only [Processor.attempts, hlocked]
    | contended found =>
      have hwriter : c'.writers i = (c.writers i).again w.own := by
        rw [hwriters, Function.update_self]
        rfl
      have hworld : c'.worldOf i = w := by
        rw [worldOf, hwriter, hcell, hnames]
        rfl
      have hcurrent' : c'.current? work i = some op := by
        rw [current?, hwriter]
        exact hcurrent
      obtain ⟨l, c'', hc'', reply, w', hattempts, hcell', hnames', hwriters'⟩ :=
        ih hcurrent' (by rw [hwriter]; rfl) (by rw [hwriter, Writer.again, htries]; rfl)
      refine ⟨k + l, c'', ?_, reply, w', ?_, hcell', hnames', ?_⟩
      · rw [List.replicate_add, run_append, hc', hc'']
      · simp only [Processor.attempts, hlocked, if_pos hwait]
        rw [← hattempts, hworld]
      · rw [hwriters', hwriter, hwriters, Function.update_idem]
        rfl

end Contest

end SharedSession
