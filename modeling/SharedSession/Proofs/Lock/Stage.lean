import SharedSession.Lock.Attempt
import SharedSession.Proofs.Record.Entries

set_option autoImplicit false

/-!
# The next call of an attempt

What a stage does depends on the medium only through what it reads: one equation for each thing
that can be read, on any medium.
-/

namespace SharedSession

/-- What is stored is what was decided, without a lock and with a new deadline. -/
theorem Outcome.eq_of_resolve_persist {answer : Outcome} {now : Timestamp} {d : Span} {r : Record}
    (h : answer.resolve now d = .persist r) :
    ∃ s, answer = .persist s ∧ s.isCleared = false ∧ r = s.withoutLock.expand now d := by
  cases answer with
  | persist s =>
    cases hcleared : s.isCleared with
    | true =>
      rw [resolve_persist_of_cleared now d hcleared] at h
      cases h
    | false =>
      rw [resolve_persist_of_not_cleared now d hcleared] at h
      cases h
      exact ⟨s, rfl, hcleared, rfl⟩
  | clear => cases h
  | unchanged => cases h

theorem Outcome.lock?_of_resolve {answer : Outcome} {now : Timestamp} {d : Span} {r : Record}
    (h : answer.resolve now d = .persist r) : r.lock? = none := by
  obtain ⟨s, -, -, rfl⟩ := eq_of_resolve_persist h
  rw [Record.lock?_expand, Record.lock?_withoutLock]

theorem Outcome.eq_unchanged_of_resolve {answer : Outcome} {now : Timestamp} {d : Span}
    (h : answer.resolve now d = .unchanged) : answer = .unchanged := by
  cases answer with
  | persist s =>
    cases hcleared : s.isCleared with
    | true => rw [resolve_persist_of_cleared now d hcleared] at h; cases h
    | false => rw [resolve_persist_of_not_cleared now d hcleared] at h; cases h
  | clear => cases h
  | unchanged => rfl

theorem World.consult_eq {μ σ : Type} {op : Operation σ} {now : Timestamp} {r : Record}
    {w : World μ σ} {answer : Outcome} {own : σ}
    (h : op.transform ⟨now, w.names.next⟩ r w.own = (answer, own)) :
    w.consult op now r = (answer, ⟨w.medium, own, w.names.draw.2⟩) := by
  show ((op.transform ⟨now, w.names.next⟩ r w.own).1,
    (⟨w.medium, (op.transform ⟨now, w.names.next⟩ r w.own).2, w.names.draw.2⟩ : World μ σ)) = _
  rw [h]

namespace Stage

/-- The stage that carries a resolved outcome out. -/
def carryOut (token : String) : Outcome → Stage
  | .persist result => .writing token result
  | .clear => .clearing
  | .unchanged => .verifying token

theorem isFinal_carryOut (token : String) (outcome : Outcome) :
    (carryOut token outcome).isFinal = false := by
  cases outcome <;> rfl

/-- The token that the next call must read back. -/
def awaited? : Stage → Option String
  | .confirming token => some token
  | .rechecking token _ => some token
  | .verifying token => some token
  | _ => none

/-- Where the token is found missing. -/
def checkpoint : Stage → Checkpoint
  | .confirming _ => .acquired
  | .rechecking _ _ => .postProcess
  | .verifying _ => .postPersist
  | _ => .initial

section

variable {μ σ : Type} {m : Medium μ} {op : Operation σ} {d : Span} {now : Timestamp}
  {w v : World μ σ} {r : Record} {token : String}

theorem step_opening_of_locked (hload : w.load m = (r, v)) (h : r.lock?.isSome) :
    opening.step m op d now w = (.contended .initial, v) := by
  simp only [step, hload, h, reduceIte]

theorem step_opening_of_free (hload : w.load m = (r, v)) (h : r.lock? = none) :
    opening.step m op d now w = (.locking v.names.next r, v.draw.2) := by
  simp only [step, hload, h]
  rfl

theorem step_confirming_of_held (hload : w.load m = (r, v)) (h : r.lock? = some token) :
    (confirming token).step m op d now w
      = (.rechecking token (v.consult op now r.withoutLock).1,
          (v.consult op now r.withoutLock).2) := by
  simp only [step, hload, h, reduceIte]

theorem step_rechecking_of_held (answer : Outcome) (hload : w.load m = (r, v))
    (h : r.lock? = some token) :
    (rechecking token answer).step m op d now w = (carryOut token (answer.resolve now d), v) := by
  simp only [step, hload, h, reduceIte]
  cases answer.resolve now d <;> rfl

theorem step_verifying_of_held (hload : w.load m = (r, v)) (h : r.lock? = some token) :
    (verifying token).step m op d now w = (.releasing r.withoutLock, v) := by
  simp only [step, hload, h, reduceIte]

theorem step_of_lost {s : Stage} (hs : s.awaited? = some token) (hload : w.load m = (r, v))
    (h : r.lock? ≠ some token) : s.step m op d now w = (.contended s.checkpoint, v) := by
  cases s with
  | confirming t =>
    cases hs
    simp only [step, hload, h, reduceIte, checkpoint]
  | rechecking t outcome =>
    cases hs
    simp only [step, hload, h, reduceIte, checkpoint]
  | verifying t =>
    cases hs
    simp only [step, hload, h, reduceIte, checkpoint]
  | _ => cases hs

/-- What is over stays as it is. -/
theorem run_of_final {n : Nat} {s : Stage} (h : s.isFinal) : s.run m op d now n w = (s, w) := by
  induction n with
  | zero => rfl
  | succ n ih =>
    cases s with
    | settled result => exact ih
    | contended found => exact ih
    | _ => cases h

theorem run_succ {n : Nat} {s s' : Stage} (h : s.step m op d now w = (s', v)) :
    s.run m op d now (n + 1) w = s'.run m op d now n v := by
  rw [run, h]

end

end Stage

end SharedSession
