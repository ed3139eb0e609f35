import SharedSession.Lock.Processor
import SharedSession.Proofs.Lock.Stage
import SharedSession.Proofs.Storage.Cell

set_option autoImplicit false

/-!
# A cell that keeps a log

A logbook is a cell of memory that notes everything that is ever left in it, and when. An attempt
that nobody disturbs is worked out on it once and for all: `World.attempt_logged` says whether it
settles, what the decision was asked about, and what it leaves in the cell one after another.
-/

namespace SharedSession

/-- What was left in a cell, and when. -/
structure Deposit where
  moment : Timestamp
  content : Option String

/-- The record that a reader sees in a deposit. -/
def Deposit.record (x : Deposit) : Record := Record.ofStored x.content

/-- A cell with all that was ever left in it, latest first. -/
structure Logbook where
  clock : Timestamp
  deposits : List Deposit

namespace Logbook

/-- What is in the cell. -/
def cell (l : Logbook) : Option String := l.deposits.head?.bind Deposit.content

/-- The record in the cell. -/
def seen (l : Logbook) : Record := Record.ofStored l.cell

/-- Leaves something in the cell. -/
def leave (l : Logbook) (content : Option String) : Logbook :=
  { l with deposits := ⟨l.clock, content⟩ :: l.deposits }

/-- Leaves several things one after another, the first of the list last. -/
def leaveAll (l : Logbook) (contents : List (Option String)) : Logbook :=
  { l with deposits := contents.map (⟨l.clock, ·⟩) ++ l.deposits }

theorem leaveAll_leave (l : Logbook) (content : Option String) (contents : List (Option String)) :
    (l.leave content).leaveAll contents = l.leaveAll (contents ++ [content]) := by
  unfold leaveAll leave
  rw [List.map_append, List.append_assoc]
  rfl

end Logbook

/-- A logbook as a medium, which never fails. -/
def Medium.logged (locking : Bool) : Medium Logbook where
  locking := locking
  retrieve l := (.ok l.cell, l)
  persist raw l := (.ok (), l.leave (some raw))
  clear l := (.ok (), l.leave none)

namespace World

variable {μ σ : Type}

/-- Makes a whole attempt; if the operation settles, everybody who waits for it is told. -/
def attempt (m : Medium μ) (op : Operation σ) (d : Span) (now : Timestamp) (w : World μ σ) :
    Option Record × World μ σ :=
  if m.locking then
    match Attempt.locked m op d now w with
    | (.settled r, w) => (some r, w.settle op now r)
    | (.contended _, w) => (none, w)
  else
    let (r, w) := Attempt.unlocked m op d now w
    (some r, w.settle op now r)

section

variable {m : Medium μ} {op : Operation σ} {d : Span} {now : Timestamp} {w v : World μ σ}

theorem attempt_of_settled {r : Record} (hm : m.locking = true)
    (h : Attempt.locked m op d now w = (.settled r, v)) :
    w.attempt m op d now = (some r, v.settle op now r) := by
  unfold attempt
  rw [if_pos hm, h]

theorem attempt_of_contended {found : Checkpoint} (hm : m.locking = true)
    (h : Attempt.locked m op d now w = (.contended found, v)) :
    w.attempt m op d now = (none, v) := by
  unfold attempt
  rw [if_pos hm, h]

theorem attempt_of_unlocked {r : Record} (hm : m.locking = false)
    (h : Attempt.unlocked m op d now w = (r, v)) :
    w.attempt m op d now = (some r, v.settle op now r) := by
  unfold attempt
  rw [hm, h]
  rfl

/-- Under the lock the queue serves an operation by whole attempts. -/
theorem attempts_succ_eq (policy : LockPolicy) (tick : Nat) (isAwaited : Bool) (left : Nat)
    (hm : m.locking = true) :
    Processor.attempts m policy now tick op isAwaited (left + 1) w =
      match w.attempt m op policy.expirationDelay now with
      | (some r, v) => (.done (.settled r), v)
      | (none, v) =>
        if policy.retryDelay.waitTicks = 0 then
          Processor.attempts m policy now tick op isAwaited left v
        else (.pausing ⟨op, isAwaited, left, tick + policy.retryDelay.waitTicks⟩, v) := by
  cases h : Attempt.locked m op policy.expirationDelay now w with
  | mk found v =>
    cases found with
    | settled r =>
      rw [attempt_of_settled hm h]
      simp only [Processor.attempts, h]
    | contended found =>
      rw [attempt_of_contended hm h]
      simp only [Processor.attempts, h]

/-- Without a lock one attempt is enough. -/
theorem start_eq_of_unlocked (policy : LockPolicy) (tick : Nat) (isAwaited : Bool)
    (hm : m.locking = false) :
    ∃ r v, w.attempt m op policy.expirationDelay now = (some r, v) ∧
      Processor.start m policy now tick op isAwaited w = (.done (.settled r), v) := by
  cases h : Attempt.unlocked m op policy.expirationDelay now w with
  | mk r v =>
    refine ⟨r, v.settle op now r, attempt_of_unlocked hm h, ?_⟩
    simp only [Processor.start, hm, h]
    rfl

end

theorem load_logged (locking : Bool) (w : World Logbook σ) :
    w.load (.logged locking) = (w.medium.seen, w) := rfl

theorem load_of_seen {locking : Bool} {w : World Logbook σ} {r : Record} (h : w.medium.seen = r) :
    w.load (.logged locking) = (r, w) := by
  rw [load_logged, h]

theorem save_logged (locking : Bool) (r : Record) (w : World Logbook σ) :
    w.save (.logged locking) r = { w with medium := w.medium.leave r.stored } := by
  unfold save Medium.save Record.stored
  split <;> rfl

end World

namespace Attempt

/-- What is left in the cell from the decision on, latest first. -/
def closing (token : String) (r : Record) : Outcome → List (Option String)
  | .persist s => [(s.erase "").stored, (s.withLock token).stored]
  | .clear => [none]
  | .unchanged => [r.stored]

/-- What an attempt leaves in the cell where it finds a record, latest first. -/
def contents (locking : Bool) (token : String) (r : Record) (resolved : Outcome) :
    List (Option String) :=
  if locking then closing token r resolved ++ [(r.withLock token).stored]
  else match resolved with
    | .persist s => [s.stored]
    | .clear => [none]
    | .unchanged => []

/-- The record that an attempt settles with. -/
def result (locking : Bool) (r : Record) : Outcome → Record
  | .persist s => if locking then s.erase "" else s
  | .clear => ∅
  | .unchanged => r.withoutLock

/-- The record that is in the cell then. -/
def left (r : Record) : Outcome → Record
  | .persist s => s.erase ""
  | .clear => ∅
  | .unchanged => r

theorem seen_leaveAll_contents (locking : Bool) (token : String) (l : Logbook)
    (resolved : Outcome) :
    (l.leaveAll (contents locking token l.seen resolved)).seen = left l.seen resolved := by
  have hplain : Record.ofStored l.seen.stored = l.seen := by
    rw [Record.ofStored_stored]
    exact Record.erase_of_get?_eq_none (Record.get?_ofStored_empty l.cell)
  cases locking with
  | true =>
    cases resolved with
    | persist s =>
      show Record.ofStored (s.erase "").stored = s.erase ""
      rw [Record.ofStored_stored]
      apply Record.erase_of_get?_eq_none
      rw [Record.get?_erase, if_pos rfl]
    | clear => rfl
    | unchanged => exact hplain
  | false =>
    cases resolved with
    | persist s => exact Record.ofStored_stored s
    | clear => rfl
    | unchanged => rfl

variable {σ : Type} {op : Operation σ} {d : Span} {now : Timestamp} {answer : Outcome}

theorem locked_logged_of_held {w : World Logbook σ} (h : w.medium.seen.lock?.isSome) :
    locked (.logged true) op d now w = (.contended .initial, w) := by
  have hopening : Stage.opening.step (.logged true) op d now w = (.contended .initial, w) :=
    Stage.step_opening_of_locked rfl h
  unfold locked
  rw [Stage.run_succ hopening]
  rfl

/-- What is left to do once the decision has been taken up. -/
theorem run_carryOut_logged {l : Logbook} {token : String} {r : Record} {resolved : Outcome}
    {own : σ} {names : Supply} (hheld : l.seen = r.withLock token) (hfree : r.lock? = none)
    (hresolved : ∀ s, resolved = .persist s → s.lock? = none) :
    (Stage.carryOut token resolved).run (.logged true) op d now 3 ⟨l, own, names⟩
      = (.settled (result true r resolved),
          ⟨l.leaveAll (closing token r resolved), own, names⟩) := by
  cases resolved with
  | persist s =>
    have hwritten : (l.leave (s.withLock token).stored).seen = (s.erase "").withLock token := by
      show Record.ofStored (s.withLock token).stored = _
      rw [Record.ofStored_stored, Record.erase_withLock Record.lockKey_ne_empty]
    have hreleased : ((s.erase "").withLock token).withoutLock = s.erase "" := by
      have hlock : (s.erase "").lock? = none := by
        rw [Record.lock?, Record.get?_erase, if_neg (Ne.symm Record.lockKey_ne_empty)]
        exact hresolved s rfl
      rw [Record.withoutLock_withLock, Record.withoutLock_eq_self hlock]
    have hwriting : (Stage.writing token s).step (.logged true) op d now ⟨l, own, names⟩
        = (.verifying token, ⟨l.leave (s.withLock token).stored, own, names⟩) := by
      rw [Stage.step, World.save_logged]
    have hverifying : (Stage.verifying token).step (.logged true) op d now
          ⟨l.leave (s.withLock token).stored, own, names⟩
        = (.releasing (s.erase ""), ⟨l.leave (s.withLock token).stored, own, names⟩) := by
      rw [Stage.step_verifying_of_held (World.load_of_seen hwritten) (Record.lock?_withLock _ _),
        hreleased]
    have hreleasing : (Stage.releasing (s.erase "")).step (.logged true) op d now
          ⟨l.leave (s.withLock token).stored, own, names⟩
        = (.settled (s.erase ""),
            ⟨(l.leave (s.withLock token).stored).leave (s.erase "").stored, own, names⟩) := by
      rw [Stage.step, World.save_logged]
    unfold Stage.carryOut
    rw [Stage.run_succ hwriting, Stage.run_succ hverifying, Stage.run_succ hreleasing]
    rfl
  | clear => rfl
  | unchanged =>
    have hreleased : (r.withLock token).withoutLock = r := by
      rw [Record.withoutLock_withLock, Record.withoutLock_eq_self hfree]
    have hverifying : (Stage.verifying token).step (.logged true) op d now ⟨l, own, names⟩
        = (.releasing r, ⟨l, own, names⟩) := by
      rw [Stage.step_verifying_of_held (World.load_of_seen hheld) (Record.lock?_withLock _ _),
        hreleased]
    have hreleasing : (Stage.releasing r).step (.logged true) op d now ⟨l, own, names⟩
        = (.settled r, ⟨l.leave r.stored, own, names⟩) := by
      rw [Stage.step, World.save_logged]
    unfold Stage.carryOut
    rw [Stage.run_succ hverifying, Stage.run_succ hreleasing, Stage.run_of_final rfl, result,
      Record.withoutLock_eq_self hfree]
    rfl

/-- Nobody interferes, so every token that is looked for is found. -/
theorem locked_logged_of_free {l : Logbook} {own own' : σ} {names : Supply}
    (hfree : l.seen.lock? = none)
    (htransform : op.transform ⟨now, names.name (names.used + 1)⟩ l.seen own = (answer, own')) :
    locked (.logged true) op d now ⟨l, own, names⟩
      = (.settled (result true l.seen (answer.resolve now d)),
          ⟨l.leaveAll (contents true names.next l.seen (answer.resolve now d)), own',
            ⟨names.name, names.used + 2⟩⟩) := by
  have hplain : l.seen.get? "" = none := Record.get?_ofStored_empty l.cell
  have hheld : (l.leave (l.seen.withLock names.next).stored).seen = l.seen.withLock names.next :=
    Record.ofStored_stored_withLock hplain names.next
  have hgiven : (l.seen.withLock names.next).withoutLock = l.seen := by
    rw [Record.withoutLock_withLock, Record.withoutLock_eq_self hfree]
  have hopening : Stage.opening.step (.logged true) op d now ⟨l, own, names⟩
      = (.locking names.next l.seen, ⟨l, own, names.draw.2⟩) :=
    Stage.step_opening_of_free rfl hfree
  have hlocking : (Stage.locking names.next l.seen).step (.logged true) op d now
        ⟨l, own, names.draw.2⟩
      = (.confirming names.next,
          ⟨l.leave (l.seen.withLock names.next).stored, own, names.draw.2⟩) := by
    rw [Stage.step, World.save_logged]
  have hconfirming : (Stage.confirming names.next).step (.logged true) op d now
        ⟨l.leave (l.seen.withLock names.next).stored, own, names.draw.2⟩
      = (.rechecking names.next answer,
          ⟨l.leave (l.seen.withLock names.next).stored, own', ⟨names.name, names.used + 2⟩⟩) := by
    rw [Stage.step_confirming_of_held (World.load_of_seen hheld) (Record.lock?_withLock _ _),
      hgiven, World.consult_eq htransform]
    rfl
  have hrechecking : (Stage.rechecking names.next answer).step (.logged true) op d now
        ⟨l.leave (l.seen.withLock names.next).stored, own', ⟨names.name, names.used + 2⟩⟩
      = (.carryOut names.next (answer.resolve now d),
          ⟨l.leave (l.seen.withLock names.next).stored, own', ⟨names.name, names.used + 2⟩⟩) :=
    Stage.step_rechecking_of_held answer (World.load_of_seen hheld) (Record.lock?_withLock _ _)
  unfold locked
  rw [Stage.run_succ hopening, Stage.run_succ hlocking, Stage.run_succ hconfirming,
    Stage.run_succ hrechecking, run_carryOut_logged hheld hfree fun s => Outcome.lock?_of_resolve,
    Logbook.leaveAll_leave]
  rfl

/-- Without locking there is one read and at most one write. -/
theorem unlocked_logged {l : Logbook} {own own' : σ} {names : Supply}
    (htransform : op.transform ⟨now, names.next⟩ l.seen.withoutLock own = (answer, own')) :
    unlocked (.logged false) op d now ⟨l, own, names⟩
      = (result false l.seen (answer.resolve now d),
          ⟨l.leaveAll (contents false names.next l.seen (answer.resolve now d)), own',
            ⟨names.name, names.used + 1⟩⟩) := by
  have hconsult : (⟨l, own, names⟩ : World Logbook σ).consult op now l.seen.withoutLock
      = (answer, ⟨l, own', names.draw.2⟩) := World.consult_eq htransform
  simp only [unlocked, World.load_logged, hconsult]
  cases answer.resolve now d with
  | persist s =>
    simp only [World.save_logged]
    rfl
  | clear => rfl
  | unchanged => rfl

end Attempt

namespace World

variable {σ : Type} {op : Operation σ} {d : Span} {now : Timestamp}

/-- An attempt that nobody disturbs is refused if it finds a lock. Otherwise it settles, with what
is decided about the record that it finds. -/
theorem attempt_logged (locking : Bool) (op : Operation σ) (d : Span) (now : Timestamp)
    (w : World Logbook σ) :
    w.attempt (.logged locking) op d now = (none, w) ∨
    ∃ token n answer own, w.names.used ≤ n ∧
      op.transform ⟨now, w.names.name n⟩ w.medium.seen.withoutLock w.own = (answer, own) ∧
      (locking = true → w.medium.seen.lock? = none) ∧
      w.attempt (.logged locking) op d now
        = (some (Attempt.result locking w.medium.seen (answer.resolve now d)),
            ⟨w.medium.leaveAll
                (Attempt.contents locking token w.medium.seen (answer.resolve now d)),
              op.settle now (Attempt.result locking w.medium.seen (answer.resolve now d)) own,
              ⟨w.names.name, n + 1⟩⟩) := by
  obtain ⟨l, own, names⟩ := w
  cases locking with
  | true =>
    cases hlock : l.seen.lock? with
    | some token =>
      exact .inl (attempt_of_contended rfl (Attempt.locked_logged_of_held (by rw [hlock]; rfl)))
    | none =>
      have hgiven : l.seen.withoutLock = l.seen := Record.withoutLock_eq_self hlock
      cases htransform : op.transform ⟨now, names.name (names.used + 1)⟩ l.seen own with
      | mk answer own' =>
        refine .inr ⟨names.next, names.used + 1, answer, own', Nat.le_succ _, ?_, fun _ => rfl, ?_⟩
        · rw [hgiven]
          exact htransform
        · exact attempt_of_settled rfl (Attempt.locked_logged_of_free hlock htransform)
  | false =>
    cases htransform : op.transform ⟨now, names.next⟩ l.seen.withoutLock own with
    | mk answer own' =>
      exact .inr ⟨names.next, names.used, answer, own', Nat.le_refl _, htransform, nofun,
        attempt_of_unlocked rfl (Attempt.unlocked_logged htransform)⟩

end World

end SharedSession
