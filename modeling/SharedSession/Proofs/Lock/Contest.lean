import Mathlib.Data.Set.Insert
import Mathlib.Logic.Function.Basic
import SharedSession.Lock.Processor
import SharedSession.Proofs.Lock.Stage
import SharedSession.Proofs.Storage.Cell

set_option autoImplicit false

/-!
# Writers at work on one cell

Any number of writers share one cell of memory that never fails. Each serves its own operations in
order, with bounded retries, and the calls that they make on the cell are set against each other
one by one, in any order: a `Contest` says where every writer stands, and `Contest.call` lets one of
them make its next call, which is `Stage.step`. Somebody outside may overwrite the cell between any
two calls.

A journal records what the operations do, and what a call does to the cell can be read off it:
`Contest.journal_call`.

Main statements: `Contest.step_call`, what a call can do, as the relation `Contest.Step` with one
case for each thing that can happen; `Contest.overOnce_call`, no operation is over twice.
-/

namespace SharedSession

/-! ## Deeds -/

/-- What an operation does, or what becomes of it. -/
inductive Deed where
  /-- an attempt began: the record was read for the first time -/
  | opened (seen : Record)
  /-- a token was taken -/
  | drew (token : String)
  /-- the record was read again -/
  | reread (seen : Record)
  /-- the decision about a record was asked for and given -/
  | asked (given : Record) (answer : Outcome)
  /-- the decision was taken up, and its deadline reckoned from this moment -/
  | decided (now : Timestamp)
  /-- this was left in the cell -/
  | wrote (raw : Option String)
  /-- an attempt gave way to a contender -/
  | yielded (found : Checkpoint)
  /-- the operation settled -/
  | settled (result : Record)
  /-- the operation was dropped -/
  | dropped
deriving DecidableEq

namespace Deed

/-- The record that was read when an attempt began. -/
def opened? : Deed → Option Record
  | .opened seen => some seen
  | _ => none

/-- The record that a decision was about, and the decision. -/
def asked? : Deed → Option (Record × Outcome)
  | .asked given answer => some (given, answer)
  | _ => none

/-- The moment at which a decision was taken up. -/
def decided? : Deed → Option Timestamp
  | .decided now => some now
  | _ => none

/-- What was left in the cell. -/
def wrote? : Deed → Option (Option String)
  | .wrote raw => some raw
  | _ => none

/-- The token that was taken. -/
def drew? : Deed → Option String
  | .drew token => some token
  | _ => none

/-- Whether the operation is over with it. -/
def isEnd : Deed → Bool
  | .settled _ => true
  | .dropped => true
  | _ => false

end Deed

namespace Stage

variable {σ : Type}

/-- Whether the next call is a write, so that what it rests on was read before. -/
def isPoised : Stage → Bool
  | .locking _ _ => true
  | .writing _ _ => true
  | .clearing => true
  | .releasing _ => true
  | _ => false

/-- Whether the next call is the last and settles the operation. -/
def isSettling : Stage → Bool
  | .clearing => true
  | .releasing _ => true
  | _ => false

/-- The deeds of the next call, latest first. -/
def deeds (op : Operation σ) (now : Timestamp) : Stage → World (Option String) σ → List Deed
  | .opening, w =>
    let r := Record.ofStored w.medium
    if r.lock?.isSome then [.yielded .initial, .opened r] else [.drew w.names.next, .opened r]
  | .locking token base, _ => [.wrote (base.withLock token).stored]
  | .confirming token, w =>
    let r := Record.ofStored w.medium
    if r.lock? = some token then
      [.asked r.withoutLock (w.consult op now r.withoutLock).1, .reread r]
    else [.yielded .acquired, .reread r]
  | .rechecking token _, w =>
    let r := Record.ofStored w.medium
    if r.lock? = some token then [.decided now, .reread r] else [.yielded .postProcess, .reread r]
  | .writing token result, _ => [.wrote (result.withLock token).stored]
  | .clearing, _ => [.settled ∅, .wrote none]
  | .verifying token, w =>
    let r := Record.ofStored w.medium
    if r.lock? = some token then [.reread r] else [.yielded .postPersist, .reread r]
  | .releasing result, _ => [.settled result, .wrote result.stored]
  | .settled _, _ => []
  | .contended _, _ => []

theorem deeds_of_lost {op : Operation σ} {now : Timestamp} {w : World (Option String) σ} {s : Stage}
    {token : String} (hs : s.awaited? = some token)
    (h : (Record.ofStored w.medium).lock? ≠ some token) :
    s.deeds op now w = [.yielded s.checkpoint, .reread (Record.ofStored w.medium)] := by
  cases s with
  | confirming t =>
    cases hs
    exact if_neg h
  | rechecking t outcome =>
    cases hs
    exact if_neg h
  | verifying t =>
    cases hs
    exact if_neg h
  | _ => cases hs

end Stage

/-! ## Contests -/

/-- What the writers are to do. -/
structure Workload (κ σ : Type) where
  policy : κ → LockPolicy
  /-- the operations of each writer in the order in which they were submitted -/
  queue : κ → List (Operation σ)

/-- How far a writer has come. -/
structure Writer (σ : Type) where
  served : Nat
  /-- how many attempts are left to the present operation, the present one included -/
  triesLeft : Nat
  stage : Stage
  /-- an attempt that is over is left at once -/
  unfinished : stage.isFinal = false
  own : σ

namespace Writer

variable {σ : Type}

/-- The writer at another stage of the same attempt. -/
def advance (x : Writer σ) (stage : Stage) (unfinished : stage.isFinal = false) (own : σ) :
    Writer σ :=
  { x with stage, unfinished, own }

/-- The writer at the beginning of the next attempt at the same operation. -/
def again (x : Writer σ) (own : σ) : Writer σ :=
  { x with triesLeft := x.triesLeft - 1, stage := .opening, unfinished := rfl, own }

/-- The writer at the beginning of its next operation. -/
def next (x : Writer σ) (policy : LockPolicy) (own : σ) : Writer σ :=
  ⟨x.served + 1, policy.maxTries, .opening, rfl, own⟩

/-- The writer after an attempt: an operation that has settled is told to all who wait for it, a
contended attempt uses up a try. -/
def finish (x : Writer σ) (policy : LockPolicy) (op : Operation σ) (now : Timestamp) (own : σ) :
    Attempt → Writer σ
  | .settled r => x.next policy (op.settle now r own)
  | .contended _ => x.again own

/-- The writer after a call that brought it to a stage. -/
def arrive (x : Writer σ) (policy : LockPolicy) (op : Operation σ) (now : Timestamp) (own : σ)
    (stage : Stage) : Writer σ :=
  if h : stage.isFinal = false then x.advance stage h own
  else x.finish policy op now own (.ofStage stage)

@[simp] theorem finish_advance (x : Writer σ) (policy : LockPolicy) (op : Operation σ)
    (now : Timestamp) {stage : Stage} (h : stage.isFinal = false) (own own' : σ) (a : Attempt) :
    (x.advance stage h own).finish policy op now own' a = x.finish policy op now own' a := by
  cases a <;> rfl

theorem arrive_of_final (x : Writer σ) (policy : LockPolicy) (op : Operation σ)
    (now : Timestamp) (own : σ) {stage : Stage} (h : stage.isFinal) :
    x.arrive policy op now own stage = x.finish policy op now own (.ofStage stage) :=
  dif_neg (by rw [h]; decide)

theorem arrive_of_unfinished (x : Writer σ) (policy : LockPolicy) (op : Operation σ)
    (now : Timestamp) (own : σ) {stage : Stage} (h : stage.isFinal = false) :
    x.arrive policy op now own stage = x.advance stage h own := dif_pos h

end Writer

/-- The number of an operation: its writer and its place in the writer's queue. -/
abbrev Ticket (κ : Type) : Type := κ × Nat

/-- Writers at work on one cell. -/
structure Contest (κ σ : Type) where
  cell : Option String
  names : Supply
  writers : κ → Writer σ
  /-- what the operations have done, latest first -/
  journal : List (Ticket κ × Deed)

/-- Something that happens in a contest. -/
inductive Move (κ : Type) where
  /-- a writer makes its next call at a moment -/
  | call (i : κ) (now : Timestamp)
  /-- somebody outside overwrites the cell -/
  | overwrite (raw : Option String)

namespace Contest

variable {κ σ : Type}

/-- The record that a reader of the cell sees. -/
def seen (c : Contest κ σ) : Record := Record.ofStored c.cell

/-- The number of the operation that a writer is at. -/
def ticket (c : Contest κ σ) (i : κ) : Ticket κ := (i, (c.writers i).served)

/-- The operation that a writer is at, if it has not served all. -/
def current? (work : Workload κ σ) (c : Contest κ σ) (i : κ) : Option (Operation σ) :=
  (work.queue i)[(c.writers i).served]?

/-- The world as a writer finds it. -/
def worldOf (c : Contest κ σ) (i : κ) : World (Option String) σ :=
  ⟨c.cell, (c.writers i).own, c.names⟩

/-- All writers at the beginning of their first operation. -/
def start (work : Workload κ σ) (cell : Option String) (names : Supply) (own : κ → σ) :
    Contest κ σ :=
  ⟨cell, names, fun i => ⟨0, (work.policy i).maxTries, .opening, rfl, own i⟩, []⟩

variable [DecidableEq κ]

/-- What a call leaves: a writer where it has come to, the cell, the names that are left, and the
deeds of the call under the number of the operation that the writer was at. -/
def put (c : Contest κ σ) (i : κ) (x : Writer σ) (cell : Option String) (names : Supply)
    (deeds : List Deed) : Contest κ σ :=
  ⟨cell, names, Function.update c.writers i x, deeds.map (c.ticket i, ·) ++ c.journal⟩

/-- Lets a writer that is at a stage of an operation make the next call. -/
def proceed (work : Workload κ σ) (i : κ) (now : Timestamp) (c : Contest κ σ) (op : Operation σ)
    (s : Stage) : Contest κ σ :=
  let (stage, w) := s.step (.memory true) op (work.policy i).expirationDelay now (c.worldOf i)
  c.put i ((c.writers i).arrive (work.policy i) op now w.own stage) w.medium w.names
    (s.deeds op now (c.worldOf i))

/-- Lets a writer make its next call. An operation without tries is dropped. -/
def call (work : Workload κ σ) (i : κ) (now : Timestamp) (c : Contest κ σ) : Contest κ σ :=
  let x := c.writers i
  match c.current? work i with
  | none => c
  | some op =>
    if x.triesLeft = 0 then
      c.put i (x.next (work.policy i) x.own) c.cell c.names [.dropped]
    else c.proceed work i now op x.stage

/-- The contest after a move. -/
def move (work : Workload κ σ) (c : Contest κ σ) : Move κ → Contest κ σ
  | .call i now => c.call work i now
  | .overwrite raw => { c with cell := raw }

/-- The contest after moves, one by one. -/
def run (work : Workload κ σ) (moves : List (Move κ)) (c : Contest κ σ) : Contest κ σ :=
  moves.foldl (move work) c

@[simp] theorem run_nil (work : Workload κ σ) (c : Contest κ σ) : c.run work [] = c := rfl

@[simp] theorem run_cons (work : Workload κ σ) (m : Move κ) (moves : List (Move κ))
    (c : Contest κ σ) : c.run work (m :: moves) = (c.move work m).run work moves := rfl

theorem run_append (work : Workload κ σ) (moves after : List (Move κ)) (c : Contest κ σ) :
    c.run work (moves ++ after) = (c.run work moves).run work after :=
  List.foldl_append

/-- Lets writers make calls one after another, while nobody else touches the cell. -/
def interleave (work : Workload κ σ) (calls : List (κ × Timestamp)) (c : Contest κ σ) :
    Contest κ σ :=
  c.run work (calls.map fun x => .call x.1 x.2)

@[simp] theorem interleave_cons (work : Workload κ σ) (x : κ × Timestamp)
    (calls : List (κ × Timestamp)) (c : Contest κ σ) :
    c.interleave work (x :: calls) = (c.call work x.1 x.2).interleave work calls := rfl

theorem interleave_append (work : Workload κ σ) (calls after : List (κ × Timestamp))
    (c : Contest κ σ) :
    c.interleave work (calls ++ after) = (c.interleave work calls).interleave work after := by
  simp only [interleave, List.map_append, run_append]

/-! ## What a call can do -/

/-- A writer is at a stage of an operation that has tries left. -/
structure At (work : Workload κ σ) (c : Contest κ σ) (i : κ) (op : Operation σ) (s : Stage) :
    Prop where
  current : c.current? work i = some op
  hasTries : (c.writers i).triesLeft ≠ 0
  stage : (c.writers i).stage = s

/-- The writer after a call that leaves its own state alone. -/
def writerAt (c : Contest κ σ) (i : κ) (s : Stage) (h : s.isFinal = false) : Writer σ :=
  (c.writers i).advance s h (c.writers i).own

/-- What a call of a writer can do, at a moment. -/
inductive Step (work : Workload κ σ) (c : Contest κ σ) (i : κ) (now : Timestamp) :
    Contest κ σ → Prop where
  /-- all operations are over -/
  | idle (hcurrent : c.current? work i = none) : Step work c i now c
  /-- an operation has no tries left -/
  | dropped {op : Operation σ} (hcurrent : c.current? work i = some op)
      (htries : (c.writers i).triesLeft = 0) :
      Step work c i now
        (c.put i ((c.writers i).next (work.policy i) (c.writers i).own) c.cell c.names [.dropped])
  /-- somebody holds the lock already -/
  | gaveWay {op : Operation σ} (hat : At work c i op .opening) (hlock : c.seen.lock?.isSome) :
      Step work c i now
        (c.put i ((c.writers i).again (c.writers i).own) c.cell c.names
          [.yielded .initial, .opened c.seen])
  /-- nobody holds the lock: a token is taken -/
  | opened {op : Operation σ} (hat : At work c i op .opening) (hlock : c.seen.lock? = none) :
      Step work c i now
        (c.put i (c.writerAt i (.locking c.names.next c.seen) rfl) c.cell c.names.draw.2
          [.drew c.names.next, .opened c.seen])
  /-- the record is written with the token -/
  | locked {op : Operation σ} {token : String} {base : Record}
      (hat : At work c i op (.locking token base)) :
      Step work c i now
        (c.put i (c.writerAt i (.confirming token) rfl) (base.withLock token).stored c.names
          [.wrote (base.withLock token).stored])
  /-- the token is gone -/
  | lost {op : Operation σ} {s : Stage} {token : String} (hat : At work c i op s)
      (hawaited : s.awaited? = some token) (hlock : c.seen.lock? ≠ some token) :
      Step work c i now
        (c.put i ((c.writers i).again (c.writers i).own) c.cell c.names
          [.yielded s.checkpoint, .reread c.seen])
  /-- the token is there: the decision is asked for -/
  | consulted {op : Operation σ} {token : String} {answer : Outcome}
      {w : World (Option String) σ} (hat : At work c i op (.confirming token))
      (hlock : c.seen.lock? = some token)
      (hanswer : (c.worldOf i).consult op now c.seen.withoutLock = (answer, w)) :
      Step work c i now
        (c.put i ((c.writers i).advance (.rechecking token answer) rfl w.own) c.cell w.names
          [.asked c.seen.withoutLock answer, .reread c.seen])
  /-- the token is still there: the decision is taken up -/
  | decided {op : Operation σ} {token : String} {answer : Outcome}
      (hat : At work c i op (.rechecking token answer)) (hlock : c.seen.lock? = some token) :
      Step work c i now
        (c.put i
          (c.writerAt i (.carryOut token (answer.resolve now (work.policy i).expirationDelay))
            (Stage.isFinal_carryOut token _))
          c.cell c.names [.decided now, .reread c.seen])
  /-- the result is written with the token -/
  | wrote {op : Operation σ} {token : String} {result : Record}
      (hat : At work c i op (.writing token result)) :
      Step work c i now
        (c.put i (c.writerAt i (.verifying token) rfl) (result.withLock token).stored c.names
          [.wrote (result.withLock token).stored])
  /-- the record is removed -/
  | cleared {op : Operation σ} (hat : At work c i op .clearing) :
      Step work c i now
        (c.put i ((c.writers i).next (work.policy i) (op.settle now ∅ (c.writers i).own)) none
          c.names [.settled ∅, .wrote none])
  /-- the token is there with the result -/
  | verified {op : Operation σ} {token : String} (hat : At work c i op (.verifying token))
      (hlock : c.seen.lock? = some token) :
      Step work c i now
        (c.put i (c.writerAt i (.releasing c.seen.withoutLock) rfl) c.cell c.names
          [.reread c.seen])
  /-- the result is written without the token -/
  | released {op : Operation σ} {result : Record} (hat : At work c i op (.releasing result)) :
      Step work c i now
        (c.put i ((c.writers i).next (work.policy i) (op.settle now result (c.writers i).own))
          result.stored c.names [.settled result, .wrote result.stored])

/-- A stage is left in one of these ways. -/
theorem step_proceed {work : Workload κ σ} {c : Contest κ σ} {i : κ} {op : Operation σ} {s : Stage}
    (hat : At work c i op s) (now : Timestamp) :
    Step work c i now (c.proceed work i now op s) := by
  have hload : (c.worldOf i).load (.memory true) = (c.seen, c.worldOf i) := rfl
  have hlost : ∀ {token : String}, s.awaited? = some token → c.seen.lock? ≠ some token →
      Step work c i now (c.proceed work i now op s) := by
    intro token hawaited hlock
    have hdeeds : s.deeds op now (c.worldOf i) = [.yielded s.checkpoint, .reread c.seen] :=
      Stage.deeds_of_lost hawaited hlock
    rw [proceed, Stage.step_of_lost hawaited hload hlock, hdeeds]
    exact .lost hat hawaited hlock
  cases s with
  | opening =>
    by_cases hlock : c.seen.lock?.isSome
    · have hdeeds : Stage.opening.deeds op now (c.worldOf i)
          = [.yielded .initial, .opened c.seen] := if_pos hlock
      rw [proceed, Stage.step_opening_of_locked hload hlock, hdeeds]
      exact .gaveWay hat hlock
    · have hdeeds : Stage.opening.deeds op now (c.worldOf i)
          = [.drew c.names.next, .opened c.seen] := if_neg hlock
      have hfree : c.seen.lock? = none := Option.not_isSome_iff_eq_none.1 hlock
      rw [proceed, Stage.step_opening_of_free hload hfree, hdeeds]
      exact .opened hat hfree
  | locking token base => exact .locked hat
  | confirming token =>
    by_cases hlock : c.seen.lock? = some token
    · have hdeeds : (Stage.confirming token).deeds op now (c.worldOf i)
          = [.asked c.seen.withoutLock ((c.worldOf i).consult op now c.seen.withoutLock).1,
              .reread c.seen] := if_pos hlock
      rw [proceed, Stage.step_confirming_of_held hload hlock, hdeeds]
      exact .consulted hat hlock rfl
    · exact hlost rfl hlock
  | rechecking token answer =>
    by_cases hlock : c.seen.lock? = some token
    · have hdeeds : (Stage.rechecking token answer).deeds op now (c.worldOf i)
          = [.decided now, .reread c.seen] := if_pos hlock
      have harrive := (c.writers i).arrive_of_unfinished (work.policy i) op now (c.writers i).own
        (Stage.isFinal_carryOut token (answer.resolve now (work.policy i).expirationDelay))
      rw [proceed, Stage.step_rechecking_of_held answer hload hlock, hdeeds]
      show Step work c i now (c.put i (Writer.arrive _ _ _ _ (c.writers i).own _) _ _ _)
      rw [harrive]
      exact .decided hat hlock
    · exact hlost rfl hlock
  | writing token result => exact .wrote hat
  | clearing => exact .cleared hat
  | verifying token =>
    by_cases hlock : c.seen.lock? = some token
    · have hdeeds : (Stage.verifying token).deeds op now (c.worldOf i) = [.reread c.seen] :=
        if_pos hlock
      rw [proceed, Stage.step_verifying_of_held hload hlock, hdeeds]
      exact .verified hat hlock
    · exact hlost rfl hlock
  | releasing result => exact .released hat
  | settled result =>
    have hunfinished := (c.writers i).unfinished
    rw [hat.stage] at hunfinished
    cases hunfinished
  | contended found =>
    have hunfinished := (c.writers i).unfinished
    rw [hat.stage] at hunfinished
    cases hunfinished

/-- A call does one of these things. -/
theorem step_call (work : Workload κ σ) (c : Contest κ σ) (i : κ) (now : Timestamp) :
    Step work c i now (c.call work i now) := by
  cases hcurrent : c.current? work i with
  | none =>
    have hcall : c.call work i now = c := by simp only [call, hcurrent]
    rw [hcall]
    exact .idle hcurrent
  | some op =>
    by_cases htries : (c.writers i).triesLeft = 0
    · have hcall : c.call work i now
          = c.put i ((c.writers i).next (work.policy i) (c.writers i).own) c.cell c.names
              [.dropped] := by
        simp only [call, hcurrent, if_pos htries]
      rw [hcall]
      exact .dropped hcurrent htries
    · have hcall : c.call work i now = c.proceed work i now op (c.writers i).stage := by
        simp only [call, hcurrent, if_neg htries]
      rw [hcall]
      exact step_proceed ⟨hcurrent, htries, rfl⟩ now

theorem call_of_at {work : Workload κ σ} {c : Contest κ σ} {i : κ} {op : Operation σ} {s : Stage}
    (hat : At work c i op s) (now : Timestamp) :
    c.call work i now = c.proceed work i now op s := by
  rw [← hat.stage]
  simp only [call, hat.current, if_neg hat.hasTries]

/-! ## What stays -/

section

variable (c : Contest κ σ) (i : κ) (x : Writer σ) (cell : Option String) (names : Supply)
  (ds : List Deed)

@[simp] theorem seen_put : (c.put i x cell names ds).seen = Record.ofStored cell := rfl

@[simp] theorem journal_put :
    (c.put i x cell names ds).journal = ds.map (c.ticket i, ·) ++ c.journal := rfl

@[simp] theorem writers_put_self : (c.put i x cell names ds).writers i = x := by
  simp only [put, Function.update_self]

@[simp] theorem writers_put_of_ne {j : κ} (h : j ≠ i) :
    (c.put i x cell names ds).writers j = c.writers j := by
  simp only [put, Function.update_of_ne h]

end

/-- What a call does to the cell is in the journal. -/
theorem journal_call (work : Workload κ σ) (c : Contest κ σ) (i : κ) (now : Timestamp) :
    ∃ ds : List Deed, (c.call work i now).journal = ds.map (c.ticket i, ·) ++ c.journal
      ∧ (c.call work i now).cell = (ds.findSome? Deed.wrote?).getD c.cell := by
  have hstep := step_call work c i now
  generalize c.call work i now = c' at hstep ⊢
  cases hstep with
  | idle => exact ⟨[], rfl, rfl⟩
  | _ => exact ⟨_, rfl, rfl⟩

/-- A call leaves the other writers where they are. -/
theorem writers_call_of_ne (work : Workload κ σ) (c : Contest κ σ) {i j : κ} (h : j ≠ i)
    (now : Timestamp) : (c.call work i now).writers j = c.writers j := by
  have hstep := step_call work c i now
  generalize c.call work i now = c' at hstep ⊢
  cases hstep with
  | idle => rfl
  | _ => exact writers_put_of_ne _ _ _ _ _ _ h

/-- The journal only grows. -/
theorem suffix_journal_move (work : Workload κ σ) (c : Contest κ σ) (m : Move κ) :
    c.journal <:+ (c.move work m).journal := by
  cases m with
  | call i now =>
    obtain ⟨ds, hjournal, -⟩ := journal_call work c i now
    exact ⟨_, hjournal.symm⟩
  | overwrite raw => exact List.suffix_refl _

theorem suffix_journal_run (work : Workload κ σ) (moves : List (Move κ)) (c : Contest κ σ) :
    c.journal <:+ (c.run work moves).journal := by
  induction moves generalizing c with
  | nil => exact List.suffix_refl _
  | cons m moves ih => exact (suffix_journal_move work c m).trans (ih _)

theorem suffix_journal_interleave (work : Workload κ σ) (calls : List (κ × Timestamp))
    (c : Contest κ σ) : c.journal <:+ (c.interleave work calls).journal :=
  suffix_journal_run work _ c

/-- A writer that is not called stays where it is. -/
theorem writers_run_of_not_called (work : Workload κ σ) {moves : List (Move κ)} {j : κ}
    (h : ∀ now, .call j now ∉ moves) (c : Contest κ σ) :
    (c.run work moves).writers j = c.writers j := by
  induction moves generalizing c with
  | nil => rfl
  | cons m moves ih =>
    have hrest : ∀ now, .call j now ∉ moves := fun now hmem => h now (List.mem_cons_of_mem m hmem)
    rw [run_cons, ih hrest]
    cases m with
    | call i now =>
      refine writers_call_of_ne work c ?_ now
      rintro rfl
      exact h now List.mem_cons_self
    | overwrite raw => rfl

theorem writers_interleave_of_not_called (work : Workload κ σ) {calls : List (κ × Timestamp)}
    {j : κ} (h : j ∉ calls.map Prod.fst) (c : Contest κ σ) :
    (c.interleave work calls).writers j = c.writers j := by
  refine writers_run_of_not_called work ?_ c
  intro now hmem
  obtain ⟨x, hx, heq⟩ := List.mem_map.1 hmem
  cases heq
  exact h (List.mem_map_of_mem hx)

/-! ## What is over -/

/-- The operations that have settled. -/
def settled (c : Contest κ σ) : Set (Ticket κ) := fun t => ∃ r, (t, .settled r) ∈ c.journal

/-- The operations that were dropped. -/
def dropped (c : Contest κ σ) : Set (Ticket κ) := fun t => (t, .dropped) ∈ c.journal

/-- An operation is over once: those that a writer is still to serve are not over, and none is over
in two ways. -/
structure OverOnce (c : Contest κ σ) : Prop where
  ahead : ∀ i n e, ((i, n), e) ∈ c.journal → (c.writers i).served ≤ n → e.isEnd = false
  once : ∀ t e e', (t, e) ∈ c.journal → (t, e') ∈ c.journal → e.isEnd → e'.isEnd → e = e'

section

variable {c : Contest κ σ} {i : κ} {x : Writer σ} {cell : Option String} {names : Supply}
  {ds : List Deed}

omit [DecidableEq κ] in
theorem overOnce_start (work : Workload κ σ) (cell : Option String) (names : Supply)
    (own : κ → σ) : (start work cell names own).OverOnce where
  ahead i n e h := by simp [start] at h
  once t e e' h := by simp [start] at h

omit [DecidableEq κ] in
theorem OverOnce.ticket_not_settled (h : c.OverOnce) (i : κ) : c.ticket i ∉ c.settled := by
  rintro ⟨r, hmem⟩
  cases h.ahead i _ _ hmem (Nat.le_refl _)

omit [DecidableEq κ] in
theorem OverOnce.not_dropped_of_settled (h : c.OverOnce) {t : Ticket κ} (ht : t ∈ c.settled) :
    t ∉ c.dropped := by
  obtain ⟨r, hmem⟩ := ht
  intro hdropped
  cases h.once t _ _ hmem hdropped rfl rfl

theorem mem_journal_put {t : Ticket κ} {e : Deed} :
    (t, e) ∈ (c.put i x cell names ds).journal ↔ t = c.ticket i ∧ e ∈ ds ∨ (t, e) ∈ c.journal := by
  rw [journal_put, List.mem_append, List.mem_map]
  constructor
  · rintro (⟨e', hmem, heq⟩ | hold)
    · cases heq
      exact .inl ⟨rfl, hmem⟩
    · exact .inr hold
  · rintro (⟨rfl, hmem⟩ | hold)
    · exact .inl ⟨e, hmem, rfl⟩
    · exact .inr hold

theorem settled_put_of_not_settled (hds : ∀ r, .settled r ∉ ds) :
    (c.put i x cell names ds).settled = c.settled := by
  ext t
  constructor
  · rintro ⟨r, hmem⟩
    rcases mem_journal_put.1 hmem with ⟨-, hnew⟩ | hold
    · exact absurd hnew (hds r)
    · exact ⟨r, hold⟩
  · rintro ⟨r, hold⟩
    exact ⟨r, mem_journal_put.2 (.inr hold)⟩

theorem settled_put_of_settled {r : Record} (hds : .settled r ∈ ds) :
    (c.put i x cell names ds).settled = insert (c.ticket i) c.settled := by
  ext t
  constructor
  · rintro ⟨r', hmem⟩
    rcases mem_journal_put.1 hmem with ⟨heq, -⟩ | hold
    · exact .inl heq
    · exact .inr ⟨r', hold⟩
  · rintro (heq | ⟨r', hold⟩)
    · exact ⟨r, mem_journal_put.2 (.inl ⟨heq, hds⟩)⟩
    · exact ⟨r', mem_journal_put.2 (.inr hold)⟩

/-- A call that ends an operation takes the writer to the next one. -/
theorem OverOnce.put (h : c.OverOnce) (hserved : (c.writers i).served ≤ x.served)
    (hend : ∀ e ∈ ds, e.isEnd → (c.writers i).served < x.served)
    (honce : ∀ e ∈ ds, ∀ e' ∈ ds, e.isEnd → e'.isEnd → e = e') :
    (c.put i x cell names ds).OverOnce := by
  constructor
  · intro j n e hmem hn
    rcases mem_journal_put.1 hmem with ⟨heq, hnew⟩ | hold
    · cases heq
      rw [writers_put_self] at hn
      cases he : e.isEnd with
      | false => rfl
      | true =>
        have hlt := hend e hnew he
        omega
    · refine h.ahead j n e hold (Nat.le_trans ?_ hn)
      by_cases hj : j = i
      · rw [hj, writers_put_self]
        exact hserved
      · rw [writers_put_of_ne _ _ _ _ _ _ hj]
  · intro t e e' hmem hmem' he he'
    rcases mem_journal_put.1 hmem with ⟨heq, hnew⟩ | hold <;>
      rcases mem_journal_put.1 hmem' with ⟨heq', hnew'⟩ | hold'
    · exact honce e hnew e' hnew' he he'
    · rw [heq] at hold'
      rw [h.ahead i _ _ hold' (Nat.le_refl _)] at he'
      cases he'
    · rw [heq'] at hold
      rw [h.ahead i _ _ hold (Nat.le_refl _)] at he
      cases he
    · exact h.once t e e' hold hold' he he'

end

/-- A call ends an operation at most once. -/
theorem overOnce_call {c : Contest κ σ} (work : Workload κ σ) (h : c.OverOnce) (i : κ)
    (now : Timestamp) : (c.call work i now).OverOnce := by
  have hstep := step_call work c i now
  generalize c.call work i now = c' at hstep ⊢
  cases hstep with
  | idle => exact h
  | dropped => exact h.put (Nat.le_succ _) (fun _ _ _ => Nat.lt_succ_self _) (by simp)
  | cleared =>
    exact h.put (Nat.le_succ _) (fun _ _ _ => Nat.lt_succ_self _) (by simp [Deed.isEnd])
  | released =>
    exact h.put (Nat.le_succ _) (fun _ _ _ => Nat.lt_succ_self _) (by simp [Deed.isEnd])
  | _ => exact h.put (Nat.le_refl _) (by simp [Deed.isEnd]) (by simp [Deed.isEnd])

/-! ## Who is at work -/

/-- A writer that has begun an attempt is at an operation that has tries left. -/
def Engaged (work : Workload κ σ) (c : Contest κ σ) : Prop :=
  ∀ i, (c.writers i).stage ≠ .opening → ∃ op, At work c i op (c.writers i).stage

omit [DecidableEq κ] in
theorem engaged_start (work : Workload κ σ) (cell : Option String) (names : Supply)
    (own : κ → σ) : Engaged work (start work cell names own) :=
  fun _ h => absurd rfl h

section

variable {work : Workload κ σ} {c : Contest κ σ} {i : κ} {x : Writer σ} {cell : Option String}
  {names : Supply} {ds : List Deed}

theorem Engaged.put (h : Engaged work c)
    (hx : x.stage ≠ .opening → ∃ op, At work (c.put i x cell names ds) i op x.stage) :
    Engaged work (c.put i x cell names ds) := by
  intro j hj
  by_cases hji : j = i
  · subst hji
    rw [writers_put_self] at hj ⊢
    exact hx hj
  · rw [writers_put_of_ne _ _ _ _ _ _ hji] at hj ⊢
    obtain ⟨op, hat⟩ := h j hj
    refine ⟨op, ?_, ?_, ?_⟩
    · rw [current?, writers_put_of_ne _ _ _ _ _ _ hji]
      exact hat.current
    · rw [writers_put_of_ne _ _ _ _ _ _ hji]
      exact hat.hasTries
    · rw [writers_put_of_ne _ _ _ _ _ _ hji]

/-- The writer goes on with the operation that it is at. -/
theorem At.put {op : Operation σ} {s s' : Stage} (hat : At work c i op s)
    (hserved : x.served = (c.writers i).served) (htries : x.triesLeft = (c.writers i).triesLeft)
    (hstage : x.stage = s') : At work (c.put i x cell names ds) i op s' := by
  refine ⟨?_, ?_, ?_⟩
  · rw [current?, writers_put_self, hserved]
    exact hat.current
  · rw [writers_put_self, htries]
    exact hat.hasTries
  · rw [writers_put_self, hstage]

theorem engaged_call (h : Engaged work c) (i : κ) (now : Timestamp) :
    Engaged work (c.call work i now) := by
  have hstep := step_call work c i now
  generalize c.call work i now = c' at hstep ⊢
  cases hstep with
  | idle => exact h
  | dropped => exact h.put fun hne => absurd rfl hne
  | gaveWay => exact h.put fun hne => absurd rfl hne
  | lost => exact h.put fun hne => absurd rfl hne
  | cleared => exact h.put fun hne => absurd rfl hne
  | released => exact h.put fun hne => absurd rfl hne
  | opened hat => exact h.put fun _ => ⟨_, hat.put rfl rfl rfl⟩
  | locked hat => exact h.put fun _ => ⟨_, hat.put rfl rfl rfl⟩
  | consulted hat => exact h.put fun _ => ⟨_, hat.put rfl rfl rfl⟩
  | decided hat => exact h.put fun _ => ⟨_, hat.put rfl rfl rfl⟩
  | wrote hat => exact h.put fun _ => ⟨_, hat.put rfl rfl rfl⟩
  | verified hat => exact h.put fun _ => ⟨_, hat.put rfl rfl rfl⟩

theorem engaged_interleave (calls : List (κ × Timestamp)) (h : Engaged work c) :
    Engaged work (c.interleave work calls) := by
  induction calls generalizing c with
  | nil => exact h
  | cons x calls ih => exact ih (engaged_call h x.1 x.2)

end

end Contest

end SharedSession
