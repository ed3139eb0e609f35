import SharedSession.Proofs.Lock.Fidelity
import SharedSession.Proofs.Lock.Passage

set_option autoImplicit false

/-!
# What a write rests on

Whatever a writer stores rests on something that it has seen before. Under the lock it first puts
back, with its token, the record that it read when nobody held the lock. Everything else that it
writes is the result of a decision, about the record that it was asked about. Between the question
and the write others may change the cell; the writer then finds its token missing, or else what it
finds next to its token is what it was asked about, or has written itself.

The record that was read, the question and the moment at which its answer was taken up are
parameters here: `Stage.RestsOn` says how a stage rests on them, and a call keeps that.

Main statements: `Contest.Passage.restsOn`, `Contest.Passage.written`,
`Contest.isResult_of_settling`.
-/

namespace SharedSession

/-! ## Records and results -/

/-- A record as it is seen where nobody holds the lock. -/
structure Record.IsBare (r : Record) : Prop where
  free : r.lock? = none
  plain : r.get? "" = none

theorem Record.isBare_ofStored {cell : Option String} (h : (ofStored cell).lock? = none) :
    (ofStored cell).IsBare where
  free := h
  plain := get?_ofStored_empty cell

theorem Record.isBare_withoutLock (cell : Option String) : (ofStored cell).withoutLock.IsBare where
  free := lock?_withoutLock _
  plain := by rw [get?_withoutLock (Ne.symm lockKey_ne_empty), get?_ofStored_empty]

namespace Outcome

variable {answer : Outcome} {now : Timestamp} {d : Span} {given r : Record}
  {decided decided' : Record → Outcome → Timestamp → Prop}

theorem isBare_result (h : given.IsBare) (answer : Outcome) (now : Timestamp) (d : Span) :
    (answer.result now d given).IsBare where
  free := lock?_result h.free answer now d
  plain := get?_result_empty h.plain answer now d

/-- A record is what some decision leaves, but for an entry that is not stored. -/
def IsResult (decided : Record → Outcome → Timestamp → Prop) (d : Span) (r : Record) : Prop :=
  ∃ given answer now, decided given answer now ∧ r.erase "" = answer.result now d given

theorem IsResult.mono (h : IsResult decided d r)
    (hdecided : ∀ given answer now, decided given answer now → decided' given answer now) :
    IsResult decided' d r := by
  obtain ⟨given, answer, now, hgiven, hresult⟩ := h
  exact ⟨given, answer, now, hdecided given answer now hgiven, hresult⟩

/-- What is read back of it is still that. -/
theorem IsResult.stored (h : IsResult decided d r)
    (hbare : ∀ given answer now, decided given answer now → given.IsBare) :
    IsResult decided d (Record.ofStored r.stored).withoutLock := by
  obtain ⟨given, answer, now, hgiven, hresult⟩ := h
  refine ⟨given, answer, now, hgiven, ?_⟩
  have hleft := isBare_result (hbare given answer now hgiven) answer now d
  rw [Record.ofStored_stored, hresult, Record.withoutLock_eq_self hleft.free,
    Record.erase_of_get?_eq_none hleft.plain]

theorem IsResult.stored_withLock (h : IsResult decided d r)
    (hbare : ∀ given answer now, decided given answer now → given.IsBare) (token : String) :
    IsResult decided d (Record.ofStored (r.withLock token).stored).withoutLock := by
  have hsame : (Record.ofStored (r.withLock token).stored).withoutLock
      = (Record.ofStored r.stored).withoutLock := by
    rw [Record.ofStored_stored, Record.erase_withLock Record.lockKey_ne_empty,
      Record.withoutLock_withLock, Record.ofStored_stored]
  rw [hsame]
  exact h.stored hbare

/-- So it is where the record was removed. -/
theorem IsResult.removed (h : IsResult decided d ∅) :
    IsResult decided d (Record.ofStored none).withoutLock := by
  rwa [Record.ofStored_none, Record.withoutLock, Record.erase_empty]

end Outcome

/-! ## Stages -/

namespace Stage

variable {read read' : Record → Prop} {asked asked' : Record → Outcome → Prop}
  {decided decided' : Record → Outcome → Timestamp → Prop} {d : Span} {seen seen' : Record}
  {s : Stage}

/-- What a stage has in hand is a record that was read, the answer to a question about a record that
was given, or the result of a decision. -/
def RestsOn (read : Record → Prop) (asked : Record → Outcome → Prop)
    (decided : Record → Outcome → Timestamp → Prop) (d : Span) (seen : Record) : Stage → Prop
  | .locking _ base => read base
  | .rechecking token answer =>
    ∃ given, asked given answer ∧ (seen.lock? = some token → seen.withoutLock = given)
  | .writing _ r => Outcome.IsResult decided d r
  | .clearing => Outcome.IsResult decided d ∅
  | .verifying token => seen.lock? = some token → Outcome.IsResult decided d seen.withoutLock
  | .releasing r => Outcome.IsResult decided d r
  | _ => True

theorem RestsOn.mono (h : s.RestsOn read asked decided d seen) (hread : ∀ r, read r → read' r)
    (hasked : ∀ given answer, asked given answer → asked' given answer)
    (hdecided : ∀ given answer now, decided given answer now → decided' given answer now) :
    s.RestsOn read' asked' decided' d seen := by
  cases s with
  | locking token base => exact hread base h
  | rechecking token answer =>
    obtain ⟨given, hgiven, hheld⟩ := h
    exact ⟨given, hasked given answer hgiven, hheld⟩
  | writing token r => exact Outcome.IsResult.mono h hdecided
  | clearing => exact Outcome.IsResult.mono h hdecided
  | verifying token => exact fun hheld => (h hheld).mono hdecided
  | releasing r => exact Outcome.IsResult.mono h hdecided
  | _ => trivial

/-- What others write makes no difference. -/
theorem RestsOn.frame (h : s.RestsOn read asked decided d seen)
    (hlost : ∀ token ∈ s.awaited?, seen'.lock? ≠ some token) :
    s.RestsOn read asked decided d seen' := by
  cases s with
  | rechecking token answer =>
    obtain ⟨given, hgiven, -⟩ := h
    exact ⟨given, hgiven, fun hheld => absurd hheld (hlost token rfl)⟩
  | verifying token => exact fun hheld => absurd hheld (hlost token rfl)
  | _ => exact h

/-- A decision that is taken up leaves its result in hand. -/
theorem restsOn_carryOut {token : String} {answer : Outcome} {cell : Option String}
    {now : Timestamp} (h : decided (Record.ofStored cell).withoutLock answer now) :
    (carryOut token (answer.resolve now d)).RestsOn read asked decided d (Record.ofStored cell) := by
  cases hresolve : answer.resolve now d with
  | persist r => exact ⟨_, answer, now, h, (Outcome.result_of_resolve_persist _ hresolve).1.symm⟩
  | clear =>
    refine ⟨_, answer, now, h, ?_⟩
    rw [Outcome.result_of_resolve_clear _ hresolve, Record.erase_empty]
  | unchanged =>
    refine fun _ => ⟨_, answer, now, h, ?_⟩
    rw [Outcome.result_of_resolve_unchanged _ hresolve]
    exact Record.erase_of_get?_eq_none (Record.isBare_withoutLock cell).plain

end Stage

/-! ## Calls -/

namespace Contest.Passage

variable {σ : Type} {locking : Bool} {op : Operation σ} {d : Span} {now : Timestamp}
  {fresh : String} {cell cell' : Option String} {x x' : σ} {s s' : Stage} {read : Record → Prop}
  {asked : Record → Outcome → Prop} {decided : Record → Outcome → Timestamp → Prop}

/-- After a call the writer rests on what it rested on before, on what it has just read, or on what
it was just asked. An answer is taken up at the moment of the call. -/
theorem restsOn (h : Passage locking op d now fresh cell x s s' x' cell')
    (hs : s.RestsOn read asked decided d (Record.ofStored cell))
    (hread : s' ≠ .opening → (Record.ofStored cell).lock? = none → read (Record.ofStored cell))
    (hask : s' ≠ .opening → ∀ answer,
      op.transform ⟨now, fresh⟩ (Record.ofStored cell).withoutLock x = (answer, x') →
        asked (Record.ofStored cell).withoutLock answer)
    (hdecide : s' ≠ .opening → ∀ given answer, asked given answer → decided given answer now)
    (hbare : ∀ given answer now, decided given answer now → given.IsBare) :
    s'.RestsOn read asked decided d (Record.ofStored cell') := by
  cases h with
  | abandoned => trivial
  | opened hlock => exact hread nofun hlock
  | locked => trivial
  | consulted hasks hanswer => exact ⟨_, hask nofun _ hanswer, fun _ => rfl⟩
  | @decided token answer hlock =>
    obtain ⟨given, hgiven, hheld⟩ := hs
    obtain rfl := hheld hlock
    refine Stage.restsOn_carryOut (hdecide ?_ _ answer hgiven)
    cases answer.resolve now d <;> exact nofun
  | wrote => exact fun _ => Outcome.IsResult.stored_withLock hs hbare _
  | verified hlock => exact hs hlock
  | cleared => trivial
  | released => trivial
  | @storing _ answer _ r hasks hanswer hresolve =>
    exact ⟨_, answer, now, hdecide nofun _ answer (hask nofun _ hanswer),
      (Outcome.result_of_resolve_persist _ hresolve).1.symm⟩
  | @removing _ answer _ hasks hanswer hresolve =>
    refine ⟨_, answer, now, hdecide nofun _ answer (hask nofun _ hanswer), ?_⟩
    rw [Outcome.result_of_resolve_clear _ hresolve, Record.erase_empty]
  | kept => trivial

/-- What a call puts into the cell is, but for the lock, the record that was read or the result of a
decision. -/
theorem written (h : Passage locking op d now fresh cell x s s' x' cell')
    (hs : s.RestsOn read asked decided d (Record.ofStored cell)) (hread : ∀ r, read r → r.IsBare)
    (hbare : ∀ given answer now, decided given answer now → given.IsBare) :
    cell' = cell ∨ read (Record.ofStored cell').withoutLock ∨
      Outcome.IsResult decided d (Record.ofStored cell').withoutLock := by
  cases h with
  | @locked token base =>
    have hbase : base.IsBare := hread base hs
    right
    left
    rw [Record.ofStored_stored_withLock hbase.plain, Record.withoutLock_withLock,
      Record.withoutLock_eq_self hbase.free]
    exact hs
  | wrote => exact .inr (.inr (Outcome.IsResult.stored_withLock hs hbare _))
  | cleared => exact .inr (.inr (Outcome.IsResult.removed hs))
  | released => exact .inr (.inr (Outcome.IsResult.stored hs hbare))
  | _ => exact .inl rfl

end Contest.Passage

namespace Contest

variable {κ σ : Type} [DecidableEq κ] {locking : Bool} {work : Workload κ σ} {c : Contest κ σ}
  {i : κ} {op : Operation σ} {d : Span} {read : Record → Prop} {asked : Record → Outcome → Prop}
  {decided : Record → Outcome → Timestamp → Prop}

/-- The call that settles an operation leaves the result of a decision. -/
theorem isResult_of_settling (hcurrent : c.current? work i = some op)
    (htries : locking = true → (c.writers i).triesLeft ≠ 0)
    (hsettling : (c.writers i).stage.isSettling = true)
    (hs : (c.writers i).stage.RestsOn read asked decided d c.seen)
    (hbare : ∀ given answer now, decided given answer now → given.IsBare) (now : Timestamp) :
    Outcome.IsResult decided d (c.callOn locking work i now).seen.withoutLock := by
  cases hstage : (c.writers i).stage with
  | releasing r =>
    have hcell : (c.callOn locking work i now).cell = r.stored := by
      cases locking with
      | true => exact congrArg Contest.cell (call_of_at ⟨hcurrent, htries rfl, hstage⟩ now)
      | false => exact congrArg Contest.cell (callUnlocked_of_releasing hcurrent hstage now)
    rw [hstage] at hs
    rw [seen, hcell]
    exact Outcome.IsResult.stored hs hbare
  | clearing =>
    have hcell : (c.callOn locking work i now).cell = none := by
      cases locking with
      | true => exact congrArg Contest.cell (call_of_at ⟨hcurrent, htries rfl, hstage⟩ now)
      | false => exact congrArg Contest.cell (callUnlocked_of_clearing hcurrent hstage now)
    rw [hstage] at hs
    rw [seen, hcell]
    exact Outcome.IsResult.removed hs
  | _ =>
    rw [hstage] at hsettling
    cases hsettling

end Contest

end SharedSession
