import SharedSession.Proofs.Lock.Markers

set_option autoImplicit false

/-!
# One call after another, with a lock or without

Where there is nothing to lock, a writer reads the record and decides about it in one call, and a
second one stores or removes it. `Contest.callOn` lets a writer make its next call either way, and
`Contest.runOn` lets things happen one after another, calls and texts from outside alike.

What a call can do to the writer that makes it and to the cell is a `Passage`. To the other writers
it does nothing but change the cell, and it does not leave a token there that another of them holds
in hand: the tokens that a writer holds are its own.

Main statements: `Contest.passage_callOn`, `Contest.Rightful.lock?_ne_of_cell_ne`.
-/

namespace SharedSession

variable {κ σ : Type}

namespace Stage

/-- Whether the next call asks for a decision. -/
def asks (locking : Bool) (seen : Record) : Stage → Bool
  | .confirming token => !locking || decide (seen.lock? = some token)
  | s => !locking && !s.isSettling

/-- The token that the writer has in hand. -/
def token? : Stage → Option String
  | .locking token _ => some token
  | .confirming token => some token
  | .rechecking token _ => some token
  | .writing token _ => some token
  | .verifying token => some token
  | _ => none

theorem token?_of_awaited? {s : Stage} {token : String} (h : s.awaited? = some token) :
    s.token? = some token := by
  cases s with
  | confirming t => exact h
  | rechecking t answer => exact h
  | verifying t => exact h
  | _ => cases h

end Stage

/-- The writer after a decision that is carried out without a lock: it is about to store or to
remove, or the operation has settled with the record that was given. -/
def Writer.heed (x : Writer σ) (policy : LockPolicy) (op : Operation σ) (now : Timestamp)
    (given : Record) (own : σ) : Outcome → Writer σ
  | .persist r => x.advance (.releasing r) rfl own
  | .clear => x.advance .clearing rfl own
  | .unchanged => x.next policy (op.settle now given own)

/-- What a decision settles that is carried out without a lock. -/
def Deed.heeding (given : Record) : Outcome → List Deed
  | .unchanged => [.settled given]
  | _ => []

namespace Contest

section

variable [DecidableEq κ]

/-! ## Calls without a lock -/

/-- Lets a writer read the record and decide about it. What is to be stored or removed is so by its
next call. -/
def ask (work : Workload κ σ) (i : κ) (now : Timestamp) (c : Contest κ σ) (op : Operation σ) :
    Contest κ σ :=
  let given := c.seen.withoutLock
  let (answer, w) := (c.worldOf i).consult op now given
  let outcome := answer.resolve now (work.policy i).expirationDelay
  c.put i ((c.writers i).heed (work.policy i) op now given w.own outcome) c.cell w.names
    (Deed.heeding given outcome ++ [.decided now, .asked given answer, .opened c.seen])

/-- Lets a writer make its next call where there is nothing to lock. -/
def callUnlocked (work : Workload κ σ) (i : κ) (now : Timestamp) (c : Contest κ σ) :
    Contest κ σ :=
  let x := c.writers i
  match c.current? work i with
  | none => c
  | some op =>
    match x.stage with
    | .releasing r =>
      c.put i (x.next (work.policy i) (op.settle now r x.own)) r.stored c.names
        [.settled r, .wrote r.stored]
    | .clearing =>
      c.put i (x.next (work.policy i) (op.settle now ∅ x.own)) none c.names
        [.settled ∅, .wrote none]
    | _ => c.ask work i now op

/-- Lets a writer make its next call, under the lock or not. -/
def callOn (locking : Bool) (work : Workload κ σ) (i : κ) (now : Timestamp) (c : Contest κ σ) :
    Contest κ σ :=
  if locking then c.call work i now else c.callUnlocked work i now

/-- The contest after a move, under the lock or not. -/
def moveOn (locking : Bool) (work : Workload κ σ) (c : Contest κ σ) : Move κ → Contest κ σ
  | .call i now => c.callOn locking work i now
  | .overwrite raw => { c with cell := raw }

/-- The contest after moves, one by one. -/
def runOn (locking : Bool) (work : Workload κ σ) (moves : List (Move κ)) (c : Contest κ σ) :
    Contest κ σ :=
  moves.foldl (moveOn locking work) c

theorem runOn_append (locking : Bool) (work : Workload κ σ) (moves more : List (Move κ))
    (c : Contest κ σ) :
    c.runOn locking work (moves ++ more) = (c.runOn locking work moves).runOn locking work more :=
  List.foldl_append

/-- Under the lock these are the runs of a contest. -/
theorem runOn_true (work : Workload κ σ) (moves : List (Move κ)) (c : Contest κ σ) :
    c.runOn true work moves = c.run work moves := by
  induction moves generalizing c with
  | nil => rfl
  | cons m moves ih => cases m <;> exact ih _

end

/-! ## What a call does -/

/-- What a call can do, as the writer that makes it sees it: from its stage and its own state, with
this in the cell and this as the next name, to another stage and another own state, and to what is
in the cell then. -/
inductive Passage (locking : Bool) (op : Operation σ) (d : Span) (now : Timestamp)
    (fresh : String) (cell : Option String) (own : σ) :
    Stage → Stage → σ → Option String → Prop where
  /-- the attempt is given up, or the operation is dropped -/
  | abandoned {s : Stage} : Passage locking op d now fresh cell own s .opening own cell
  | opened (hlock : (Record.ofStored cell).lock? = none) :
      Passage locking op d now fresh cell own .opening (.locking fresh (Record.ofStored cell)) own
        cell
  | locked {token : String} {base : Record} :
      Passage locking op d now fresh cell own (.locking token base) (.confirming token) own
        (base.withLock token).stored
  | consulted {token : String} {answer : Outcome} {own' : σ}
      (hasks : (Stage.confirming token).asks locking (Record.ofStored cell) = true)
      (hanswer : op.transform ⟨now, fresh⟩ (Record.ofStored cell).withoutLock own
        = (answer, own')) :
      Passage locking op d now fresh cell own (.confirming token) (.rechecking token answer) own'
        cell
  | decided {token : String} {answer : Outcome}
      (hlock : (Record.ofStored cell).lock? = some token) :
      Passage locking op d now fresh cell own (.rechecking token answer)
        (.carryOut token (answer.resolve now d)) own cell
  | wrote {token : String} {r : Record} :
      Passage locking op d now fresh cell own (.writing token r) (.verifying token) own
        (r.withLock token).stored
  | verified {token : String} (hlock : (Record.ofStored cell).lock? = some token) :
      Passage locking op d now fresh cell own (.verifying token)
        (.releasing (Record.ofStored cell).withoutLock) own cell
  | cleared :
      Passage locking op d now fresh cell own .clearing .opening (op.settle now ∅ own) none
  | released {r : Record} :
      Passage locking op d now fresh cell own (.releasing r) .opening (op.settle now r own) r.stored
  /-- without a lock, the record is to be stored -/
  | storing {s : Stage} {answer : Outcome} {own' : σ} {r : Record}
      (hasks : s.asks locking (Record.ofStored cell) = true)
      (hanswer : op.transform ⟨now, fresh⟩ (Record.ofStored cell).withoutLock own
        = (answer, own'))
      (hresolve : answer.resolve now d = .persist r) :
      Passage locking op d now fresh cell own s (.releasing r) own' cell
  /-- without a lock, the record is to be removed -/
  | removing {s : Stage} {answer : Outcome} {own' : σ}
      (hasks : s.asks locking (Record.ofStored cell) = true)
      (hanswer : op.transform ⟨now, fresh⟩ (Record.ofStored cell).withoutLock own
        = (answer, own'))
      (hresolve : answer.resolve now d = .clear) :
      Passage locking op d now fresh cell own s .clearing own' cell
  /-- without a lock, the record stays as it is -/
  | kept {s : Stage} {answer : Outcome} {own' : σ}
      (hasks : s.asks locking (Record.ofStored cell) = true)
      (hanswer : op.transform ⟨now, fresh⟩ (Record.ofStored cell).withoutLock own
        = (answer, own'))
      (hresolve : answer.resolve now d = .unchanged) :
      Passage locking op d now fresh cell own s .opening
        (op.settle now (Record.ofStored cell).withoutLock own') cell

namespace Passage

variable {locking : Bool} {op : Operation σ} {d : Span} {now : Timestamp} {fresh : String}
  {cell cell' : Option String} {x x' : σ} {s s' : Stage}

/-- Only a writer that is about to write changes the cell. -/
theorem cell_eq_of_not_poised (h : Passage locking op d now fresh cell x s s' x' cell')
    (hpoised : s.isPoised = false) : cell' = cell := by
  cases h with
  | locked => cases hpoised
  | wrote => cases hpoised
  | cleared => cases hpoised
  | released => cases hpoised
  | _ => rfl

/-- A call leaves the cell as it is, or without a lock, or with the writer's own token. -/
theorem lock?_cell (h : Passage locking op d now fresh cell x s s' x' cell')
    (hfree : ∀ r, s = .releasing r → r.lock? = none) :
    cell' = cell ∨ (Record.ofStored cell').lock? = none ∨
      (Record.ofStored cell').lock? = s.token? := by
  cases h with
  | locked => exact .inr (.inr (Record.lock?_ofStored_withLock _ _))
  | wrote => exact .inr (.inr (Record.lock?_ofStored_withLock _ _))
  | cleared => exact .inr (.inl (Record.get?_empty _))
  | released => exact .inr (.inl ((Record.lock?_ofStored_stored _).trans (hfree _ rfl)))
  | _ => exact .inl rfl

/-- What the transform and the callbacks keep of the writer's own state, a call keeps. -/
theorem own_of {I : σ → Prop} (h : Passage locking op d now fresh cell x s s' x' cell') (hx : I x)
    (htransform : ∀ o r x, I x → I (op.transform o r x).2)
    (hsettle : ∀ r x, I x → I (op.settle now r x)) : I x' := by
  have hasked : ∀ {answer : Outcome} {x' : σ},
      op.transform ⟨now, fresh⟩ (Record.ofStored cell).withoutLock x = (answer, x') → I x' := by
    intro answer x' hanswer
    have hkept := htransform ⟨now, fresh⟩ (Record.ofStored cell).withoutLock x hx
    rwa [hanswer] at hkept
  cases h with
  | consulted hasks hanswer => exact hasked hanswer
  | cleared => exact hsettle ∅ x hx
  | released => exact hsettle _ x hx
  | storing hasks hanswer hresolve => exact hasked hanswer
  | removing hasks hanswer hresolve => exact hasked hanswer
  | kept hasks hanswer hresolve => exact hsettle _ _ (hasked hanswer)
  | _ => exact hx

end Passage

variable [DecidableEq κ]

section

variable {work : Workload κ σ} {c : Contest κ σ} {i : κ} {op : Operation σ} {now : Timestamp}

/-- A writer that has served all does nothing. -/
theorem callOn_of_idle (hidle : c.current? work i = none) (locking : Bool) (now : Timestamp) :
    c.callOn locking work i now = c := by
  unfold callOn call callUnlocked
  simp only [hidle, ite_self]

theorem passage_call (hcurrent : c.current? work i = some op) (now : Timestamp) :
    Passage true op (work.policy i).expirationDelay now c.names.next c.cell (c.writers i).own
      (c.writers i).stage ((c.call work i now).writers i).stage
      ((c.call work i now).writers i).own (c.call work i now).cell := by
  have hop : ∀ {op' s}, At work c i op' s → op' = op := by
    intro op' s hat
    rw [hat.current] at hcurrent
    exact Option.some.inj hcurrent
  have hstep := step_call work c i now
  generalize c.call work i now = c' at hstep ⊢
  cases hstep with
  | idle hidle =>
    rw [hidle] at hcurrent
    cases hcurrent
  | dropped => rw [writers_put_self]; exact .abandoned
  | gaveWay => rw [writers_put_self]; exact .abandoned
  | lost => rw [writers_put_self]; exact .abandoned
  | opened hat hlock =>
    rw [writers_put_self, hat.stage]
    exact .opened hlock
  | locked hat =>
    rw [writers_put_self, hat.stage]
    exact .locked
  | consulted hat hlock hanswer =>
    obtain rfl := hop hat
    rw [writers_put_self, hat.stage]
    cases hanswer
    exact .consulted (decide_eq_true hlock) rfl
  | decided hat hlock =>
    rw [writers_put_self, hat.stage]
    exact .decided hlock
  | wrote hat =>
    rw [writers_put_self, hat.stage]
    exact .wrote
  | cleared hat =>
    obtain rfl := hop hat
    rw [writers_put_self, hat.stage]
    exact .cleared
  | verified hat hlock =>
    rw [writers_put_self, hat.stage]
    exact .verified hlock
  | released hat =>
    obtain rfl := hop hat
    rw [writers_put_self, hat.stage]
    exact .released

/-- What an unlocked call at any other stage does is to ask. -/
theorem callUnlocked_of_asking (hcurrent : c.current? work i = some op)
    (hsettling : (c.writers i).stage.isSettling = false) (now : Timestamp) :
    c.callUnlocked work i now = c.ask work i now op := by
  unfold callUnlocked
  simp only [hcurrent]
  cases hstage : (c.writers i).stage with
  | clearing => rw [hstage] at hsettling; cases hsettling
  | releasing r => rw [hstage] at hsettling; cases hsettling
  | _ => rfl

theorem callUnlocked_of_releasing (hcurrent : c.current? work i = some op) {r : Record}
    (hstage : (c.writers i).stage = .releasing r) (now : Timestamp) :
    c.callUnlocked work i now
      = c.put i ((c.writers i).next (work.policy i) (op.settle now r (c.writers i).own)) r.stored
          c.names [.settled r, .wrote r.stored] := by
  unfold callUnlocked
  simp only [hcurrent, hstage]

theorem callUnlocked_of_clearing (hcurrent : c.current? work i = some op)
    (hstage : (c.writers i).stage = .clearing) (now : Timestamp) :
    c.callUnlocked work i now
      = c.put i ((c.writers i).next (work.policy i) (op.settle now ∅ (c.writers i).own)) none
          c.names [.settled ∅, .wrote none] := by
  unfold callUnlocked
  simp only [hcurrent, hstage]

theorem ask_eq {answer : Outcome} {own : σ}
    (h : op.transform ⟨now, c.names.next⟩ c.seen.withoutLock (c.writers i).own = (answer, own)) :
    c.ask work i now op
      = c.put i
          ((c.writers i).heed (work.policy i) op now c.seen.withoutLock own
            (answer.resolve now (work.policy i).expirationDelay))
          c.cell c.names.draw.2
          (Deed.heeding c.seen.withoutLock (answer.resolve now (work.policy i).expirationDelay)
            ++ [.decided now, .asked c.seen.withoutLock answer, .opened c.seen]) := by
  have hconsult := World.consult_eq (w := c.worldOf i) h
  simp only [ask, hconsult]
  rfl

theorem passage_ask (hsettling : (c.writers i).stage.isSettling = false) (now : Timestamp) :
    Passage false op (work.policy i).expirationDelay now c.names.next c.cell (c.writers i).own
      (c.writers i).stage ((c.ask work i now op).writers i).stage
      ((c.ask work i now op).writers i).own (c.ask work i now op).cell := by
  have hasks : (c.writers i).stage.asks false (Record.ofStored c.cell) = true := by
    generalize (c.writers i).stage = s at hsettling ⊢
    cases s with
    | clearing => cases hsettling
    | releasing r => cases hsettling
    | _ => rfl
  obtain ⟨answer, own, hanswer⟩ : ∃ answer own, op.transform ⟨now, c.names.next⟩
      (Record.ofStored c.cell).withoutLock (c.writers i).own = (answer, own) := ⟨_, _, rfl⟩
  rw [ask_eq hanswer, writers_put_self]
  cases hresolve : answer.resolve now (work.policy i).expirationDelay with
  | persist r => exact .storing hasks hanswer hresolve
  | clear => exact .removing hasks hanswer hresolve
  | unchanged => exact .kept hasks hanswer hresolve

theorem passage_callUnlocked (hcurrent : c.current? work i = some op) (now : Timestamp) :
    Passage false op (work.policy i).expirationDelay now c.names.next c.cell (c.writers i).own
      (c.writers i).stage ((c.callUnlocked work i now).writers i).stage
      ((c.callUnlocked work i now).writers i).own (c.callUnlocked work i now).cell := by
  cases hsettling : (c.writers i).stage.isSettling with
  | false =>
    rw [callUnlocked_of_asking hcurrent hsettling]
    exact passage_ask hsettling now
  | true =>
    cases hstage : (c.writers i).stage with
    | clearing =>
      rw [callUnlocked_of_clearing hcurrent hstage, writers_put_self]
      exact .cleared
    | releasing r =>
      rw [callUnlocked_of_releasing hcurrent hstage, writers_put_self]
      exact .released
    | _ => rw [hstage] at hsettling; cases hsettling

/-- Calls that follow each other without a lock are a whole operation without one. -/
theorem unlocked_calls (hcurrent : c.current? work i = some op)
    (hopening : (c.writers i).stage = .opening) (now : Timestamp) :
    ∃ moves : List (Move κ), (moves = [.call i now] ∨ moves = [.call i now, .call i now]) ∧
      ((c.runOn false work moves).writers i).served = (c.writers i).served + 1 ∧
      (c.runOn false work moves).worldOf i
        = (Attempt.unlocked (.memory false) op (work.policy i).expirationDelay now
            (c.worldOf i)).2.settle op now
            (Attempt.unlocked (.memory false) op (work.policy i).expirationDelay now
              (c.worldOf i)).1 := by
  obtain ⟨answer, own, hanswer⟩ : ∃ answer own, op.transform ⟨now, c.names.next⟩
      c.seen.withoutLock (c.writers i).own = (answer, own) := ⟨_, _, rfl⟩
  have hload : (c.worldOf i).load (.memory false) = (c.seen, c.worldOf i) := rfl
  have hconsult := World.consult_eq (w := c.worldOf i) hanswer
  have hask := (callUnlocked_of_asking hcurrent (by rw [hopening]; rfl) now).trans (ask_eq hanswer)
  unfold Attempt.unlocked
  rw [hload]
  dsimp only
  rw [hconsult]
  dsimp only
  generalize hds : Deed.heeding _ _ ++ _ = ds at hask
  cases hresolve : answer.resolve now (work.policy i).expirationDelay with
  | persist r =>
    rw [hresolve] at hask
    have hcurrent' : (c.callUnlocked work i now).current? work i = some op := by
      rw [hask, current?, writers_put_self]
      exact hcurrent
    have hstage : ((c.callUnlocked work i now).writers i).stage = .releasing r := by
      rw [hask, writers_put_self]
      rfl
    refine ⟨_, .inr rfl, ?_⟩
    show ((callUnlocked work i now (c.callUnlocked work i now)).writers i).served = _ ∧
      (callUnlocked work i now (c.callUnlocked work i now)).worldOf i = _
    rw [callUnlocked_of_releasing hcurrent' hstage, worldOf, writers_put_self, hask,
      writers_put_self]
    exact ⟨rfl, rfl⟩
  | clear =>
    rw [hresolve] at hask
    have hcurrent' : (c.callUnlocked work i now).current? work i = some op := by
      rw [hask, current?, writers_put_self]
      exact hcurrent
    have hstage : ((c.callUnlocked work i now).writers i).stage = .clearing := by
      rw [hask, writers_put_self]
      rfl
    refine ⟨_, .inr rfl, ?_⟩
    show ((callUnlocked work i now (c.callUnlocked work i now)).writers i).served = _ ∧
      (callUnlocked work i now (c.callUnlocked work i now)).worldOf i = _
    rw [callUnlocked_of_clearing hcurrent' hstage, worldOf, writers_put_self, hask,
      writers_put_self]
    exact ⟨rfl, rfl⟩
  | unchanged =>
    rw [hresolve] at hask
    refine ⟨_, .inl rfl, ?_⟩
    show ((c.callUnlocked work i now).writers i).served = _ ∧
      (c.callUnlocked work i now).worldOf i = _
    rw [hask, worldOf, writers_put_self]
    exact ⟨rfl, rfl⟩

/-- What a call does to the writer that makes it and to the cell is a passage. -/
theorem passage_callOn (hcurrent : c.current? work i = some op) (locking : Bool)
    (now : Timestamp) :
    Passage locking op (work.policy i).expirationDelay now c.names.next c.cell (c.writers i).own
      (c.writers i).stage ((c.callOn locking work i now).writers i).stage
      ((c.callOn locking work i now).writers i).own (c.callOn locking work i now).cell := by
  cases locking with
  | true => exact passage_call hcurrent now
  | false => exact passage_callUnlocked hcurrent now

/-- A call without a lock puts something in the writer's place or does nothing. -/
theorem callUnlocked_cases (work : Workload κ σ) (c : Contest κ σ) (i : κ) (now : Timestamp) :
    c.callUnlocked work i now = c ∨ ∃ x cell names ds, c.callUnlocked work i now
      = c.put i x cell names ds ∧ x.stage.token? = none ∧
      (x.stage = .opening ∨ x.served = (c.writers i).served) ∧
      (∀ r, x.stage = .releasing r → r.lock? = none) := by
  cases hcurrent : c.current? work i with
  | none =>
    left
    unfold callUnlocked
    simp only [hcurrent]
  | some op =>
    right
    cases hsettling : (c.writers i).stage.isSettling with
    | true =>
      cases hstage : (c.writers i).stage with
      | clearing =>
        exact ⟨_, _, _, _, callUnlocked_of_clearing hcurrent hstage now, rfl, .inl rfl, nofun⟩
      | releasing r =>
        exact ⟨_, _, _, _, callUnlocked_of_releasing hcurrent hstage now, rfl, .inl rfl, nofun⟩
      | _ => rw [hstage] at hsettling; cases hsettling
    | false =>
      have hask := (callUnlocked_of_asking hcurrent hsettling now).trans (ask_eq rfl)
      refine ⟨_, _, _, _, hask, ?_⟩
      generalize hresolve : Outcome.resolve _ _ _ = outcome
      cases outcome with
      | persist r =>
        refine ⟨rfl, .inr rfl, ?_⟩
        rintro _ ⟨⟩
        obtain ⟨s, -, -, rfl⟩ := Outcome.eq_of_resolve_persist hresolve
        rw [Record.lock?_expand, Record.lock?_withoutLock]
      | clear => exact ⟨rfl, .inr rfl, nofun⟩
      | unchanged => exact ⟨rfl, .inl rfl, nofun⟩

end

/-! ## What stays -/

section

variable (locking : Bool) (work : Workload κ σ) (c : Contest κ σ) (i : κ) (now : Timestamp)

/-- A call leaves the other writers where they are. -/
theorem writers_callOn_of_ne {j : κ} (h : j ≠ i) :
    (c.callOn locking work i now).writers j = c.writers j := by
  cases locking with
  | true => exact writers_call_of_ne work c h now
  | false =>
    rcases callUnlocked_cases work c i now with heq | ⟨x, cell, names, ds, heq, -⟩
    · exact congrArg (fun c' => c'.writers j) heq
    · exact (congrArg (fun c' => c'.writers j) heq).trans (writers_put_of_ne _ _ _ _ _ _ h)

/-- A call draws one name at most. -/
theorem names_callOn : (c.callOn locking work i now).names = c.names ∨
    (c.callOn locking work i now).names = c.names.draw.2 := by
  cases locking with
  | true =>
    show (c.call work i now).names = c.names ∨ (c.call work i now).names = c.names.draw.2
    have hstep := step_call work c i now
    generalize c.call work i now = c' at hstep ⊢
    cases hstep with
    | opened => exact .inr rfl
    | consulted hat hlock hanswer =>
      cases hanswer
      exact .inr rfl
    | _ => exact .inl rfl
  | false =>
    show (c.callUnlocked work i now).names = c.names ∨
      (c.callUnlocked work i now).names = c.names.draw.2
    unfold callUnlocked
    dsimp only
    split
    · exact .inl rfl
    · split
      · exact .inl rfl
      · exact .inl rfl
      · exact .inr rfl

theorem suffix_journal_callOn : c.journal <:+ (c.callOn locking work i now).journal := by
  cases locking with
  | true => exact suffix_journal_move work c (.call i now)
  | false =>
    show c.journal <:+ (c.callUnlocked work i now).journal
    rcases callUnlocked_cases work c i now with heq | ⟨x, cell, names, ds, heq, -⟩
    · rw [heq]
    · rw [heq, journal_put]
      exact List.suffix_append _ _

theorem suffix_journal_runOn (moves : List (Move κ)) :
    c.journal <:+ (c.runOn locking work moves).journal := by
  induction moves generalizing c with
  | nil => exact List.suffix_refl _
  | cons m moves ih =>
    refine List.IsSuffix.trans ?_ (ih _)
    cases m with
    | call i now => exact suffix_journal_callOn locking work c i now
    | overwrite raw => exact List.suffix_refl _

/-- Until an attempt is over the writer stays with its operation. -/
theorem served_callOn (h : ((c.callOn locking work i now).writers i).stage ≠ .opening) :
    ((c.callOn locking work i now).writers i).served = (c.writers i).served := by
  cases locking with
  | true =>
    change ((c.call work i now).writers i).stage ≠ .opening at h
    show ((c.call work i now).writers i).served = (c.writers i).served
    have hstep := step_call work c i now
    generalize c.call work i now = c' at hstep h ⊢
    cases hstep with
    | idle => rfl
    | dropped => rw [writers_put_self] at h; exact absurd rfl h
    | cleared => rw [writers_put_self] at h; exact absurd rfl h
    | released => rw [writers_put_self] at h; exact absurd rfl h
    | _ => rw [writers_put_self]; rfl
  | false =>
    change ((c.callUnlocked work i now).writers i).stage ≠ .opening at h
    show ((c.callUnlocked work i now).writers i).served = (c.writers i).served
    rcases callUnlocked_cases work c i now with heq | ⟨x, cell, names, ds, heq, -, hx, -⟩
    · rw [heq]
    · rw [heq, writers_put_self] at h ⊢
      exact hx.resolve_left h

end

/-! ## Whose the tokens are -/

/-- The tokens that the writers have in hand are their own, and they release without one. -/
structure Rightful (c : Contest κ σ) : Prop where
  mine : ∀ i token, (c.writers i).stage.token? = some token → ∃ n, c.Drew (i, n) token
  free : ∀ i r, (c.writers i).stage = .releasing r → r.lock? = none

section

variable {work : Workload κ σ} {c : Contest κ σ} {i : κ} {x : Writer σ} {cell : Option String}
  {names : Supply} {ds : List Deed}

omit [DecidableEq κ] in
theorem rightful_start (work : Workload κ σ) (cell : Option String) (names : Supply)
    (own : κ → σ) : (start work cell names own).Rightful where
  mine _ _ h := nomatch h
  free _ _ h := nomatch h

theorem Rightful.put (h : c.Rightful)
    (hmine : ∀ token, x.stage.token? = some token →
      (c.writers i).stage.token? = some token ∨ .drew token ∈ ds)
    (hfree : ∀ r, x.stage = .releasing r → r.lock? = none) :
    (c.put i x cell names ds).Rightful := by
  constructor
  · intro j token hj
    by_cases hji : j = i
    · subst hji
      rw [writers_put_self] at hj
      rcases hmine token hj with hold | hnew
      · obtain ⟨n, hdrew⟩ := h.mine j token hold
        exact ⟨n, drew_put hdrew⟩
      · exact ⟨_, mem_journal_put.2 (.inl ⟨rfl, hnew⟩)⟩
    · rw [writers_put_of_ne _ _ _ _ _ _ hji] at hj
      obtain ⟨n, hdrew⟩ := h.mine j token hj
      exact ⟨n, drew_put hdrew⟩
  · intro j r hj
    by_cases hji : j = i
    · rw [hji, writers_put_self] at hj
      exact hfree r hj
    · rw [writers_put_of_ne _ _ _ _ _ _ hji] at hj
      exact h.free j r hj

theorem Rightful.call (h : c.Rightful) (now : Timestamp) : (c.call work i now).Rightful := by
  have hstep := step_call work c i now
  generalize c.call work i now = c' at hstep ⊢
  -- the token of the next stage is that of the present one
  have hgoes : ∀ {op : Operation σ} {s s' : Stage} {x : Writer σ} {cell : Option String}
      {names : Supply} {ds : List Deed}, At work c i op s → x.stage = s' →
      s'.token? = s.token? → (∀ r, s' ≠ .releasing r) → (c.put i x cell names ds).Rightful := by
    intro op s s' x cell names ds hat hx hsame hnot
    refine h.put (fun token htoken => .inl ?_) fun r hr => absurd (hx.symm.trans hr) (hnot r)
    rw [hat.stage, ← hsame, ← hx]
    exact htoken
  cases hstep with
  | idle => exact h
  | dropped => exact h.put nofun nofun
  | gaveWay => exact h.put nofun nofun
  | lost => exact h.put nofun nofun
  | cleared => exact h.put nofun nofun
  | released => exact h.put nofun nofun
  | opened hat hlock =>
    refine h.put (fun token htoken => .inr ?_) nofun
    cases htoken
    exact List.mem_cons_self
  | locked hat => exact hgoes hat rfl rfl nofun
  | consulted hat => exact hgoes hat rfl rfl nofun
  | wrote hat => exact hgoes hat rfl rfl nofun
  | verified hat hlock =>
    refine h.put nofun fun r hr => ?_
    cases hr
    exact Record.lock?_withoutLock _
  | @decided op token answer hat hlock =>
    generalize answer.resolve now (work.policy i).expirationDelay = outcome
    cases outcome with
    | persist r => exact hgoes hat rfl rfl nofun
    | clear => exact h.put nofun nofun
    | unchanged => exact hgoes hat rfl rfl nofun

theorem Rightful.callOn (h : c.Rightful) (locking : Bool) (now : Timestamp) :
    (c.callOn locking work i now).Rightful := by
  cases locking with
  | true => exact h.call now
  | false =>
    show (c.callUnlocked work i now).Rightful
    rcases callUnlocked_cases work c i now with heq | ⟨x, cell, names, ds, heq, hx, -, hfree⟩
    · rwa [heq]
    · rw [heq]
      exact h.put (fun token htoken => by rw [hx] at htoken; cases htoken) hfree

/-- A call that changes the cell leaves no token there that another writer waits for. -/
theorem Rightful.lock?_ne_of_cell_ne (h : c.Rightful) (htokens : c.tokens.Nodup) {j : κ}
    (hj : j ≠ i) (locking : Bool) (now : Timestamp) :
    (c.callOn locking work i now).cell = c.cell ∨
      ∀ token ∈ (c.writers j).stage.awaited?,
        (c.callOn locking work i now).seen.lock? ≠ some token := by
  cases hcurrent : c.current? work i with
  | none => exact .inl (congrArg Contest.cell (callOn_of_idle hcurrent locking now))
  | some op =>
    refine ((passage_callOn hcurrent locking now).lock?_cell (h.free i)).imp_right ?_
    intro hlock token hawaited heq
    rw [show Record.ofStored _ = (c.callOn locking work i now).seen from rfl, heq] at hlock
    rcases hlock with hnone | hmine
    · cases hnone
    · obtain ⟨n, hdrew⟩ := h.mine i token hmine.symm
      obtain ⟨n', hdrew'⟩ := h.mine j token (Stage.token?_of_awaited? hawaited)
      exact hj (congrArg Prod.fst (eq_of_drew htokens hdrew' hdrew))

end

/-! ## Whole runs -/

/-- Something holds before each thing that happens. -/
def Along (locking : Bool) (work : Workload κ σ) (P : Contest κ σ → Move κ → Prop) :
    List (Move κ) → Contest κ σ → Prop
  | [], _ => True
  | m :: moves, c => P c m ∧ Along locking work P moves (c.moveOn locking work m)

section

variable {locking : Bool} {work : Workload κ σ} {P : Contest κ σ → Move κ → Prop}

instance [∀ c m, Decidable (P c m)] :
    ∀ (moves : List (Move κ)) (c : Contest κ σ), Decidable (Along locking work P moves c)
  | [], _ => .isTrue trivial
  | m :: moves, c =>
    have : Decidable (Along locking work P moves (c.moveOn locking work m)) :=
      instDecidableAlong moves _
    inferInstanceAs (Decidable (P c m ∧ _))

theorem along_append {moves more : List (Move κ)} {c : Contest κ σ} :
    Along locking work P (moves ++ more) c ↔
      Along locking work P moves c ∧ Along locking work P more (c.runOn locking work moves) := by
  induction moves generalizing c with
  | nil => exact (iff_of_eq (true_and _)).symm
  | cons m moves ih => exact (and_congr_right fun _ => ih).trans and_assoc.symm

omit [DecidableEq κ] in
/-- If no token is taken twice in the end, none is at any time before. -/
theorem nodup_tokens_of_suffix {c c' : Contest κ σ} (hlater : c.journal <:+ c'.journal)
    (h : c'.tokens.Nodup) : c.tokens.Nodup :=
  h.sublist (hlater.sublist.filterMap _)

theorem nodup_tokens_of_runOn {moves : List (Move κ)} {c : Contest κ σ}
    (h : (c.runOn locking work moves).tokens.Nodup) : c.tokens.Nodup :=
  nodup_tokens_of_suffix (suffix_journal_runOn locking work c moves) h

end

end Contest

end SharedSession
