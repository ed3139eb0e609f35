import SharedSession.Proofs.Lock.Passage

set_option autoImplicit false

/-!
# What writers have in hand

From a read to the write that follows it, a writer has a record in hand, and what comes into the
cell in between is lost with that write. So what is said of the record in the cell stays true if it
is said of every record that a writer has in hand as well, and holds of what is decided.

A writer that never leaves the record as it is knows more: what it finds in the cell under its own
token when it has written is what it has stored there itself.

Main statements: `Contest.Passage.inHand`, `Contest.Sustains.callOn`, `Contest.Upholds.callOn`,
`Contest.Passage.bears`.
-/

namespace SharedSession

/-- Something that the lock does not matter for, and that a record has again when it is read
back. -/
structure Record.IsLasting (P : Record → Prop) : Prop where
  withLock : ∀ r token, P r → P (r.withLock token)
  withoutLock : ∀ r, P r → P r.withoutLock
  stored : ∀ r, P r → P (ofStored r.stored)

namespace Outcome

/-- What is left behind is of a certain kind, if anything is stored or removed. -/
def Leaves (P : Record → Prop) : Outcome → Prop
  | .persist r => P r
  | .clear => P ∅
  | .unchanged => True

/-- A record of a certain kind is stored. -/
def Stores (P : Record → Prop) : Outcome → Prop
  | .persist r => P r
  | _ => False

theorem Stores.mono {P Q : Record → Prop} {outcome : Outcome} (h : outcome.Stores P)
    (hPQ : ∀ r, P r → Q r) : outcome.Stores Q := by
  cases outcome with
  | persist r => exact hPQ r h
  | clear => exact h
  | unchanged => exact h

end Outcome

namespace Stage

/-- What a stage has in hand is of a certain kind, if it still counts. -/
def InHand (P : Record → Prop) (seen : Record) : Stage → Prop
  | .locking _ base => P base
  | .rechecking token answer =>
    seen.lock? = some token → ∀ now d, (answer.resolve now d).Leaves P
  | .writing _ r => P r
  | .clearing => P ∅
  | .releasing r => P r
  | _ => True

/-- What is carried out is of a certain kind, and what is found stored then is so as well. -/
def Bears (Q : Outcome → Prop) (seen : Record) : Stage → Prop
  | .rechecking token answer => seen.lock? = some token → ∀ now d, Q (answer.resolve now d)
  | .writing _ r => Q (.persist r)
  | .clearing => Q .clear
  | .verifying token => seen.lock? = some token → Q (.persist seen)
  | .releasing r => Q (.persist r)
  | _ => True

variable {P : Record → Prop} {Q : Outcome → Prop} {seen seen' : Record} {s : Stage}

/-- What others write leaves in hand what it was. -/
theorem InHand.frame (h : s.InHand P seen)
    (hlost : ∀ token ∈ s.awaited?, seen'.lock? ≠ some token) : s.InHand P seen' := by
  cases s with
  | rechecking token answer => exact fun hheld => absurd hheld (hlost token rfl)
  | _ => exact h

theorem Bears.frame (h : s.Bears Q seen)
    (hlost : ∀ token ∈ s.awaited?, seen'.lock? ≠ some token) : s.Bears Q seen' := by
  cases s with
  | rechecking token answer => exact fun hheld => absurd hheld (hlost token rfl)
  | verifying token => exact fun hheld => absurd hheld (hlost token rfl)
  | _ => exact h

theorem Bears.mono (h : s.Bears Q seen) {Q' : Outcome → Prop}
    (hQ : ∀ outcome, Q outcome → Q' outcome) : s.Bears Q' seen := by
  cases s with
  | rechecking token answer => exact fun hheld now d => hQ _ (h hheld now d)
  | writing token r => exact hQ _ h
  | clearing => exact hQ _ h
  | verifying token => exact fun hheld => hQ _ (h hheld)
  | releasing r => exact hQ _ h
  | _ => trivial

/-- A writer that is not about to write has nothing in hand that counts, once its token is gone. -/
theorem inHand_of_not_poised (hpoised : s.isPoised = false)
    (hlost : ∀ token ∈ s.awaited?, seen.lock? ≠ some token) : s.InHand P seen := by
  cases s with
  | opening => trivial
  | locking token base => cases hpoised
  | confirming token => trivial
  | rechecking token answer => exact fun hheld => absurd hheld (hlost token rfl)
  | writing token r => cases hpoised
  | clearing => cases hpoised
  | verifying token => trivial
  | releasing r => cases hpoised
  | settled r => trivial
  | contended found => trivial

theorem inHand_carryOut {answer : Outcome} (h : answer.Leaves P) (token : String) :
    (Stage.carryOut token answer).InHand P seen := by
  cases answer with
  | persist r => exact h
  | clear => exact h
  | unchanged => trivial

end Stage

namespace Contest

variable {κ σ : Type}

namespace Passage

variable {locking : Bool} {op : Operation σ} {d : Span} {now : Timestamp} {fresh : String}
  {cell cell' : Option String} {x x' : σ} {s s' : Stage} {P : Record → Prop}

/-- A call keeps what is said of the cell and of what the writer has in hand, if it is true of what
the writer decides. -/
theorem inHand (hP : Record.IsLasting P)
    (h : Passage locking op d now fresh cell x s s' x' cell')
    (hs : s.InHand P (Record.ofStored cell)) (hcell : P (Record.ofStored cell))
    (hask : s.asks locking (Record.ofStored cell) = true → ∀ answer x',
      op.transform ⟨now, fresh⟩ (Record.ofStored cell).withoutLock x = (answer, x') →
        ∀ now d, (answer.resolve now d).Leaves P) :
    s'.InHand P (Record.ofStored cell') ∧ P (Record.ofStored cell') := by
  cases h with
  | abandoned => exact ⟨trivial, hcell⟩
  | opened hlock => exact ⟨hcell, hcell⟩
  | locked => exact ⟨trivial, hP.stored _ (hP.withLock _ _ hs)⟩
  | consulted hasks hanswer => exact ⟨fun _ => hask hasks _ _ hanswer, hcell⟩
  | decided hlock => exact ⟨Stage.inHand_carryOut (hs hlock now d) _, hcell⟩
  | wrote => exact ⟨trivial, hP.stored _ (hP.withLock _ _ hs)⟩
  | verified hlock => exact ⟨hP.withoutLock _ hcell, hcell⟩
  | cleared => exact ⟨trivial, hs⟩
  | released => exact ⟨trivial, hP.stored _ hs⟩
  | storing hasks hanswer hresolve =>
    have hleaves := hask hasks _ _ hanswer now d
    rw [hresolve] at hleaves
    exact ⟨hleaves, hcell⟩
  | removing hasks hanswer hresolve =>
    have hleaves := hask hasks _ _ hanswer now d
    rw [hresolve] at hleaves
    exact ⟨hleaves, hcell⟩
  | kept hasks hanswer hresolve => exact ⟨trivial, hcell⟩

/-- What a writer has in hand and what is said of every record alike needs no token to be kept. -/
theorem inHand_always (hP : Record.IsLasting P)
    (h : Passage locking op d now fresh cell x s s' x' cell')
    (hs : ∀ seen, s.InHand P seen) (hcell : P (Record.ofStored cell))
    (hask : s.asks locking (Record.ofStored cell) = true → ∀ answer x',
      op.transform ⟨now, fresh⟩ (Record.ofStored cell).withoutLock x = (answer, x') →
        ∀ now d, (answer.resolve now d).Leaves P) :
    (∀ seen, s'.InHand P seen) ∧ P (Record.ofStored cell') := by
  obtain ⟨hstage, hcell'⟩ := h.inHand hP (hs _) hcell hask
  refine ⟨?_, hcell'⟩
  cases h with
  | consulted hasks hanswer => exact fun _ _ => hask hasks _ _ hanswer
  | decided hlock => exact fun _ => Stage.inHand_carryOut (hs _ hlock now d) _
  | _ => exact fun _ => hstage

/-- After a write there is nothing in hand. -/
theorem inHand_of_cell_ne (h : Passage locking op d now fresh cell x s s' x' cell')
    (hcell : cell' ≠ cell) (P : Record → Prop) (seen : Record) : s'.InHand P seen := by
  cases h with
  | locked => trivial
  | wrote => trivial
  | cleared => trivial
  | released => trivial
  | _ => exact absurd rfl hcell

/-- A call carries out what was decided, if it was not to leave the record as it is. What is said of
that may depend on the writer's own state, since only a decision changes both. -/
theorem bears {Q : σ → Outcome → Prop} (hQ : ∀ x, Record.IsLasting fun r => Q x (.persist r))
    (hchanges : ∀ x, ¬ Q x .unchanged)
    (h : Passage locking op d now fresh cell x s s' x' cell')
    (hs : s.Bears (Q x) (Record.ofStored cell))
    (hask : s.asks locking (Record.ofStored cell) = true → ∀ answer x',
      op.transform ⟨now, fresh⟩ (Record.ofStored cell).withoutLock x = (answer, x') →
        ∀ now d, Q x' (answer.resolve now d)) :
    s'.Bears (Q x') (Record.ofStored cell') := by
  cases h with
  | abandoned => trivial
  | opened hlock => trivial
  | locked => trivial
  | consulted hasks hanswer => exact fun _ => hask hasks _ _ hanswer
  | @decided token answer hlock =>
    have hcarried := hs hlock now d
    generalize answer.resolve now d = outcome at hcarried ⊢
    cases outcome with
    | persist r => exact hcarried
    | clear => exact hcarried
    | unchanged => exact absurd hcarried (hchanges x)
  | wrote => exact fun _ => (hQ x).stored _ ((hQ x).withLock _ _ hs)
  | verified hlock => exact (hQ x).withoutLock _ (hs hlock)
  | cleared => trivial
  | released => trivial
  | storing hasks hanswer hresolve =>
    have hcarried := hask hasks _ _ hanswer now d
    rwa [hresolve] at hcarried
  | removing hasks hanswer hresolve =>
    have hcarried := hask hasks _ _ hanswer now d
    rwa [hresolve] at hcarried
  | kept hasks hanswer hresolve => trivial

end Passage

/-- Something is true of the record in the cell and of all that the writers have in hand. -/
structure Sustains (P : Record → Prop) (c : Contest κ σ) : Prop where
  rightful : c.Rightful
  cell : P c.seen
  hands : ∀ i, (c.writers i).stage.InHand P c.seen

section

variable {P : Record → Prop} {c : Contest κ σ} {work : Workload κ σ} {i : κ} {now : Timestamp}
  {locking : Bool}

theorem sustains_start {cell : Option String} (h : P (Record.ofStored cell))
    (work : Workload κ σ) (names : Supply) (own : κ → σ) :
    (start work cell names own).Sustains P where
  rightful := rightful_start _ _ _ _
  cell := h
  hands _ := trivial

variable [DecidableEq κ]

/-- What is true of everything stays so, if it is true of what a writer decides. -/
theorem Sustains.callOn (h : c.Sustains P) (hP : Record.IsLasting P) (htokens : c.tokens.Nodup)
    (hask : ∀ op, c.current? work i = some op →
      (c.writers i).stage.asks locking c.seen = true → ∀ answer own,
      op.transform ⟨now, c.names.next⟩ c.seen.withoutLock (c.writers i).own = (answer, own) →
        ∀ now d, (answer.resolve now d).Leaves P) :
    (c.callOn locking work i now).Sustains P := by
  cases hcurrent : c.current? work i with
  | none => rwa [callOn_of_idle hcurrent]
  | some op =>
    obtain ⟨hstage, hcell⟩ := (passage_callOn hcurrent locking now).inHand hP (h.hands i) h.cell
      (hask op hcurrent)
    refine ⟨h.rightful.callOn locking now, hcell, fun j => ?_⟩
    by_cases hji : j = i
    · rw [hji]
      exact hstage
    · rw [writers_callOn_of_ne locking work c i now hji]
      rcases h.rightful.lock?_ne_of_cell_ne htokens hji locking now with hsame | hlost
      · rw [seen, hsame]
        exact h.hands j
      · exact (h.hands j).frame hlost

/-- Something is true of the record in the cell and of all that the writers have in hand, whether it
still counts or not. -/
structure Upholds (P : Record → Prop) (c : Contest κ σ) : Prop where
  cell : P c.seen
  hands : ∀ i seen, (c.writers i).stage.InHand P seen

omit [DecidableEq κ] in
theorem upholds_start {cell : Option String} (h : P (Record.ofStored cell))
    (work : Workload κ σ) (names : Supply) (own : κ → σ) :
    (start work cell names own).Upholds P where
  cell := h
  hands _ _ := trivial

/-- What is true of everything stays so, if whatever a writer decides makes it so. -/
theorem Upholds.callOn (h : c.Upholds P) (hP : Record.IsLasting P)
    (hask : ∀ op, c.current? work i = some op →
      (c.writers i).stage.asks locking c.seen = true → ∀ answer own,
      op.transform ⟨now, c.names.next⟩ c.seen.withoutLock (c.writers i).own = (answer, own) →
        ∀ now d, (answer.resolve now d).Leaves P) :
    (c.callOn locking work i now).Upholds P := by
  cases hcurrent : c.current? work i with
  | none => rwa [callOn_of_idle hcurrent]
  | some op =>
    obtain ⟨hstage, hcell⟩ := (passage_callOn hcurrent locking now).inHand_always hP (h.hands i)
      h.cell (hask op hcurrent)
    refine ⟨hcell, fun j seen => ?_⟩
    by_cases hji : j = i
    · rw [hji]
      exact hstage seen
    · rw [writers_callOn_of_ne locking work c i now hji]
      exact h.hands j seen

end

end Contest

end SharedSession
