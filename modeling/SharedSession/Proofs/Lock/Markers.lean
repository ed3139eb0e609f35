import Mathlib.Data.Fintype.Basic
import SharedSession.Proofs.Lock.Contest
import SharedSession.Proofs.Names

set_option autoImplicit false

/-!
# Each marker at most once

Writers share one cell and nobody else touches it. Every operation appends a marker of its own to
the word under one key, or clears the cell. A reader who finds no lock finds, behind the first
word, markers of operations that have settled, each once; next to a lock there may be the marker
of the one operation that took the token. So the attempts that an operation gives up leave nothing
behind.

What a word owes to the operations that have settled is a parameter, an *account*; `Accounted` says
what holds of the cell and of what every writer has in hand, and `Accounted.call` that every call
keeps it. Main statements: `Contest.trail_of_settled`.
-/

namespace SharedSession

/-! ## Errands -/

/-- What an operation does with the word under a key. -/
inductive Errand where
  | append (marker : String)
  | clear
deriving DecidableEq

/-- The word under a key, empty if there is none. -/
def Record.word (key : String) (r : Record) : String := (r.get? key).getD ""

namespace Errand

/-- The decision of an operation that carries a task out. -/
def outcome (key : String) (r : Record) : Errand → Outcome
  | .append marker => .persist (r.set key (r.word key ++ marker))
  | .clear => .clear

/-- What is seen of a task in the word. -/
def trace : Errand → String
  | .append marker => marker
  | .clear => ""

end Errand

/-- The operation carries out a task, whatever it does on the side. -/
def Operation.CarriesOut {σ : Type} (op : Operation σ) (key : String) (task : Errand) : Prop :=
  ∀ o r own, (op.transform o r own).1 = task.outcome key r

/-- Every operation carries out the task of its number. -/
def Workload.CarriesOut {κ σ : Type} (work : Workload κ σ) (key : String)
    (task : Ticket κ → Errand) : Prop :=
  ∀ i n (op : Operation σ), (work.queue i)[n]? = some op → op.CarriesOut key (task (i, n))

/-- A word followed by what is seen of tasks. -/
def trail {κ : Type} (task : Ticket κ → Errand) (first : String) (ts : List (Ticket κ)) : String :=
  ts.foldl (fun word t => word ++ (task t).trace) first

theorem trail_concat {κ : Type} (task : Ticket κ → Errand) (first : String) (ts : List (Ticket κ))
    (t : Ticket κ) : trail task first (ts ++ [t]) = trail task first ts ++ (task t).trace := by
  simp [trail, List.foldl_append]

/-! ## The word through storing -/

namespace Record

section

variable {key : String} (hkey : IsPlainKey key) (r : Record)

include hkey

theorem word_ofStored_stored : (ofStored r.stored).word key = r.word key := by
  rw [word, get?_ofStored_stored r hkey.written, word]

theorem word_withLock (token : String) : (r.withLock token).word key = r.word key := by
  rw [word, get?_withLock hkey.notLock, word]

theorem word_withoutLock : r.withoutLock.word key = r.word key := by
  rw [word, get?_withoutLock hkey.notLock, word]

theorem word_expand (now : Timestamp) (d : Span) : (r.expand now d).word key = r.word key := by
  rw [word, get?_expand hkey.notExpire, word]

/-- A record with a word is a session. -/
theorem isCleared_set (value : String) : (r.set key value).isCleared = false :=
  isCleared_eq_false hkey (by rw [get?_set, if_pos rfl])

end

@[simp] theorem word_empty (key : String) : (∅ : Record).word key = "" := by
  rw [word, get?_empty, Option.getD_none]

theorem word_set (key value : String) (r : Record) : (r.set key value).word key = value := by
  simp [word, get?_set]

end Record

namespace Contest

variable {κ σ : Type}

/-! ## Accounts -/

/-- What a word may be once certain operations have settled. -/
abbrev Account (κ : Type) : Type := Set (Ticket κ) → String → Prop

/-- An account that tasks keep. -/
structure Account.Closed (P : Account κ) (task : Ticket κ → Errand) : Prop where
  /-- appending the marker of an operation accounts for that operation -/
  append : ∀ {S : Set (Ticket κ)} {word marker : String} {t : Ticket κ}, P S word → t ∉ S →
    task t = .append marker → P (insert t S) (word ++ marker)
  /-- clearing leaves an empty word that any operations account for -/
  clear : ∀ {t : Ticket κ}, task t = .clear → ∀ S, P S ""

/-- A decision in hand is one that accounts for its operation. -/
def Account.Fits (P : Account κ) (key : String) (task : Ticket κ → Errand) (S : Set (Ticket κ))
    (t : Ticket κ) : Outcome → Prop
  | .persist r => P (insert t S) (r.word key) ∧ r.isCleared = false
  | .clear => task t = .clear
  | .unchanged => False

/-- What a stage of an operation must have in hand, given the operations that have settled, the
record in the cell and the tokens that the operation took. -/
def Account.Sound (P : Account κ) (key : String) (task : Ticket κ → Errand) (S : Set (Ticket κ))
    (seen : Record) (mine : String → Prop) (t : Ticket κ) : Stage → Prop
  | .opening => True
  | .locking token base => mine token ∧ P S (base.word key)
  | .confirming token => mine token ∧ (seen.lock? = some token → P S (seen.word key))
  | .rechecking token answer => mine token ∧ (seen.lock? = some token → P.Fits key task S t answer)
  | .writing token r => mine token ∧ P (insert t S) (r.word key)
  | .clearing => task t = .clear
  | .verifying token => mine token ∧ (seen.lock? = some token → P (insert t S) (seen.word key))
  | .releasing r => r.lock? = none ∧ P (insert t S) (r.word key)
  | .settled _ => True
  | .contended _ => True

/-- What others do leaves a stage sound if the record in the cell stays or has a lock that is not
the stage's own, and if what the stage is about to write is still accounted for. -/
theorem Account.Sound.frame {P : Account κ} {key : String} {task : Ticket κ → Errand}
    {S S' : Set (Ticket κ)} {seen seen' : Record} {mine mine' : String → Prop} {t : Ticket κ}
    {s : Stage} (h : P.Sound key task S seen mine t s) (hmine : ∀ token, mine token → mine' token)
    (hlock : ∀ token, mine token → seen'.lock? = some token → seen' = seen ∧ S' = S)
    (hkeep : s.isPoised → ∀ word, (P S word → P S' word) ∧
      (P (insert t S) word → P (insert t S') word)) :
    P.Sound key task S' seen' mine' t s := by
  cases s with
  | opening => trivial
  | locking token base => exact ⟨hmine token h.1, (hkeep rfl _).1 h.2⟩
  | confirming token =>
    refine ⟨hmine token h.1, ?_⟩
    intro hheld
    obtain ⟨rfl, rfl⟩ := hlock token h.1 hheld
    exact h.2 hheld
  | rechecking token answer =>
    refine ⟨hmine token h.1, ?_⟩
    intro hheld
    obtain ⟨rfl, rfl⟩ := hlock token h.1 hheld
    exact h.2 hheld
  | writing token r => exact ⟨hmine token h.1, (hkeep rfl _).2 h.2⟩
  | clearing => exact h
  | verifying token =>
    refine ⟨hmine token h.1, ?_⟩
    intro hheld
    obtain ⟨rfl, rfl⟩ := hlock token h.1 hheld
    exact h.2 hheld
  | releasing r => exact ⟨h.1, (hkeep rfl _).2 h.2⟩
  | settled r => trivial
  | contended found => trivial

/-! ## The invariant -/

/-- The tokens that were taken. -/
def tokens (c : Contest κ σ) : List String := c.journal.filterMap (·.2.drew?)

/-- An operation took a token. -/
def Drew (c : Contest κ σ) (t : Ticket κ) (token : String) : Prop := (t, .drew token) ∈ c.journal

/-- The word in the cell and what the writers that are still to be called have in hand are
accounted for. -/
structure Accounted (P : Account κ) (key : String) (task : Ticket κ → Errand) (active : κ → Prop)
    (c : Contest κ σ) : Prop where
  overOnce : c.OverOnce
  /-- without a lock the settled operations account for the word -/
  free : c.seen.lock? = none → P c.settled (c.seen.word key)
  /-- with a lock the operation that took the token may join them -/
  held : ∀ token, c.seen.lock? = some token → ∃ t, c.Drew t token ∧
    (P c.settled (c.seen.word key) ∨ P (insert t c.settled) (c.seen.word key))
  /-- what the writers have in hand -/
  stages : ∀ i, active i →
    P.Sound key task c.settled c.seen (c.Drew (c.ticket i)) (c.ticket i) (c.writers i).stage

section

variable {P : Account κ} {key : String} {task : Ticket κ → Errand} {active active' : κ → Prop}
  {c : Contest κ σ}

theorem accounted_start (work : Workload κ σ) {cell : Option String} (names : Supply)
    (own : κ → σ) (hfree : (Record.ofStored cell).lock? = none)
    (hP : P ∅ ((Record.ofStored cell).word key)) :
    Accounted P key task active (start work cell names own) := by
  have hnone : (start work cell names own).settled = ∅ := by
    ext t
    refine ⟨fun ⟨r, hmem⟩ => ?_, fun hmem => hmem.elim⟩
    simp [start] at hmem
  refine ⟨overOnce_start work cell names own, ?_, ?_, fun _ _ => trivial⟩
  · intro _
    rw [hnone]
    exact hP
  · intro token hheld
    rw [show (start work cell names own).seen.lock? = none from hfree] at hheld
    cases hheld

variable [DecidableEq κ] {i : κ} {x : Writer σ} {cell : Option String} {names : Supply}
  {ds : List Deed}

theorem drew_put {t : Ticket κ} {token : String} (h : c.Drew t token) :
    (c.put i x cell names ds).Drew t token := mem_journal_put.2 (.inr h)

theorem ticket_put_self : (c.put i x cell names ds).ticket i = (i, x.served) := by
  rw [ticket, writers_put_self]

theorem ticket_put_of_ne {j : κ} (h : j ≠ i) : (c.put i x cell names ds).ticket j = c.ticket j := by
  rw [ticket, writers_put_of_ne _ _ _ _ _ _ h, ticket]

/-- A call that only reads: the stage that it leads to must be sound. -/
theorem Accounted.put_read (h : Accounted P key task active c)
    (hactive : ∀ j, active' j → active j) (hover : (c.put i x c.cell names ds).OverOnce)
    (hsettled : ∀ r, .settled r ∉ ds)
    (hx : P.Sound key task c.settled c.seen
      ((c.put i x c.cell names ds).Drew (i, x.served)) (i, x.served) x.stage) :
    Accounted P key task active' (c.put i x c.cell names ds) := by
  have hS : (c.put i x c.cell names ds).settled = c.settled := settled_put_of_not_settled hsettled
  refine ⟨hover, ?_, ?_, ?_⟩
  · rw [hS]
    exact h.free
  · intro token hheld
    obtain ⟨t, hdrew, hword⟩ := h.held token hheld
    rw [hS]
    exact ⟨t, drew_put hdrew, hword⟩
  · intro j hj
    rw [hS]
    by_cases hji : j = i
    · rw [hji, writers_put_self, ticket_put_self]
      exact hx
    · rw [writers_put_of_ne _ _ _ _ _ _ hji, ticket_put_of_ne hji]
      exact (h.stages j (hactive j hj)).frame (fun _ hdrew => drew_put hdrew)
        (fun _ _ _ => ⟨rfl, rfl⟩) fun _ _ => ⟨id, id⟩

/-- A call that writes with a token, which no other writer took. -/
theorem Accounted.put_lock (h : Accounted P key task active c)
    (hactive : ∀ j, active' j → active j) (hover : (c.put i x cell names ds).OverOnce)
    (hsettled : ∀ r, .settled r ∉ ds) {token : String}
    (hlock : (Record.ofStored cell).lock? = some token) (hdrew : c.Drew (c.ticket i) token)
    (hothers : ∀ t, c.Drew t token → t = c.ticket i)
    (hword : P c.settled ((Record.ofStored cell).word key) ∨
      P (insert (c.ticket i) c.settled) ((Record.ofStored cell).word key))
    (hx : P.Sound key task c.settled (Record.ofStored cell)
      ((c.put i x cell names ds).Drew (i, x.served)) (i, x.served) x.stage) :
    Accounted P key task active' (c.put i x cell names ds) := by
  have hS : (c.put i x cell names ds).settled = c.settled := settled_put_of_not_settled hsettled
  refine ⟨hover, ?_, ?_, ?_⟩
  · intro hfree
    rw [seen_put, hlock] at hfree
    cases hfree
  · intro token' hheld
    rw [seen_put, hlock] at hheld
    cases hheld
    rw [hS]
    exact ⟨c.ticket i, drew_put hdrew, hword⟩
  · intro j hj
    rw [hS]
    by_cases hji : j = i
    · rw [hji, writers_put_self, ticket_put_self]
      exact hx
    · rw [writers_put_of_ne _ _ _ _ _ _ hji, ticket_put_of_ne hji]
      refine (h.stages j (hactive j hj)).frame (fun _ hdrew => drew_put hdrew)
        (fun token' hmine hheld => ?_) fun _ _ => ⟨id, id⟩
      rw [seen_put, hlock] at hheld
      cases hheld
      exact absurd (congrArg Prod.fst (hothers _ hmine)) hji

/-- A call with which an operation settles: no lock is left, and what other writers are about to
write must still be accounted for. -/
theorem Accounted.put_settled (h : Accounted P key task active c)
    (hactive : ∀ j, active' j → active j) {r : Record}
    (hover : (c.put i x cell names [.settled r, .wrote cell]).OverOnce)
    (hlock : (Record.ofStored cell).lock? = none)
    (hword : P (insert (c.ticket i) c.settled) ((Record.ofStored cell).word key))
    (hx : x.stage = .opening)
    (hkeep : ∀ j, active' j → j ≠ i → (c.writers j).stage.isPoised → ∀ S word,
      P S word → P (insert (c.ticket i) S) word) :
    Accounted P key task active' (c.put i x cell names [.settled r, .wrote cell]) := by
  have hS : (c.put i x cell names [.settled r, .wrote cell]).settled
      = insert (c.ticket i) c.settled := settled_put_of_settled List.mem_cons_self
  refine ⟨hover, ?_, ?_, ?_⟩
  · intro _
    rw [hS]
    exact hword
  · intro token hheld
    rw [seen_put, hlock] at hheld
    cases hheld
  · intro j hj
    rw [hS]
    by_cases hji : j = i
    · rw [hji, writers_put_self, hx]
      trivial
    · rw [writers_put_of_ne _ _ _ _ _ _ hji, ticket_put_of_ne hji]
      refine (h.stages j (hactive j hj)).frame (fun _ hdrew => drew_put hdrew)
        (fun token _ hheld => ?_) fun hpoised word => ⟨hkeep j hj hji hpoised _ word, ?_⟩
      · rw [seen_put, hlock] at hheld
        cases hheld
      · rw [Set.insert_comm]
        exact hkeep j hj hji hpoised _ word

end

/-! ## One call -/

/-- A token that was taken once was taken by one operation. -/
theorem eq_of_drew {c : Contest κ σ} (hnodup : c.tokens.Nodup) {t u : Ticket κ} {token : String}
    (ht : c.Drew t token) (hu : c.Drew u token) : t = u := by
  rw [tokens] at hnodup
  rw [Drew] at ht hu
  generalize c.journal = journal at hnodup ht hu
  induction journal with
  | nil => cases ht
  | cons e journal ih =>
    have hmem : ∀ {v : Ticket κ}, (v, .drew token) ∈ journal →
        token ∈ journal.filterMap (·.2.drew?) :=
      fun hv => List.mem_filterMap.2 ⟨_, hv, rfl⟩
    rcases List.mem_cons.1 ht with rfl | ht'
    · rcases List.mem_cons.1 hu with heq | hu'
      · cases heq
        rfl
      · exact absurd (hmem hu') (List.nodup_cons.1 hnodup).1
    · rcases List.mem_cons.1 hu with rfl | hu'
      · exact absurd (hmem ht') (List.nodup_cons.1 hnodup).1
      · refine ih ?_ ht' hu'
        exact hnodup.sublist ((List.sublist_cons_self e journal).filterMap _)

section

variable {P : Account κ} {key : String} {task : Ticket κ → Errand} {work : Workload κ σ}

theorem Account.Closed.fits (hclosed : P.Closed task) (hkey : Record.IsPlainKey key)
    {S : Set (Ticket κ)} {r : Record} {t : Ticket κ} (ht : t ∉ S) (hword : P S (r.word key)) :
    P.Fits key task S t ((task t).outcome key r) := by
  cases htask : task t with
  | append marker =>
    refine ⟨?_, Record.isCleared_set hkey r _⟩
    rw [Record.word_set]
    exact hclosed.append hword ht htask
  | clear => exact htask

/-- A decision that fits is carried out by a stage that is sound. -/
theorem Account.Fits.sound_carryOut {S : Set (Ticket κ)} {seen : Record} {mine : String → Prop}
    {t : Ticket κ} {answer : Outcome} (h : P.Fits key task S t answer)
    (hkey : Record.IsPlainKey key) {token : String} (hmine : mine token) (now : Timestamp)
    (d : Span) : P.Sound key task S seen mine t (.carryOut token (answer.resolve now d)) := by
  cases answer with
  | persist r =>
    rw [Outcome.resolve_persist_of_not_cleared now d h.2]
    refine ⟨hmine, ?_⟩
    rw [Record.word_expand hkey, Record.word_withoutLock hkey]
    exact h.1
  | clear => exact h
  | unchanged => exact h.elim

variable [DecidableEq κ] {active active' : κ → Prop} {c : Contest κ σ} {i : κ}

/-- A call of an active writer keeps the accounts, if no operation settles over the head of a
writer that is about to write and whose write would not be accounted for any more. -/
theorem Accounted.call (h : Accounted P key task active c) (hkey : Record.IsPlainKey key)
    (hclosed : P.Closed task) (hwork : work.CarriesOut key task) (now : Timestamp)
    (htokens : (c.call work i now).tokens.Nodup) (hi : active i)
    (hactive : ∀ j, active' j → active j)
    (hkeep : (c.writers i).stage.isSettling → ∀ j, active' j → j ≠ i →
      (c.writers j).stage.isPoised → ∀ S word, P S word → P (insert (c.ticket i) S) word) :
    Accounted P key task active' (c.call work i now) := by
  have hover := overOnce_call work h.overOnce i now
  have hnot := h.overOnce.ticket_not_settled i
  have hsound : ∀ {op s}, At work c i op s →
      P.Sound key task c.settled c.seen (c.Drew (c.ticket i)) (c.ticket i) s := by
    intro op s hat
    rw [← hat.stage]
    exact h.stages i hi
  have hothers : ∀ {token}, c.Drew (c.ticket i) token → ∀ t, c.Drew t token → t = c.ticket i := by
    intro token hdrew t ht
    obtain ⟨ds, hjournal, -⟩ := journal_call work c i now
    have hgrown : ∀ {t}, c.Drew t token → (c.call work i now).Drew t token := by
      intro t ht
      rw [Drew, hjournal]
      exact List.mem_append_right _ ht
    exact eq_of_drew htokens (hgrown ht) (hgrown hdrew)
  have hstep := step_call work c i now
  generalize c.call work i now = c' at hstep hover ⊢
  cases hstep with
  | idle =>
    exact ⟨hover, h.free, h.held, fun j hj => h.stages j (hactive j hj)⟩
  | dropped => exact h.put_read hactive hover (by simp) trivial
  | gaveWay => exact h.put_read hactive hover (by simp) trivial
  | lost => exact h.put_read hactive hover (by simp) trivial
  | opened hat hlock =>
    refine h.put_read hactive hover (by simp) ⟨?_, h.free hlock⟩
    exact mem_journal_put.2 (.inl ⟨rfl, List.mem_cons_self⟩)
  | @locked op token base hat =>
    obtain ⟨hdrew, hword⟩ := hsound hat
    have hword' : P c.settled ((Record.ofStored (base.withLock token).stored).word key) := by
      rw [Record.word_ofStored_stored hkey, Record.word_withLock hkey]
      exact hword
    exact h.put_lock hactive hover (by simp) (Record.lock?_ofStored_withLock _ _) hdrew
      (hothers hdrew) (.inl hword') ⟨drew_put hdrew, fun _ => hword'⟩
  | @consulted op token answer w hat hlock hanswer =>
    obtain ⟨hdrew, hword⟩ := hsound hat
    refine h.put_read hactive hover (by simp) ⟨drew_put hdrew, ?_⟩
    intro _
    have hoccasion : answer
        = (op.transform ⟨now, c.names.next⟩ c.seen.withoutLock (c.writers i).own).1 :=
      (congrArg Prod.fst hanswer).symm
    rw [hoccasion, hwork i _ op hat.current _ _ _]
    refine hclosed.fits hkey hnot ?_
    rw [Record.word_withoutLock hkey]
    exact hword hlock
  | @decided op token answer hat hlock =>
    obtain ⟨hdrew, hfits⟩ := hsound hat
    exact h.put_read hactive hover (by simp)
      ((hfits hlock).sound_carryOut hkey (drew_put hdrew) now _)
  | @wrote op token r hat =>
    obtain ⟨hdrew, hword⟩ := hsound hat
    have hword' : P (insert (c.ticket i) c.settled)
        ((Record.ofStored (r.withLock token).stored).word key) := by
      rw [Record.word_ofStored_stored hkey, Record.word_withLock hkey]
      exact hword
    exact h.put_lock hactive hover (by simp) (Record.lock?_ofStored_withLock _ _) hdrew
      (hothers hdrew) (.inr hword') ⟨drew_put hdrew, fun _ => hword'⟩
  | cleared hat =>
    have htask := hsound hat
    refine h.put_settled hactive hover (Record.get?_empty _) ?_ rfl (hkeep (by rw [hat.stage]; rfl))
    rw [Record.ofStored_none, Record.word_empty]
    exact hclosed.clear htask _
  | verified hat hlock =>
    obtain ⟨-, hword⟩ := hsound hat
    refine h.put_read hactive hover (by simp) ⟨Record.lock?_withoutLock _, ?_⟩
    rw [Record.word_withoutLock hkey]
    exact hword hlock
  | @released op r hat =>
    obtain ⟨hfree, hword⟩ := hsound hat
    refine h.put_settled hactive hover ?_ ?_ rfl (hkeep (by rw [hat.stage]; rfl))
    · rw [Record.lock?_ofStored_stored, hfree]
    · rw [Record.word_ofStored_stored hkey]
      exact hword

end

/-! ## Many calls -/

section

variable [DecidableEq κ] {P : Account κ} {key : String} {task : Ticket κ → Errand}
  {work : Workload κ σ}

/-- No operation settles over the head of a writer that is about to write and still does so. -/
def Undisturbed (work : Workload κ σ) : List (κ × Timestamp) → Contest κ σ → Prop
  | [], _ => True
  | x :: calls, c =>
    ((c.writers x.1).stage.isSettling → ∀ j, j ≠ x.1 → (c.writers j).stage.isPoised →
        j ∉ calls.map Prod.fst) ∧
      Undisturbed work calls (c.call work x.1 x.2)

instance decidableUndisturbed [Fintype κ] (work : Workload κ σ) :
    (calls : List (κ × Timestamp)) → (c : Contest κ σ) → Decidable (Undisturbed work calls c)
  | [], _ => .isTrue trivial
  | x :: calls, c =>
    have : Decidable (Undisturbed work calls (c.call work x.1 x.2)) :=
      decidableUndisturbed work calls _
    inferInstanceAs (Decidable (_ ∧ _))

theorem nodup_tokens_call {c : Contest κ σ} {x : κ × Timestamp} {calls : List (κ × Timestamp)}
    (h : (c.interleave work (x :: calls)).tokens.Nodup) :
    (c.call work x.1 x.2).tokens.Nodup := by
  have hsuffix := suffix_journal_interleave work calls (c.call work x.1 x.2)
  exact h.sublist (hsuffix.sublist.filterMap _)

/-- Calls keep the accounts if these do not mind that more operations settle, or if no operation
settles over the head of a writer. -/
theorem Accounted.interleave (hkey : Record.IsPlainKey key) (hclosed : P.Closed task)
    (hwork : work.CarriesOut key task) {later : κ → Prop} {calls : List (κ × Timestamp)}
    {c : Contest κ σ} (h : Accounted P key task (fun j => j ∈ calls.map Prod.fst ∨ later j) c)
    (htokens : (c.interleave work calls).tokens.Nodup)
    (hkeep : (∀ t S word, P S word → P (insert t S) word) ∨
      Undisturbed work calls c ∧ ∀ j, ¬ later j) :
    Accounted P key task later (c.interleave work calls) := by
  induction calls generalizing c with
  | nil =>
    exact ⟨h.overOnce, h.free, h.held, fun i hi => h.stages i (.inr hi)⟩
  | cons x calls ih =>
    have hi : x.1 ∈ (x :: calls).map Prod.fst ∨ later x.1 := .inl List.mem_cons_self
    have hactive : ∀ j, (j ∈ calls.map Prod.fst ∨ later j) →
        (j ∈ (x :: calls).map Prod.fst ∨ later j) :=
      fun j => .imp_left (List.mem_cons_of_mem x.1)
    have hcall : Accounted P key task (fun j => j ∈ calls.map Prod.fst ∨ later j)
        (c.call work x.1 x.2) := by
      refine h.call hkey hclosed hwork x.2 (nodup_tokens_call htokens) hi hactive ?_
      intro hsettling j hj hne hpoised S word hword
      rcases hkeep with hmono | ⟨hcalm, hlater⟩
      · exact hmono _ S word hword
      · rcases hj with hmem | hj
        · exact absurd hmem (hcalm.1 hsettling j hne hpoised)
        · exact absurd hj (hlater j)
    refine ih hcall htokens ?_
    exact hkeep.imp_right fun ⟨hcalm, hlater⟩ => ⟨hcalm.2, hlater⟩

end

/-! ## Markers of settled operations -/

/-- The word is a first word with markers of such operations behind it, each once. -/
def trailWithin (task : Ticket κ → Errand) (first : String) : Account κ := fun S word =>
  ∃ ts, ts.Nodup ∧ (∀ t ∈ ts, t ∈ S) ∧ word = trail task first ts

theorem trailWithin_empty (task : Ticket κ → Errand) (first : String) (S : Set (Ticket κ)) :
    trailWithin task first S first :=
  ⟨[], List.nodup_nil, by simp, rfl⟩

theorem nodup_concat {α : Type} {l : List α} {a : α} (h : l.Nodup) (ha : a ∉ l) :
    (l ++ [a]).Nodup := by
  refine List.nodup_append.2 ⟨h, by simp, ?_⟩
  intro b hb c hc
  rw [List.mem_singleton.1 hc]
  rintro rfl
  exact ha hb

theorem trailWithin_append {task : Ticket κ → Errand} {first : String} {S : Set (Ticket κ)}
    {word marker : String} {t : Ticket κ} (h : trailWithin task first S word) (ht : t ∉ S)
    (htask : task t = .append marker) : trailWithin task first (insert t S) (word ++ marker) := by
  obtain ⟨ts, hnodup, hts, rfl⟩ := h
  refine ⟨ts ++ [t], nodup_concat hnodup fun hmem => ht (hts t hmem), ?_, ?_⟩
  · intro u hu
    rcases List.mem_append.1 hu with hold | hnew
    · exact .inr (hts u hold)
    · exact .inl (List.mem_singleton.1 hnew)
  · rw [trail_concat, htask, Errand.trace]

theorem trailWithin_mono {task : Ticket κ → Errand} {first : String} {S S' : Set (Ticket κ)}
    {word : String} (hS : S ⊆ S') (h : trailWithin task first S word) :
    trailWithin task first S' word := by
  obtain ⟨ts, hnodup, hts, hword⟩ := h
  exact ⟨ts, hnodup, fun t ht => hS (hts t ht), hword⟩

/-- The word is such a trail behind a first word, or behind nothing once the cell was cleared. -/
def settledTrail (task : Ticket κ → Errand) (first : String) : Account κ := fun S word =>
  trailWithin task first S word ∨ trailWithin task "" S word

theorem settledTrail_closed (task : Ticket κ → Errand) (first : String) :
    (settledTrail task first).Closed task where
  append h ht htask :=
    h.imp (fun h => trailWithin_append h ht htask) fun h => trailWithin_append h ht htask
  clear _ S := .inr (trailWithin_empty task "" S)

theorem settledTrail_mono {task : Ticket κ → Errand} {first : String} {S S' : Set (Ticket κ)}
    {word : String} (hS : S ⊆ S') (h : settledTrail task first S word) :
    settledTrail task first S' word :=
  h.imp (trailWithin_mono hS) (trailWithin_mono hS)

theorem exists_of_settledTrail {task : Ticket κ → Errand} {first : String} {S : Set (Ticket κ)}
    {word : String} (h : settledTrail task first S word) :
    ∃ start ts, (start = first ∨ start = "") ∧ ts.Nodup ∧ (∀ t ∈ ts, t ∈ S) ∧
      word = trail task start ts := by
  rcases h with ⟨ts, h⟩ | ⟨ts, h⟩
  · exact ⟨first, ts, .inl rfl, h⟩
  · exact ⟨"", ts, .inr rfl, h⟩

variable [DecidableEq κ]

/-- The contests that calls lead to, nobody else touching the cell. -/
def Reachable (work : Workload κ σ) (first c : Contest κ σ) : Prop :=
  ∃ calls : List (κ × Timestamp), c = first.interleave work calls

/-- An account that does not mind that more operations settle is kept in any order of calls. -/
theorem accounted_of_reachable {work : Workload κ σ} {key : String} {task : Ticket κ → Errand}
    {P : Account κ} (hkey : Record.IsPlainKey key) (hclosed : P.Closed task)
    (hmono : ∀ t S word, P S word → P (insert t S) word) (hwork : work.CarriesOut key task)
    {cell : Option String} (hfree : (Record.ofStored cell).lock? = none)
    (hP : P ∅ ((Record.ofStored cell).word key)) {names : Supply} {own : κ → σ}
    {c : Contest κ σ} (hreach : Reachable work (start work cell names own) c)
    (htokens : c.tokens.Nodup) : Accounted P key task (fun _ => True) c := by
  obtain ⟨calls, rfl⟩ := hreach
  exact Accounted.interleave hkey hclosed hwork (accounted_start work names own hfree hP) htokens
    (.inl hmono)

/-- Whatever calls any writers have made, in any order, the word in the cell is the first word, or
empty, with markers behind it, each at most once. They are markers of operations that have settled,
but next to a lock there may also be the marker of the operation that took the token. Without a lock
none of them is the marker of an operation that was dropped. -/
theorem trail_of_settled (work : Workload κ σ) (key : String) (task : Ticket κ → Errand)
    (hlock : key ≠ Record.lockKey) (hexpire : key ≠ Record.expireKey)
    (hwork : work.CarriesOut key task) (cell : Option String)
    (hfree : (Record.ofStored cell).lock? = none) (names : Supply) (own : κ → σ)
    (c : Contest κ σ) (hreach : Reachable work (start work cell names own) c)
    (htokens : c.tokens.Nodup) :
    ∃ first ts, (first = (Record.ofStored cell).word key ∨ first = "") ∧ ts.Nodup ∧
      c.seen.word key = trail task first ts ∧
      (∀ t ∈ ts, t ∈ c.settled ∨ ∃ token, c.seen.lock? = some token ∧ c.Drew t token) ∧
      (c.seen.lock? = none → ∀ t ∈ ts, t ∉ c.dropped) := by
  by_cases hempty : key = ""
  · -- an entry under the empty key is never written, so no marker is ever seen
    refine ⟨"", [], .inr rfl, List.nodup_nil, ?_, by simp, by simp⟩
    rw [hempty, Record.word, seen, Record.get?_ofStored_empty]
    rfl
  · have h := accounted_of_reachable ⟨hempty, hlock, hexpire⟩ (settledTrail_closed task _)
      (fun t S word => settledTrail_mono (Set.subset_insert t S)) hwork hfree
      (.inl (trailWithin_empty task _ ∅)) hreach htokens
    cases hseen : c.seen.lock? with
    | none =>
      obtain ⟨first, ts, hfirst, hnodup, hts, hword⟩ := exists_of_settledTrail (h.free hseen)
      refine ⟨first, ts, hfirst, hnodup, hword, fun t ht => .inl (hts t ht), ?_⟩
      intro _ t ht
      exact h.overOnce.not_dropped_of_settled (hts t ht)
    | some token =>
      obtain ⟨owner, hdrew, hword⟩ := h.held token hseen
      have hword' := hword.elim (settledTrail_mono (Set.subset_insert owner c.settled)) id
      obtain ⟨first, ts, hfirst, hnodup, hts, hword⟩ := exists_of_settledTrail hword'
      refine ⟨first, ts, hfirst, hnodup, hword, ?_, fun hnone => nomatch hnone⟩
      intro t ht
      rcases hts t ht with rfl | hsettled
      · exact .inr ⟨token, rfl, hdrew⟩
      · exact .inl hsettled

/-- Two writers, of which one appends `A` and the other `B`. -/
def pair : Workload Bool Unit where
  policy _ := ⟨.ofMillis 10, 3, .ofMillis 900⟩
  queue i := [.ofTransform fun _ r own => ((Errand.append (if i then "B" else "A")).outcome "v" r, own)]

theorem pair_carriesOut :
    pair.CarriesOut "v" fun t => .append (if t.1 then "B" else "A") := by
  intro i n op hop o r own
  obtain ⟨-, rfl⟩ := List.getElem?_eq_some_iff.1 hop
  simp only [pair, List.getElem_singleton, Operation.ofTransform]

/-- The contest of the two writers after certain calls, all at one moment. -/
def afterCalls (callers : List Bool) : Contest Bool Unit :=
  (start pair none .tallies fun _ => ()).interleave pair (callers.map (·, .epoch))

/-- The first writer has settled, the second has written its result and still holds the lock. -/
def midway : Contest Bool Unit := afterCalls (List.replicate 7 false ++ List.replicate 5 true)

theorem trail_midway :
    midway.seen.word "v" = "AB" ∧
      ∃ first ts, (first = (Record.ofStored none).word "v" ∨ first = "") ∧ ts.Nodup ∧
        midway.seen.word "v" = trail (fun t => .append (if t.1 then "B" else "A")) first ts ∧
        (∀ t ∈ ts, t ∈ midway.settled ∨
          ∃ token, midway.seen.lock? = some token ∧ midway.Drew t token) ∧
        (midway.seen.lock? = none → ∀ t ∈ ts, t ∉ midway.dropped) := by
  refine ⟨by decide +kernel, ?_⟩
  exact trail_of_settled pair "v" _ (by decide) (by decide) pair_carriesOut none (by decide +kernel)
    .tallies (fun _ => ()) midway ⟨_, rfl⟩ (by decide +kernel)

end Contest

end SharedSession
