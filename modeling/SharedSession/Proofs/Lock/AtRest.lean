import SharedSession.Proofs.Lock.Abandonment
import SharedSession.Proofs.Lock.Undisturbed
import SharedSession.Proofs.Storage.Interchange

set_option autoImplicit false

/-!
# What is stored at rest

A record with nothing but bookkeeping is no session, and is removed instead of being stored. Whether
a record is such a one is asked of the record as it was decided; what is stored of it is less, for
there is no text for an entry under the empty key. So there are records that are stored and come
out as mere bookkeeping: those that have such an entry, and none of their own besides. This module
shows that no other decision leaves mere bookkeeping behind, with the lock or without it. Cells of
memory and files are alike in that.

Main statements: `Medium.Obeys.openFile`, `Attempt.peek_locked`, `Outcome.isHusk_result_iff`,
`Processor.husk_left_iff`, and what speaks against more than that, `Processor.husk_left`.
-/

namespace SharedSession

variable {μ σ : Type}

/-! ## Media that do as they are told -/

/-- A medium without failures that nobody else writes: a read answers with the stored text, storing
puts the text of a record in its place, and removing leaves nothing. What becomes of texts that no
record has is left open, and a text that is empty may count as none. -/
structure Medium.Obeys (m : Medium μ) (k : Backing μ) : Prop where
  retrieve : ∀ s : μ, ∃ t : μ, m.retrieve s = (.ok (k.peek s), t) ∧ k.peek t = k.peek s
  persist : ∀ (r : Record) (s : μ), ∃ t : μ, m.persist r.encode s = (.ok (), t) ∧
    (k.peek t = some r.encode ∨ r.encode = "" ∧ k.peek t = none)
  clear : ∀ s : μ, ∃ t : μ, m.clear s = (.ok (), t) ∧ k.peek t = none

namespace Medium.Obeys

variable {m : Medium μ} {k : Backing μ}

theorem memory (locking : Bool) : (Medium.memory locking).Obeys .memory where
  retrieve cell := ⟨cell, rfl, rfl⟩
  persist r _ := ⟨some r.encode, rfl, .inl rfl⟩
  clear _ := ⟨none, rfl, rfl⟩

/-- A file that can be written does as it is told, although it trims what it holds. -/
theorem openFile (path : String) : (Medium.openFile path).Obeys (.openFile path) where
  retrieve d := ⟨d, retrieve_openFile d, rfl⟩
  persist r d := by
    obtain ⟨t, hpersist, hpeek⟩ := persist_openFile r.encode d
    refine ⟨t, hpersist, ?_⟩
    rw [hpeek, contentOf_encode, Record.encode_eq_empty_iff]
    split
    · next hempty => exact .inr ⟨hempty, rfl⟩
    · exact .inl rfl
  clear d := clear_openFile d

theorem peek_wipe (h : m.Obeys k) (s : μ) : k.peek (m.wipe s) = none := by
  obtain ⟨t, hclear, hpeek⟩ := h.clear s
  rw [wipe, hclear]
  exact hpeek

/-- A record is stored as its text, unless it has entries and yet no text. -/
theorem peek_save (h : m.Obeys k) {r : Record} (hr : r.encode = "" → r = ∅) (s : μ) :
    k.peek (m.save r s) = r.stored := by
  unfold save Record.stored
  split
  · exact h.peek_wipe s
  · next hfull =>
    obtain ⟨t, hpersist, htext | ⟨hempty, -⟩⟩ := h.persist r s
    · rw [hpersist]
      exact htext
    · exact absurd (Record.isEmpty_iff.2 (hr hempty)) hfull

/-- What is seen of it is the record without an entry under the empty key. -/
theorem shown_save (h : m.Obeys k) (r : Record) (s : μ) :
    k.shown (m.save r s) = r.erase "" := by
  unfold save
  split
  · next hempty =>
    rw [Backing.shown, h.peek_wipe, Record.isEmpty_iff.1 hempty, Record.ofStored_none,
      Record.erase_empty]
  · obtain ⟨t, hpersist, hpeek⟩ := h.persist r s
    rw [hpersist]
    show Record.ofStored (k.peek t) = _
    rcases hpeek with htext | ⟨hempty, hnone⟩
    · rw [htext]
      exact Record.decode_encode r
    · rw [hnone, Record.ofStored_none, Record.encode_eq_empty_iff.1 hempty]

/-- Such a medium keeps the record that is stored, and can always be read. -/
theorem isReliable (h : m.Obeys k) : m.IsReliable k.shown where
  ofStored_eq {s content} hanswer := by
    obtain ⟨t, hretrieve, -⟩ := h.retrieve s
    rw [hretrieve] at hanswer
    cases hanswer
    rfl
  view_retrieve s := by
    obtain ⟨t, hretrieve, hpeek⟩ := h.retrieve s
    rw [hretrieve, Backing.shown, hpeek]
    rfl
  view_save r s := h.shown_save r s
  view_wipe s := by
    rw [Backing.shown, h.peek_wipe, Record.ofStored_none]
  canRead s := by
    obtain ⟨t, hretrieve, -⟩ := h.retrieve s
    exact ⟨k.peek s, by rw [hretrieve]⟩

end Medium.Obeys

/-! ## Mere bookkeeping -/

namespace Record

/-- A text of mere bookkeeping. -/
def IsHusk (cell : Option String) : Prop := ∃ raw, cell = some raw ∧ (decode raw).isCleared = true

/-- A record with an entry under the empty key and, but for bookkeeping, under no other. -/
def IsHollow (r : Record) : Prop :=
  (r.get? "").isSome = true ∧
    ∀ key, key ≠ "" → (r.get? key).isSome = true → isBookkeeping key = true

variable {r s : Record}

/-- Such a record is no mere bookkeeping, but what is stored of it is. -/
theorem isHollow_iff : s.IsHollow ↔ s.isCleared = false ∧ (s.erase "").isCleared = true := by
  have herase : (s.erase "").isCleared = true ↔
      ∀ key, key ≠ "" → (s.get? key).isSome = true → isBookkeeping key = true := by
    rw [isCleared_iff]
    refine forall_congr' fun key => ?_
    by_cases hkey : "" = key
    · simp [get?_erase, hkey]
    · simp [get?_erase, hkey, Ne.symm hkey]
  rw [herase]
  refine and_congr_left fun hrest => ?_
  rw [← Bool.not_eq_true, isCleared_iff]
  constructor
  · intro hempty hcleared
    exact absurd (hcleared "" hempty) (by decide)
  · intro hfilled
    rw [← Bool.not_eq_false]
    intro hempty
    apply hfilled
    intro key hkey
    refine hrest key ?_ hkey
    rintro rfl
    rw [hempty] at hkey
    cases hkey

/-- What is stored of a record is mere bookkeeping if there is anything to store, and nothing but
bookkeeping that has a text. -/
theorem isHusk_stored_iff : IsHusk r.stored ↔ r ≠ ∅ ∧ (r.erase "").isCleared = true := by
  unfold stored
  by_cases hempty : r.isEmpty = true
  · rw [if_pos hempty]
    simp [IsHusk, isEmpty_iff.1 hempty]
  · rw [if_neg hempty]
    simp [IsHusk, decode_encode, mt isEmpty_iff.2 hempty]

/-- The new deadline takes no part in that. -/
theorem isCleared_erase_expand (s : Record) (now : Timestamp) (d : Span) :
    ((s.withoutLock.expand now d).erase "").isCleared = (s.erase "").isCleared := by
  apply isCleared_congr
  intro key hlock hexpire
  rw [get?_erase, get?_erase, get?_expand hexpire, get?_withoutLock hlock]

theorem erase_expand_ne_empty (r : Record) (now : Timestamp) (d : Span) :
    (r.expand now d).erase "" ≠ ∅ := by
  intro heq
  have hdate := expire?_expand r now d
  have hget : ((r.expand now d).erase "").get? expireKey = (r.expand now d).get? expireKey := by
    rw [get?_erase, if_neg (by decide)]
  rw [expire?, ← hget, heq] at hdate
  cases hdate

/-- An entry under the empty key leaves no trace in what is stored. -/
theorem stored_erase_expand (r : Record) (now : Timestamp) (d : Span) :
    ((r.expand now d).erase "").stored = (r.expand now d).stored := by
  have hleft : ¬ ((r.expand now d).erase "").isEmpty = true :=
    mt isEmpty_iff.1 (erase_expand_ne_empty r now d)
  have hright : ¬ (r.expand now d).isEmpty = true := by
    intro hempty
    apply erase_expand_ne_empty r now d
    rw [isEmpty_iff.1 hempty, erase_empty]
  rw [stored, stored, if_neg hleft, if_neg hright, encode_erase_empty]

/-- Of such a record only the new deadline is stored. -/
theorem IsHollow.erase_expand (h : s.IsHollow) (now : Timestamp) (d : Span) :
    (s.withoutLock.expand now d).erase "" = (∅ : Record).expand now d := by
  ext1 key
  rw [get?_erase]
  by_cases hkey : "" = key
  · rw [if_pos hkey, ← hkey, get?_expand (by decide), get?_empty]
  · rw [if_neg hkey]
    by_cases hexpire : key = expireKey
    · rw [hexpire, expand, expand, get?_set, get?_set, if_pos rfl, if_pos rfl]
    · rw [get?_expand hexpire, get?_expand hexpire, get?_empty]
      by_cases hlock : key = lockKey
      · rw [hlock]
        exact lock?_withoutLock s
      · rw [get?_withoutLock hlock]
        cases hget : s.get? key with
        | none => rfl
        | some value =>
          have hbook := h.2 key (Ne.symm hkey) (by rw [hget]; rfl)
          simp [isBookkeeping, hexpire, hlock] at hbook

end Record

/-! ## The last call -/

namespace Stage

/-- An attempt that has settled has left its result, which has nothing under the empty key. -/
def Leaves (k : Backing μ) (w : World μ σ) : Stage → Prop
  | .releasing r => r.get? "" = none
  | .settled r => k.peek w.medium = (r.erase "").stored
  | _ => True

variable {m : Medium μ} {k : Backing μ}

theorem leaves_step (h : m.Obeys k) (op : Operation σ) (d : Span) (now : Timestamp) {s : Stage}
    {w : World μ σ} (hs : s.Leaves k w) :
    (s.step m op d now w).1.Leaves k (s.step m op d now w).2 := by
  obtain ⟨r, v, hload⟩ : ∃ r v, w.load m = (r, v) := ⟨_, _, rfl⟩
  cases s with
  | opening =>
    cases hlock : r.lock? with
    | some token =>
      rw [step_opening_of_locked hload (by rw [hlock]; rfl)]
      trivial
    | none =>
      rw [step_opening_of_free hload hlock]
      trivial
  | locking token base => trivial
  | confirming token =>
    by_cases hlock : r.lock? = some token
    · rw [step_confirming_of_held hload hlock]
      trivial
    · rw [step_of_lost rfl hload hlock]
      trivial
  | rechecking token answer =>
    by_cases hlock : r.lock? = some token
    · rw [step_rechecking_of_held answer hload hlock]
      cases answer.resolve now d <;> trivial
    · rw [step_of_lost rfl hload hlock]
      trivial
  | writing token result => trivial
  | clearing =>
    show k.peek (m.wipe w.medium) = _
    rw [h.peek_wipe, Record.erase_empty]
    rfl
  | verifying token =>
    by_cases hlock : r.lock? = some token
    · rw [step_verifying_of_held hload hlock]
      show r.withoutLock.get? "" = none
      rw [Record.get?_withoutLock (Ne.symm Record.lockKey_ne_empty)]
      obtain ⟨v', hload', -⟩ := h.isReliable.load_world w
      rw [← (Prod.mk.inj (hload'.symm.trans hload)).1]
      exact h.isReliable.get?_view_empty w.medium
    · rw [step_of_lost rfl hload hlock]
      trivial
  | releasing result =>
    show k.peek (m.save result w.medium) = _
    have hsame : result.erase "" = result := Record.erase_of_get?_eq_none hs
    rw [h.peek_save, hsame]
    intro hempty
    rw [← hsame]
    exact Record.encode_eq_empty_iff.1 hempty
  | settled result => exact hs
  | contended found => trivial

theorem leaves_run (h : m.Obeys k) (op : Operation σ) (d : Span) (now : Timestamp) (n : Nat)
    {s : Stage} {w : World μ σ} (hs : s.Leaves k w) :
    (s.run m op d now n w).1.Leaves k (s.run m op d now n w).2 := by
  induction n generalizing s w with
  | zero => exact hs
  | succ n ih => exact ih (leaves_step h op d now hs)

end Stage

namespace Attempt

variable {m : Medium μ} {k : Backing μ} {op : Operation σ} {d : Span} {now : Timestamp}
  {w v : World μ σ} {r : Record}

/-- An attempt that settles leaves the text of what it settles with. -/
theorem peek_locked (h : m.Obeys k) (hsettled : locked m op d now w = (.settled r, v)) :
    k.peek v.medium = (r.erase "").stored := by
  have hopening : Stage.opening.Leaves k w := trivial
  have hend := Stage.leaves_run h op d now 7 hopening
  unfold locked at hsettled
  generalize Stage.opening.run m op d now 7 w = ended at hsettled hend
  obtain ⟨s, u⟩ := ended
  obtain ⟨hstage, rfl⟩ := Prod.ext_iff.1 hsettled
  cases s with
  | settled result =>
    cases hstage
    exact hend
  | _ => cases hstage

/-- So does an operation without a lock, unless it leaves everything as it is. -/
theorem peek_unlocked (h : m.Obeys k)
    (hop : ∀ (o : Occasion) (r : Record) (own : σ), (op.transform o r own).1 ≠ .unchanged)
    (hserved : unlocked m op d now w = (r, v)) : k.peek v.medium = (r.erase "").stored := by
  obtain ⟨given, u, hload⟩ : ∃ given u, w.load m = (given, u) := ⟨_, _, rfl⟩
  have hanswer := hop ⟨now, u.names.next⟩ given.withoutLock u.own
  simp only [unlocked, hload] at hserved
  cases hresolve : (u.consult op now given.withoutLock).1.resolve now d with
  | persist result =>
    rw [hresolve] at hserved
    cases hserved
    obtain ⟨s, -, -, rfl⟩ := Outcome.eq_of_resolve_persist hresolve
    rw [Record.stored_erase_expand]
    refine h.peek_save (fun hempty => ?_) _
    exact absurd (Record.encode_eq_empty_iff.1 hempty) (Record.erase_expand_ne_empty _ now d)
  | clear =>
    rw [hresolve] at hserved
    cases hserved
    rw [Record.erase_empty]
    exact h.peek_wipe _
  | unchanged => exact absurd (Outcome.eq_unchanged_of_resolve hresolve) hanswer

end Attempt

namespace Processor

variable {m : Medium μ} {k : Backing μ} {policy : LockPolicy} {now : Timestamp} {tick : Nat}
  {op : Operation σ} {isAwaited : Bool} {w v : World μ σ} {r : Record}

theorem peek_attempts (h : m.Obeys k) {left : Nat}
    (hsettled : attempts m policy now tick op isAwaited left w = (.done (.settled r), v)) :
    k.peek v.medium = (r.erase "").stored := by
  induction left generalizing w with
  | zero => cases hsettled
  | succ left ih =>
    unfold attempts at hsettled
    cases hlocked : Attempt.locked m op policy.expirationDelay now w with
    | mk found u =>
      rw [hlocked] at hsettled
      cases found with
      | settled result =>
        cases hsettled
        exact Attempt.peek_locked (v := u) h hlocked
      | contended found =>
        simp only at hsettled
        split at hsettled
        · exact ih hsettled
        · cases hsettled

/-- What an operation settles with is what is stored. -/
theorem peek_start (h : m.Obeys k)
    (hop : ∀ (o : Occasion) (r : Record) (own : σ), (op.transform o r own).1 ≠ .unchanged)
    (hsettled : start m policy now tick op isAwaited w = (.done (.settled r), v)) :
    k.peek v.medium = (r.erase "").stored := by
  unfold start at hsettled
  split at hsettled
  · exact peek_attempts h hsettled
  · cases hunlocked : Attempt.unlocked m op policy.expirationDelay now w with
    | mk result u =>
      rw [hunlocked] at hsettled
      cases hsettled
      exact Attempt.peek_unlocked (v := u) h hop hunlocked

end Processor

/-! ## Every decision -/

namespace Outcome

variable {answer : Outcome} {now : Timestamp} {d : Span} {given : Record}

/-- A decision leaves mere bookkeeping exactly if it is to store a hollow record. -/
theorem isHusk_result_iff (hanswer : answer ≠ .unchanged) :
    Record.IsHusk (answer.result now d given).stored ↔ ∃ s, answer = .persist s ∧ s.IsHollow := by
  have hnone : ¬ Record.IsHusk (∅ : Record).stored := by
    rw [Record.isHusk_stored_iff]
    exact fun hhusk => hhusk.1 rfl
  cases answer with
  | persist s =>
    simp only [Outcome.persist.injEq, exists_eq_left', Record.isHollow_iff, result]
    cases hcleared : s.isCleared with
    | true => simpa using hnone
    | false =>
      rw [if_neg Bool.false_ne_true, Record.isHusk_stored_iff, Record.erase_erase,
        Record.isCleared_erase_expand]
      simp [Record.erase_expand_ne_empty]
  | clear => simpa [result] using hnone
  | unchanged => exact absurd rfl hanswer

end Outcome

namespace Processor

/-- On a medium that does as it is told and holds no lock, an operation that decides to store a
record or to remove what is there is asked once, about the record that is stored; it settles, and
what it decided is what is stored. That is mere bookkeeping exactly if the record to be stored is a
hollow one, and then it is nothing but the new deadline. -/
theorem husk_left_iff {m : Medium μ} {k : Backing μ} (h : m.Obeys k) (policy : LockPolicy)
    (htries : m.locking = true → 1 ≤ policy.maxTries) (now : Timestamp) (tick : Nat)
    (op : Operation σ) (isAwaited : Bool) (w : World μ σ)
    (hfree : (k.shown w.medium).lock? = none)
    (hop : ∀ (o : Occasion) (r : Record) (own : σ), (op.transform o r own).1 ≠ .unchanged) :
    ∃ (c : Consultation σ) (final : Record) (v : World μ σ),
      (c.op = op ∧ c.occasion.now = now ∧ c.given = k.shown w.medium ∧ c.own = w.own) ∧
      (startActs m policy now op w).filter Act.isAsking = [c.act] ∧
      start m policy now tick op isAwaited w = (.done (.settled final), v) ∧
      k.peek v.medium = (c.result policy.expirationDelay).stored ∧
      (Record.IsHusk (k.peek v.medium) ↔ ∃ s, c.answer = .persist s ∧ s.IsHollow) ∧
      (Record.IsHusk (k.peek v.medium) →
        k.shown v.medium = (∅ : Record).expand now policy.expirationDelay) := by
  obtain ⟨t, v, rfl, rfl, rfl, hstart, hserved, hasked, -⟩ :=
    exists_isServed h.isReliable policy htries now tick op isAwaited w hfree
  have hanswer : t.answer ≠ .unchanged := hop _ _ _
  have hpeek : k.peek v.medium = (t.result policy.expirationDelay).stored := by
    rw [peek_start h hop hstart, hserved.final_eq]
  have hhusk : Record.IsHusk (k.peek v.medium) ↔ ∃ s, t.answer = .persist s ∧ s.IsHollow := by
    rw [hpeek]
    exact Outcome.isHusk_result_iff hanswer
  refine ⟨t.toConsultation, t.final, v, ⟨rfl, rfl, hserved.given_eq, hserved.own_eq⟩, hasked, hstart,
    hpeek, hhusk, ?_⟩
  intro hleft
  obtain ⟨s, hpersist, hhollow⟩ := hhusk.1 hleft
  have hcleared : s.isCleared = false := (Record.isHollow_iff.1 hhollow).1
  rw [Backing.shown, hpeek, Record.ofStored_stored, Consultation.result, hpersist]
  simp only [Outcome.result, hcleared, Bool.false_eq_true, if_false]
  rw [hhollow.erase_expand, Record.erase_of_get?_eq_none]
  rw [Record.get?_expand (by decide), Record.get?_empty]

/-- Puts a word under the empty key. -/
def unnaming : Operation Unit := .ofTransform fun _ r own => (.persist (r.set "" "x"), own)

theorem unnaming_ne_unchanged (o : Occasion) (r : Record) (own : Unit) :
    (unnaming.transform o r own).1 ≠ .unchanged := by
  intro heq
  cases heq

/-- What that comes to in a cell, under the lock or without it. -/
def unnamed (locking : Bool) (cell : Option String) : Progress Unit × World (Option String) Unit :=
  start (.memory locking) Service.oneTry .epoch 0 unnaming false ⟨cell, (), .tallies⟩

/-- Next to another word, the one without a name is simply lost. -/
theorem husk_left_iff_beside_word :
    (Medium.memory true).Obeys .memory ∧
      (Backing.memory.shown (some "rum=1")).lock? = none ∧
      (∀ (o : Occasion) (r : Record) (own : Unit), (unnaming.transform o r own).1 ≠ .unchanged) ∧
      (unnamed true (some "rum=1")).2.medium = some "expire=900&rum=1" ∧
      ¬ Record.IsHusk (unnamed true (some "rum=1")).2.medium := by
  have hobeys := Medium.Obeys.memory true
  have hfree : (Backing.memory.shown (some "rum=1")).lock? = none := by decide +kernel
  refine ⟨hobeys, hfree, unnaming_ne_unchanged, by decide +kernel, ?_⟩
  obtain ⟨c, final, v, ⟨hop, -, hgiven, -⟩, -, hstart, -, hiff, -⟩ :=
    husk_left_iff hobeys Service.oneTry (fun _ => Nat.le_refl 1) .epoch 0 unnaming false
      ⟨some "rum=1", (), .tallies⟩ hfree unnaming_ne_unchanged
  have hanswer : c.answer = .persist (c.given.set "" "x") := by
    rw [Consultation.answer, hop]
    rfl
  intro hhusk
  rw [unnamed, hstart] at hhusk
  obtain ⟨s, hpersist, hhollow⟩ := hiff.1 hhusk
  cases hanswer.symm.trans hpersist
  have hword : ((c.given.set "" "x").get? "rum").isSome = true := by
    rw [hgiven]
    decide +kernel
  exact absurd (hhollow.2 "rum" (by decide) hword) (by decide)

/-- In an empty cell it leaves a text with nothing but a deadline, under the lock and without it,
and has settled. -/
theorem husk_left :
    (∀ locking, ∃ final, (unnamed locking none).1 = .done (.settled final)) ∧
      (∀ locking, (unnamed locking none).2.medium = some "expire=900") ∧
      Record.IsHusk (some "expire=900") := by
  refine ⟨?_, by decide +kernel, "expire=900", rfl, by decide +kernel⟩
  intro locking
  obtain ⟨t, v, -, -, -, hstart, -⟩ :=
    exists_isServed (Medium.memory_isReliable locking) Service.oneTry (fun _ => Nat.le_refl 1)
      .epoch 0 unnaming false ⟨none, (), .tallies⟩ (Record.get?_empty _)
  exact ⟨t.final, by rw [unnamed, hstart]⟩

end Processor

end SharedSession
