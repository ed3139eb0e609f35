import SharedSession.Proofs.Lock.TryByTry
import SharedSession.Proofs.Storage.Cell

set_option autoImplicit false

/-!
# What a writer leaves among others

Others may write to the medium at any time, before and behind every call, as long as the locks that
they leave there are none of the writer's own tokens. Then an attempt that has come to its end, no
matter how, has left no token of the writer: while it goes on, the one in its hand is the only one
that can be there, and it is given up only where it is not, or has just been removed.

Main statements: `Stage.minds_step`, `Processor.isFreeOf_tryNext`.
-/

namespace SharedSession

variable {μ σ : Type}

namespace Record

/-- The lock in a record, if there is one, is none of these tokens. -/
def IsFreeOf (own : String → Prop) (r : Record) : Prop :=
  ∀ token, r.lock? = some token → ¬ own token

/-- The lock in a record, if it is one of these tokens, is this one. -/
def HoldsAtMost (own : String → Prop) (token : String) (r : Record) : Prop :=
  ∀ other, r.lock? = some other → own other → other = token

variable {own : String → Prop} {token : String} {r : Record}

theorem isFreeOf_of_lock?_eq_none (h : r.lock? = none) : r.IsFreeOf own := by
  intro token hlock
  rw [h] at hlock
  cases hlock

theorem isFreeOf_of_lock?_eq (h : r.lock? = some token) (hother : ¬ own token) :
    r.IsFreeOf own := by
  intro other hlock
  obtain rfl := Option.some.inj (h.symm.trans hlock)
  exact hother

theorem IsFreeOf.holdsAtMost (h : r.IsFreeOf own) : r.HoldsAtMost own token :=
  fun other hlock hown => absurd hown (h other hlock)

theorem holdsAtMost_of_lock?_eq (h : r.lock? = some token) : r.HoldsAtMost own token :=
  fun _ hlock _ => Option.some.inj (hlock.symm.trans h)

/-- Where the token is missing, none of the tokens is there. -/
theorem HoldsAtMost.isFreeOf (h : r.HoldsAtMost own token) (hlost : r.lock? ≠ some token) :
    r.IsFreeOf own := by
  intro other hlock hown
  obtain rfl := h other hlock hown
  exact hlost hlock

end Record

/-- A medium whose calls succeed, and to which others write texts without these tokens: a read shows
what is stored or what another has just put there, and right behind each call another may put a text
in the place of what it left. -/
structure Medium.IsShared (m : Medium μ) (k : Backing μ) (own : String → Prop) : Prop where
  retrieve : ∀ s : μ, ∃ (content : Option String) (t : μ), m.retrieve s = (.ok content, t) ∧
    (Record.ofStored content = k.shown s ∨ (Record.ofStored content).IsFreeOf own) ∧
    (k.shown t = Record.ofStored content ∨ (k.shown t).IsFreeOf own)
  persist : ∀ (r : Record) (s : μ), ∃ t : μ, m.persist r.encode s = (.ok (), t) ∧
    (k.shown t = Record.ofStored (some r.encode) ∨ (k.shown t).IsFreeOf own)
  clear : ∀ s : μ, ∃ t : μ, m.clear s = (.ok (), t) ∧
    (k.shown t = ∅ ∨ (k.shown t).IsFreeOf own)
  overwrite : ∀ (raw : Option String) (s : μ),
    k.shown (k.overwrite raw s) = Record.ofStored raw

namespace Medium.IsShared

variable {m : Medium μ} {k : Backing μ} {own : String → Prop}

theorem load (h : m.IsShared k own) (w : World μ σ) :
    ∃ (r : Record) (v : World μ σ), w.load m = (r, v) ∧
      (r = k.shown w.medium ∨ r.IsFreeOf own) ∧
      (k.shown v.medium = r ∨ (k.shown v.medium).IsFreeOf own) := by
  obtain ⟨content, t, hanswer, hseen, hleft⟩ := h.retrieve w.medium
  refine ⟨Record.ofStored content, { w with medium := t }, ?_, hseen, hleft⟩
  simp only [World.load, Medium.load, hanswer]
  rfl

section

variable {w v : World μ σ} {r : Record}

/-- A read leaves no token where there was none. -/
theorem isFreeOf_load (h : m.IsShared k own) (hload : w.load m = (r, v))
    (hfree : (k.shown w.medium).IsFreeOf own) : (k.shown v.medium).IsFreeOf own := by
  obtain ⟨r', v', hload', hseen, hleft⟩ := h.load w
  obtain ⟨rfl, rfl⟩ := Prod.mk.inj (hload'.symm.trans hload)
  rcases hleft with hsame | hleft
  · rw [hsame]
    rcases hseen with rfl | hseen
    · exact hfree
    · exact hseen
  · exact hleft

/-- A read shows and leaves no other token than the one that could be there. -/
theorem holdsAtMost_load (h : m.IsShared k own) (hload : w.load m = (r, v)) {token : String}
    (hmedium : (k.shown w.medium).HoldsAtMost own token) :
    r.HoldsAtMost own token ∧ (k.shown v.medium).HoldsAtMost own token := by
  obtain ⟨r', v', hload', hseen, hleft⟩ := h.load w
  obtain ⟨rfl, rfl⟩ := Prod.mk.inj (hload'.symm.trans hload)
  have hr : r'.HoldsAtMost own token := by
    rcases hseen with rfl | hseen
    · exact hmedium
    · exact hseen.holdsAtMost
  refine ⟨hr, ?_⟩
  rcases hleft with hsame | hleft
  · rw [hsame]
    exact hr
  · exact hleft.holdsAtMost

/-- Where a read does not show the one token that could be there, none is left. -/
theorem isFreeOf_load_of_lost (h : m.IsShared k own) (hload : w.load m = (r, v)) {token : String}
    (hmedium : (k.shown w.medium).HoldsAtMost own token) (hlost : r.lock? ≠ some token) :
    (k.shown v.medium).IsFreeOf own := by
  obtain ⟨r', v', hload', -, hleft⟩ := h.load w
  obtain ⟨rfl, rfl⟩ := Prod.mk.inj (hload'.symm.trans hload)
  rcases hleft with hsame | hleft
  · rw [hsame]
    exact (h.holdsAtMost_load hload hmedium).1.isFreeOf hlost
  · exact hleft

end

theorem wipe (h : m.IsShared k own) (w : World μ σ) :
    (k.shown (w.wipe m).medium).IsFreeOf own := by
  obtain ⟨t, hclear, hleft⟩ := h.clear w.medium
  have hmedium : (w.wipe m).medium = t := by
    show (m.clear w.medium).2 = t
    rw [hclear]
  rw [hmedium]
  rcases hleft with hnone | hfree
  · rw [hnone]
    exact Record.isFreeOf_of_lock?_eq_none (Record.get?_empty _)
  · exact hfree

theorem save (h : m.IsShared k own) (r : Record) (w : World μ σ) :
    (k.shown (w.save m r).medium).lock? = r.lock? ∨ (k.shown (w.save m r).medium).IsFreeOf own := by
  cases hempty : r.isEmpty with
  | true =>
    have hsave : w.save m r = w.wipe m := by
      simp only [World.save, World.wipe, Medium.save, hempty, if_true]
    rw [hsave]
    exact .inr (h.wipe w)
  | false =>
    obtain ⟨t, hpersist, hleft⟩ := h.persist r w.medium
    have hmedium : (w.save m r).medium = t := by
      simp only [World.save, Medium.save, hempty, Bool.false_eq_true, if_false, hpersist]
    rw [hmedium]
    rcases hleft with hstored | hfree
    · left
      have hcell : some r.encode = r.stored := by
        simp only [Record.stored, hempty, Bool.false_eq_true, if_false]
      rw [hstored, hcell, Record.lock?_ofStored_stored]
    · exact .inr hfree

end Medium.IsShared

/-! ## Cells that others visit -/

/-- What a call leaves in a cell, and what a visitor makes of it, who comes or not as a list says.
Past the end of the list nobody comes. -/
def visitedBy (text : String) (visits : List Bool) (content : Option String) :
    List Bool × Option String :=
  (visits.tail, if visits.headD false then some text else content)

/-- A cell of memory into which others put a text right behind some of the calls. -/
def Medium.visited (locking : Bool) (text : String) : Medium (List Bool × Option String) where
  locking := locking
  retrieve s := (.ok s.2, visitedBy text s.1 s.2)
  persist raw s := (.ok (), visitedBy text s.1 (some raw))
  clear s := (.ok (), visitedBy text s.1 none)

/-- The cell behind the visits. -/
def Backing.visited : Backing (List Bool × Option String) := ⟨fun s => s.2, fun raw s => (s.1, raw)⟩

theorem Medium.isShared_visited (locking : Bool) {text : String} {own : String → Prop}
    (htext : (Record.decode text).IsFreeOf own) :
    (Medium.visited locking text).IsShared .visited own := by
  have hvisit : ∀ (visits : List Bool) (content : Option String),
      Backing.visited.shown (visitedBy text visits content) = Record.ofStored content ∨
        (Backing.visited.shown (visitedBy text visits content)).IsFreeOf own := by
    intro visits content
    simp only [Backing.shown, Backing.visited, visitedBy]
    split
    · exact .inr htext
    · exact .inl rfl
  exact ⟨fun s => ⟨s.2, _, rfl, .inl rfl, hvisit s.1 s.2⟩,
    fun r s => ⟨_, rfl, hvisit s.1 (some r.encode)⟩, fun s => ⟨_, rfl, hvisit s.1 none⟩,
    fun _ _ => rfl⟩

/-! ## Attempts -/

/-- What may be stored when an attempt under the lock comes to a stage. -/
def Stage.Minds (k : Backing μ) (own : String → Prop) (s : μ) : Stage → Prop
  | .confirming token => (k.shown s).HoldsAtMost own token
  | .rechecking token _ => (k.shown s).HoldsAtMost own token
  | .verifying token => (k.shown s).HoldsAtMost own token
  | .writing _ _ => True
  | .clearing => True
  | .releasing r => r.lock? = none
  | _ => (k.shown s).IsFreeOf own

section

variable {m : Medium μ} {k : Backing μ} {own : String → Prop} (h : m.IsShared k own)
  (op : Operation σ) (d : Span) (now : Timestamp)

include h

namespace Stage

/-- What is left where a read does not show the token. -/
theorem minds_of_lost {s : Stage} {token : String} {w v : World μ σ} {r : Record}
    (hs : s.awaited? = some token) (hmedium : (k.shown w.medium).HoldsAtMost own token)
    (hload : w.load m = (r, v)) (hlost : r.lock? ≠ some token) :
    (s.step m op d now w).1.Minds k own (s.step m op d now w).2.medium := by
  rw [step_of_lost hs hload hlost]
  exact h.isFreeOf_load_of_lost hload hmedium hlost

theorem minds_step {s : Stage} {w : World μ σ} (hs : s.Minds k own w.medium) :
    (s.step m op d now w).1.Minds k own (s.step m op d now w).2.medium := by
  obtain ⟨r, v, hload⟩ : ∃ r v, w.load m = (r, v) := ⟨_, _, rfl⟩
  have hlocked : ∀ (base : Record) (token : String),
      (k.shown (w.save m (base.withLock token)).medium).HoldsAtMost own token := by
    intro base token
    rcases h.save (base.withLock token) w with hlock | hfree
    · rw [Record.lock?_withLock] at hlock
      exact Record.holdsAtMost_of_lock?_eq hlock
    · exact hfree.holdsAtMost
  cases s with
  | opening =>
    have hfree := h.isFreeOf_load hload hs
    cases hlock : r.lock? with
    | some token =>
      rw [step_opening_of_locked hload (by rw [hlock]; rfl)]
      exact hfree
    | none =>
      rw [step_opening_of_free hload hlock]
      exact hfree
  | locking token base => exact hlocked base token
  | confirming token =>
    by_cases hlock : r.lock? = some token
    · rw [step_confirming_of_held hload hlock]
      exact (h.holdsAtMost_load hload hs).2
    · exact minds_of_lost h op d now rfl hs hload hlock
  | rechecking token answer =>
    by_cases hlock : r.lock? = some token
    · rw [step_rechecking_of_held answer hload hlock]
      cases answer.resolve now d with
      | persist result => trivial
      | clear => trivial
      | unchanged => exact (h.holdsAtMost_load hload hs).2
    · exact minds_of_lost h op d now rfl hs hload hlock
  | writing token result => exact hlocked result token
  | clearing => exact h.wipe w
  | verifying token =>
    by_cases hlock : r.lock? = some token
    · rw [step_verifying_of_held hload hlock]
      exact Record.lock?_withoutLock r
    · exact minds_of_lost h op d now rfl hs hload hlock
  | releasing result =>
    show (k.shown (w.save m result).medium).IsFreeOf own
    rcases h.save result w with hlock | hfree
    · exact Record.isFreeOf_of_lock?_eq_none (hlock.trans hs)
    · exact hfree
  | settled result => exact hs
  | contended found => exact hs

theorem minds_run (n : Nat) {s : Stage} {w : World μ σ} (hs : s.Minds k own w.medium) :
    (s.run m op d now n w).1.Minds k own (s.run m op d now n w).2.medium := by
  induction n generalizing s w with
  | zero => exact hs
  | succ n ih => exact ih (minds_step h op d now hs)

end Stage

namespace Attempt

/-- However an attempt ends, it leaves no token. -/
theorem isFreeOf_locked {w : World μ σ} (hfree : (k.shown w.medium).IsFreeOf own) :
    (k.shown (locked m op d now w).2.medium).IsFreeOf own := by
  have hopening : Stage.opening.Minds k own w.medium := hfree
  have hend := Stage.minds_run h op d now 7 hopening
  have hfinal := Stage.isFinal_run m op d now 7 .opening w (Nat.le_refl 7)
  unfold locked
  generalize Stage.opening.run m op d now 7 w = ended at hend hfinal ⊢
  obtain ⟨s, v⟩ := ended
  cases s with
  | settled result => exact hend
  | contended found => exact hend
  | _ => cases hfinal

/-- Neither does one where there is nothing to lock. -/
theorem isFreeOf_unlocked {w : World μ σ} (hfree : (k.shown w.medium).IsFreeOf own) :
    (k.shown (unlocked m op d now w).2.medium).IsFreeOf own := by
  obtain ⟨r, v, hload⟩ : ∃ r v, w.load m = (r, v) := ⟨_, _, rfl⟩
  have hread := h.isFreeOf_load hload hfree
  unfold unlocked
  rw [hload]
  dsimp only
  split
  · next result hresolve =>
    rcases h.save result (v.consult op now r.withoutLock).2 with hlock | hfree
    · exact Record.isFreeOf_of_lock?_eq_none (hlock.trans (Outcome.lock?_of_resolve hresolve))
    · exact hfree
  · exact h.wipe _
  · exact hread

end Attempt

/-! ## Queues -/

namespace Processor

variable (policy : LockPolicy) (tick : Nat) (isAwaited : Bool)

theorem isFreeOf_tryOnce (left : Nat) {w : World μ σ} (hfree : (k.shown w.medium).IsFreeOf own) :
    (k.shown (tryOnce m policy now tick op isAwaited left w).2.medium).IsFreeOf own := by
  cases left with
  | zero => exact hfree
  | succ left =>
    have hended := Attempt.isFreeOf_locked h op policy.expirationDelay now hfree
    simp only [tryOnce]
    generalize Attempt.locked m op policy.expirationDelay now w = ended at hended ⊢
    obtain ⟨found, v⟩ := ended
    cases found with
    | settled r => exact hended
    | contended found => exact hended

theorem isFreeOf_tryFirst {w : World μ σ} (hfree : (k.shown w.medium).IsFreeOf own) :
    (k.shown (tryFirst m policy now tick op isAwaited w).2.medium).IsFreeOf own := by
  unfold tryFirst
  split
  · exact isFreeOf_tryOnce h op now policy tick isAwaited policy.maxTries hfree
  · next hlocking =>
    unfold start
    rw [if_neg hlocking]
    exact Attempt.isFreeOf_unlocked h op policy.expirationDelay now hfree

/-- Between two tries no token is left. -/
theorem isFreeOf_tryNext (p : Processor σ) {w : World μ σ}
    (hfree : (k.shown w.medium).IsFreeOf own) :
    (k.shown (p.tryNext m now tick w).2.medium).IsFreeOf own := by
  have htries := tries_tryNext m now tick p w
  generalize p.tryNextActs m now tick w = acts at htries
  generalize p.tryNext m now tick w = x at htries ⊢
  cases htries with
  | waits => exact hfree
  | marks hpause hqueue => exact hfree
  | @resumes z hpause =>
    rw [world_proceed]
    exact isFreeOf_tryOnce h z.op now p.policy tick z.isAwaited z.triesLeft hfree
  | @begins op isAwaited jobs hpause hqueue =>
    rw [world_proceed]
    exact isFreeOf_tryFirst h op now p.policy tick isAwaited hfree

end Processor

end

end SharedSession
