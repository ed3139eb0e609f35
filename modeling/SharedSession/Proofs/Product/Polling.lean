import SharedSession.Proofs.Product.Alternation
import SharedSession.Proofs.Product.Cause
import SharedSession.Proofs.Product.Coexistence
import SharedSession.Proofs.Product.Mirror

set_option autoImplicit false

/-!
# Agreement after polling

Every product looks after the record from time to time: it has the record removed if there is no
live session in it, and compares its cache with the one that is. When all products have done so at
one moment and nothing else has happened meanwhile, they agree with the record and with one another,
whatever was stored before and whatever they had in their caches.

The writers make their calls in any order, so a look may be overtaken: a writer may put back, with
its token, a record that another one has just removed. But the session that is live in the cell is
the same all the time, since a record that is not active shows none, and so all of them compare with
the same one. And whoever has put a record back holds the lock, and will remove it again.

Main statements: `Product.hasSession_synchronize_iff`, `Contest.glance_callOn`,
`Gathering.polls_after`, `Gathering.agree_after_polling`.
-/

namespace SharedSession

/-! ## The session that is live -/

namespace Record

variable {r live : Record} {now : Timestamp} {timeOut : Span}

/-- What has been read shows a session as the live one. -/
structure Shows (r live : Record) (now : Timestamp) (timeOut : Span) : Prop where
  live : r.withoutLock.liveAt now timeOut = live
  plain : r.get? "" = none

theorem shows_ofStored (cell : Option String) (now : Timestamp) (timeOut : Span) :
    (ofStored cell).Shows ((ofStored cell).withoutLock.liveAt now timeOut) now timeOut :=
  ⟨rfl, get?_ofStored_empty cell⟩

/-- With a token the record shows the same. -/
theorem Shows.withLock (h : r.Shows live now timeOut) (token : String) :
    (ofStored (r.withLock token).stored).Shows live now timeOut := by
  refine ⟨?_, get?_ofStored_empty _⟩
  rw [ofStored_stored_withLock h.plain, withoutLock_withLock]
  exact h.live

theorem Shows.withoutLock_eq (h : r.Shows live now timeOut)
    (hactive : r.withoutLock.isActive now timeOut = true) : r.withoutLock = live := by
  rw [← h.live, liveAt_of_active hactive]

theorem Shows.eq_empty (h : r.Shows live now timeOut)
    (hdead : r.withoutLock.isActive now timeOut = false) : live = ∅ := by
  rw [← h.live, liveAt_of_inactive hdead]

/-- The live session is stored and seen as it is. -/
theorem Shows.ofStored_stored_live (h : r.Shows live now timeOut) :
    ofStored live.stored = live := by
  rw [ofStored_stored]
  refine erase_of_get?_eq_none ?_
  rw [← h.live, liveAt]
  split
  · rw [get?_withoutLock (by decide)]
    exact h.plain
  · exact get?_empty ""

/-- It holds no lock. -/
theorem Shows.withoutLock_live (h : r.Shows live now timeOut) : live.withoutLock = live := by
  refine erase_of_get?_eq_none ?_
  rw [← h.live, liveAt]
  split
  · exact lock?_withoutLock r
  · exact get?_empty lockKey

/-- It is the session that it shows itself. -/
theorem Shows.liveAt_live (h : r.Shows live now timeOut) : live.liveAt now timeOut = live := by
  rw [← h.live, liveAt_liveAt]

theorem Shows.shows_live (h : r.Shows live now timeOut) :
    (ofStored live.stored).Shows live now timeOut := by
  refine ⟨?_, get?_ofStored_empty _⟩
  rw [h.ofStored_stored_live, h.withoutLock_live, h.liveAt_live]

end Record

/-! ## Comparing the cache -/

namespace Product

variable {p : Product} {now : Timestamp} {r : Record}

/-- Only the session that is live in the record matters. -/
theorem synchronize_liveAt (p : Product) (now : Timestamp) (r : Record) :
    p.synchronize now (r.liveAt now p.timeOut) = p.synchronize now r := by
  unfold synchronize
  rw [Record.liveAt_liveAt]

/-- A product that has the live session in its cache keeps it. -/
theorem synchronize_eq_self {q : Product} (hcache : q.hasSession = true →
    q.cache = r.liveAt now q.timeOut) : q.synchronize now r = q := by
  cases hsession : q.hasSession with
  | false =>
    rw [synchronize, hsession]
    exact if_neg Bool.false_ne_true
  | true =>
    have hsame : q.isOutdatedBy q.cache = false := by
      rw [isOutdatedBy, bne_self_eq_false, bne_self_eq_false, Bool.or_self]
    rw [synchronize, hsession, ← hcache hsession, hsame]
    rfl

/-- A second comparison with the same record changes nothing. -/
theorem synchronize_synchronize (p : Product) (now : Timestamp) (r : Record) :
    (p.synchronize now r).synchronize now r = p.synchronize now r := by
  refine synchronize_eq_self fun hsession => ?_
  rw [timeOut_eq_of_traits (p.traits_synchronize now r)]
  exact cache_synchronize hsession

/-- A product has a session after a comparison exactly if it had one before and has found no end of
it in the record, and no new identifier. -/
theorem hasSession_synchronize_iff (hkey : Record.IsPlainKey p.key) :
    (p.synchronize now r).hasSession = true ↔
      p.hasSession = true ∧ ¬ p.EndsIn now r ∧ ¬ p.IsJoinedIn r := by
  constructor
  · intro hafter
    have hcache := cache_synchronize hafter
    rcases p.context_synchronize now r with ⟨s, hcontext, h⟩ | h
    · -- the live session is that of the cache, and it is one, so the record is active
      have hs : s = r.liveAt now p.timeOut := by
        rw [← hcache, h]
      obtain ⟨hid, hword⟩ := contextOf_eq_iff.1 hcontext
      rw [hs] at hid hword
      have hbefore : p.hasSession = true := by
        rw [h, hasSession_eq] at hafter
        rw [hasSession_eq, ← hword, ← hs]
        exact hafter
      have hcleared : (r.liveAt now p.timeOut).isCleared = false := by
        rw [hasSession_eq, ← hword] at hbefore
        obtain ⟨word, hsome⟩ := Option.isSome_iff_exists.1 hbefore
        exact Record.isCleared_eq_false hkey hsome
      have hactive : r.isActive now p.timeOut = true := by
        rw [← Bool.not_eq_false]
        intro hdead
        rw [Record.liveAt_of_inactive hdead, Record.isCleared_empty] at hcleared
        cases hcleared
      rw [Record.liveAt_of_active hactive] at hid hword hcleared
      refine ⟨hbefore, ?_, ?_⟩
      · rintro (hover | hdisowned | ⟨hold, hother⟩)
        · rcases Record.isOver_iff.1 hover with hdead | hover
          · rw [hactive] at hdead
            cases hdead
          · rw [hcleared] at hover
            cases hover
        · exact hdisowned hword
        · exact hother (hid.trans hold)
      · rintro ⟨hnone, hsome⟩
        rw [hid, hnone] at hsome
        cases hsome
    · rw [h] at hafter
      cases (hasSession_of_cache_eq_empty (p := p.expireCache now) rfl).symm.trans hafter
  · rintro ⟨hbefore, hends, hjoined⟩
    rcases p.context_synchronize now r with ⟨s, hcontext, h⟩ | h
    · rw [h, hasSession_eq]
      rw [hasSession_eq, ← (contextOf_eq_iff.1 hcontext).2] at hbefore
      exact hbefore
    · have hannounced : (p.synchronize now r).notices = .expired p.cache.id? :: p.notices := by
        rw [h]
        rfl
      rcases endsIn_of_synchronize hannounced rfl rfl with hend | hjoin
      · exact absurd hend hends
      · exact absurd hjoin hjoined

end Product

/-! ## A call of a writer that looks at the record -/

namespace Stage

/-- What a writer has in hand while it looks at the record: a record that shows the live session, or
that session itself, or the removal of a record that shows none. -/
def Looks (live : Record) (now : Timestamp) (timeOut : Span) (seen : Record) : Stage → Prop
  | .locking _ base => base.Shows live now timeOut
  | .rechecking token answer => seen.lock? = some token →
      answer = .clear ∧ live = ∅ ∨ answer = .unchanged ∧ seen.withoutLock = live
  | .writing _ _ => False
  | .clearing => live = ∅
  | .verifying token => seen.lock? = some token → seen.withoutLock = live
  | .releasing r => r = live
  | _ => True

/-- Whether the writer is to write next, or holds the lock. -/
def IsHolding (seen : Record) (s : Stage) : Prop :=
  s.isPoised = true ∨ ∃ token, s.awaited? = some token ∧ seen.lock? = some token

variable {live seen seen' : Record} {now : Timestamp} {timeOut : Span} {s : Stage}

theorem Looks.frame (h : s.Looks live now timeOut seen)
    (hlost : ∀ token ∈ s.awaited?, seen'.lock? ≠ some token) : s.Looks live now timeOut seen' := by
  cases s with
  | rechecking token answer => exact fun hheld => absurd hheld (hlost token rfl)
  | verifying token => exact fun hheld => absurd hheld (hlost token rfl)
  | _ => exact h

theorem not_isHolding_opening (seen : Record) : ¬ opening.IsHolding seen := by
  rintro (hpoised | ⟨token, hawaited, -⟩)
  · cases hpoised
  · cases hawaited

theorem not_isHolding_of_lost {token : String} (hawaited : s.awaited? = some token)
    (hlock : seen.lock? ≠ some token) : ¬ s.IsHolding seen := by
  rintro (hpoised | ⟨token', hawaited', hheld⟩)
  · cases s with
    | confirming t => cases hpoised
    | rechecking t answer => cases hpoised
    | verifying t => cases hpoised
    | _ => cases hawaited
  · obtain rfl := Option.some.inj (hawaited.symm.trans hawaited')
    exact hlock hheld

end Stage

/-- The answer to a look is that the record be removed if it shows no session, and else that it stay
as it is. -/
theorem Request.watch_answer {j : Nat} {own own' : List Product} {q : Product} {o : Occasion}
    {seen live : Record} {answer : Outcome} (hq : own[j]? = some q)
    (hseen : seen.Shows live o.now q.timeOut)
    (h : (Request.watch.operation.onIndex j).transform o seen.withoutLock own = (answer, own')) :
    own' = own ∧
      (answer = .clear ∧ live = ∅ ∨ answer = .unchanged ∧ seen.withoutLock = live) := by
  have hsame : own.set j q = own := by
    obtain ⟨hlt, rfl⟩ := List.getElem?_eq_some_iff.1 hq
    exact List.set_getElem_self hlt
  rw [Operation.transform_onIndex_of_some hq] at h
  have hanswers := Request.watch.answers_transform o seen.withoutLock q
  generalize Request.watch.operation.transform o seen.withoutLock q = x at hanswers h
  cases hanswers with
  | keeping hactive =>
    cases h
    exact ⟨hsame, .inr ⟨rfl, hseen.withoutLock_eq hactive⟩⟩
  | removing hdead =>
    cases h
    exact ⟨hsame, .inl ⟨rfl, hseen.eq_empty hdead⟩⟩

namespace Contest

variable {κ : Type} {live : Record} {now : Timestamp} {timeOut : Span} {j : Nat}
  {c : Contest κ (List Product)} {k : κ}

/-- What a writer does to itself and to the cell with a call when it is at a look for its `j`-th
product. -/
structure Glance (live : Record) (now : Timestamp) (timeOut : Span) (j : Nat)
    (c : Contest κ (List Product)) (k : κ) (x : Writer (List Product)) (cell : Option String)
    (ds : List Deed) : Prop where
  shows : (Record.ofStored cell).Shows live now timeOut
  hand : x.stage.Looks live now timeOut (Record.ofStored cell)
  /-- the product compares its cache with the live session when the look has settled -/
  own : (∀ r, .settled r ∉ ds) ∧ x.own = (c.writers k).own ∨
    (∃ r, .settled r ∈ ds) ∧ x.own = (c.writers k).own.modify j (·.synchronize now live)
  /-- what is in the cell is the writer's own, or the live session; or the writer had no part in it,
  and still has none -/
  last : x.stage.IsHolding (Record.ofStored cell) ∨ (Record.ofStored cell).withoutLock = live ∨
    ¬ (c.writers k).stage.IsHolding c.seen ∧ cell = c.cell ∧ ∀ r, .settled r ∉ ds

theorem settle_watch (now : Timestamp) (r : Record) (j : Nat) (own : List Product) :
    (Request.watch.operation.onIndex j).settle now r own
      = own.modify j (·.synchronize now r) :=
  Operation.settle_onIndex now r

/-- The last call of a look that removes the record. -/
theorem glance_clearing (policy : LockPolicy) (hempty : live = ∅) (timeOut : Span) (j : Nat)
    (c : Contest κ (List Product)) (k : κ) :
    Glance live now timeOut j c k
      ((c.writers k).next policy
        ((Request.watch.operation.onIndex j).settle now ∅ (c.writers k).own))
      none [.settled ∅, .wrote none] := by
  obtain rfl := hempty
  refine ⟨⟨?_, Record.get?_empty ""⟩, trivial, .inr ⟨⟨∅, by simp⟩, ?_⟩, .inr (.inl ?_)⟩
  · rw [Record.ofStored_none, Record.withoutLock, Record.erase_empty, Record.liveAt_empty]
  · exact settle_watch now ∅ j _
  · exact Record.erase_empty _

/-- The last call of a look that leaves the record. -/
theorem glance_releasing (policy : LockPolicy) (hcell : c.seen.Shows live now timeOut)
    {result : Record} (hlive : result = live) (j : Nat) (k : κ) :
    Glance live now timeOut j c k
      ((c.writers k).next policy
        ((Request.watch.operation.onIndex j).settle now result (c.writers k).own))
      result.stored [.settled result, .wrote result.stored] := by
  obtain rfl := hlive
  refine ⟨hcell.shows_live, trivial, .inr ⟨⟨result, by simp⟩, ?_⟩, .inr (.inl ?_)⟩
  · exact settle_watch now result j _
  · rw [hcell.ofStored_stored_live, hcell.withoutLock_live]

variable [DecidableEq κ] {work : Workload κ (List Product)} {q : Product}

/-- What becomes of the products. -/
theorem Glance.getElem?_put {x : Writer (List Product)} {cell : Option String} {ds : List Deed}
    (h : Glance live now timeOut j c k x cell ds) {names : Supply} {i : κ} {l : Nat} {p : Product}
    (hp : ((c.put k x cell names ds).writers i).own[l]? = some p) :
    (c.writers i).own[l]? = some p ∧ ¬ (i = k ∧ l = j ∧ ∃ r, .settled r ∈ ds) ∨
      i = k ∧ l = j ∧ ∃ q, (c.writers i).own[l]? = some q ∧ p = q.synchronize now live := by
  by_cases hik : i = k
  · subst hik
    rw [writers_put_self] at hp
    rcases h.own with ⟨hds, hown⟩ | ⟨-, hown⟩
    · rw [hown] at hp
      exact .inl ⟨hp, fun hmine => hmine.2.2.elim hds⟩
    · rw [hown, List.getElem?_modify] at hp
      by_cases hlj : l = j
      · obtain ⟨q, hq, rfl⟩ := Option.map_eq_some_iff.1 hp
        rw [if_pos hlj.symm]
        exact .inr ⟨rfl, hlj, q, hq, rfl⟩
      · refine .inl ⟨?_, fun hmine => hlj hmine.2.1⟩
        simpa [Ne.symm hlj] using hp
  · rw [writers_put_of_ne _ _ _ _ _ _ hik] at hp
    exact .inl ⟨hp, fun hmine => hik hmine.1⟩

theorem glance_call (hcurrent : c.current? work k = some (Request.watch.operation.onIndex j))
    (hengaged : Engaged work c) (hq : (c.writers k).own[j]? = some q)
    (htimeOut : q.timeOut = timeOut) (hcell : c.seen.Shows live now timeOut)
    (hhand : (c.writers k).stage.Looks live now timeOut c.seen) :
    ∃ x cell names ds, c.call work k now = c.put k x cell names ds ∧
      Glance live now timeOut j c k x cell ds := by
  have hop : ∀ {op s}, At work c k op s → op = Request.watch.operation.onIndex j := by
    intro op s hat
    rw [hat.current] at hcurrent
    exact Option.some.inj hcurrent
  have hstep := step_call work c k now
  generalize c.call work k now = c' at hstep ⊢
  cases hstep with
  | idle hidle =>
    rw [hidle] at hcurrent
    cases hcurrent
  | dropped _ htries =>
    refine ⟨_, _, _, _, rfl, hcell, trivial, .inl ⟨by simp, rfl⟩, .inr (.inr ⟨?_, rfl, by simp⟩)⟩
    intro hholding
    by_cases hopening : (c.writers k).stage = .opening
    · rw [hopening] at hholding
      exact Stage.not_isHolding_opening _ hholding
    · obtain ⟨op, hat⟩ := hengaged k hopening
      exact hat.hasTries htries
  | gaveWay hat =>
    refine ⟨_, _, _, _, rfl, hcell, trivial, .inl ⟨by simp, rfl⟩, .inr (.inr ⟨?_, rfl, by simp⟩)⟩
    rw [hat.stage]
    exact Stage.not_isHolding_opening _
  | opened hat =>
    exact ⟨_, _, _, _, rfl, hcell, hcell, .inl ⟨by simp, rfl⟩, .inl (.inl rfl)⟩
  | locked hat =>
    rw [hat.stage] at hhand
    refine ⟨_, _, _, _, rfl, hhand.withLock _, trivial, .inl ⟨by simp, rfl⟩, .inl (.inr ?_)⟩
    exact ⟨_, rfl, Record.lock?_ofStored_withLock _ _⟩
  | lost hat hawaited hlock =>
    refine ⟨_, _, _, _, rfl, hcell, trivial, .inl ⟨by simp, rfl⟩, .inr (.inr ⟨?_, rfl, by simp⟩)⟩
    rw [hat.stage]
    exact Stage.not_isHolding_of_lost hawaited hlock
  | @consulted op token answer w hat hlock hanswer =>
    obtain rfl := hop hat
    cases hanswer
    obtain ⟨hown, hwatch⟩ := Request.watch_answer (o := ⟨now, c.names.next⟩) hq
      (by rw [htimeOut]; exact hcell) rfl
    exact ⟨_, _, _, _, rfl, hcell, fun _ => hwatch, .inl ⟨by simp, hown⟩,
      .inl (.inr ⟨token, rfl, hlock⟩)⟩
  | @decided op token answer hat hlock =>
    rw [hat.stage] at hhand
    rcases hhand hlock with ⟨rfl, hempty⟩ | ⟨rfl, hlive⟩
    · exact ⟨_, _, _, _, rfl, hcell, hempty, .inl ⟨by simp, rfl⟩, .inl (.inl rfl)⟩
    · exact ⟨_, _, _, _, rfl, hcell, fun _ => hlive, .inl ⟨by simp, rfl⟩,
        .inl (.inr ⟨token, rfl, hlock⟩)⟩
  | wrote hat =>
    rw [hat.stage] at hhand
    exact hhand.elim
  | cleared hat =>
    obtain rfl := hop hat
    rw [hat.stage] at hhand
    exact ⟨_, _, _, _, rfl, glance_clearing _ hhand timeOut j c k⟩
  | verified hat hlock =>
    rw [hat.stage] at hhand
    exact ⟨_, _, _, _, rfl, hcell, hhand hlock, .inl ⟨by simp, rfl⟩, .inl (.inl rfl)⟩
  | released hat =>
    obtain rfl := hop hat
    rw [hat.stage] at hhand
    exact ⟨_, _, _, _, rfl, glance_releasing _ hcell hhand j k⟩

theorem glance_callUnlocked
    (hcurrent : c.current? work k = some (Request.watch.operation.onIndex j))
    (hq : (c.writers k).own[j]? = some q) (htimeOut : q.timeOut = timeOut)
    (hcell : c.seen.Shows live now timeOut)
    (hhand : (c.writers k).stage.Looks live now timeOut c.seen) :
    ∃ x cell names ds, c.callUnlocked work k now = c.put k x cell names ds ∧
      Glance live now timeOut j c k x cell ds := by
  cases hsettling : (c.writers k).stage.isSettling with
  | true =>
    cases hstage : (c.writers k).stage with
    | clearing =>
      rw [hstage] at hhand
      exact ⟨_, _, _, _, callUnlocked_of_clearing hcurrent hstage now,
        glance_clearing _ hhand timeOut j c k⟩
    | releasing result =>
      rw [hstage] at hhand
      exact ⟨_, _, _, _, callUnlocked_of_releasing hcurrent hstage now,
        glance_releasing _ hcell hhand j k⟩
    | _ => rw [hstage] at hsettling; cases hsettling
  | false =>
    obtain ⟨answer, own, htransform⟩ : ∃ answer own,
        (Request.watch.operation.onIndex j).transform ⟨now, c.names.next⟩ c.seen.withoutLock
          (c.writers k).own = (answer, own) := ⟨_, _, rfl⟩
    obtain ⟨rfl, hwatch⟩ := Request.watch_answer hq (by rw [htimeOut]; exact hcell) htransform
    have hask := (callUnlocked_of_asking hcurrent hsettling now).trans (ask_eq htransform)
    refine ⟨_, _, _, _, hask, ?_⟩
    rcases hwatch with ⟨rfl, hempty⟩ | ⟨rfl, hlive⟩
    · exact ⟨hcell, hempty, .inl ⟨by simp [Deed.heeding, Outcome.resolve], rfl⟩, .inl (.inl rfl)⟩
    · have hsettled : .settled c.seen.withoutLock ∈
          Deed.heeding c.seen.withoutLock (Outcome.unchanged.resolve now
            (work.policy k).expirationDelay) ++
            [.decided now, .asked c.seen.withoutLock .unchanged, .opened c.seen] := by
        simp [Deed.heeding, Outcome.resolve]
      refine ⟨hcell, trivial, .inr ⟨⟨_, hsettled⟩, ?_⟩, .inr (.inl hlive)⟩
      rw [← hlive]
      exact settle_watch now c.seen.withoutLock j _

/-- A call of a writer that looks at the record changes nothing in the session that is live. -/
theorem glance_callOn (hcurrent : c.current? work k = some (Request.watch.operation.onIndex j))
    (locking : Bool) (hengaged : locking = true → Engaged work c)
    (hq : (c.writers k).own[j]? = some q) (htimeOut : q.timeOut = timeOut)
    (hcell : c.seen.Shows live now timeOut)
    (hhand : (c.writers k).stage.Looks live now timeOut c.seen) :
    ∃ x cell names ds, c.callOn locking work k now = c.put k x cell names ds ∧
      Glance live now timeOut j c k x cell ds := by
  cases locking with
  | true => exact glance_call hcurrent (hengaged rfl) hq htimeOut hcell hhand
  | false => exact glance_callUnlocked hcurrent hq htimeOut hcell hhand

end Contest

/-! ## Products that look at the record -/

namespace Gathering

open Contest

variable {κ : Type} {g : Gathering κ} {c : Contest κ (List Product)} {now : Timestamp}
  {timeOut : Span} {live : Record} {k : κ}

/-- A look at the record for a product has settled. -/
def HasLooked (g : Gathering κ) (c : Contest κ (List Product)) (i : κ) (j : Nat) : Prop :=
  ∃ n, (i, n) ∈ c.settled ∧ (g.agenda i)[n]? = some (j, .watch)

/-- All that the writers are to do is to look at the record, each for products of its own. -/
def IsPolling (g : Gathering κ) : Prop :=
  ∀ i, ∀ e ∈ g.agenda i, e.2 = .watch ∧ e.1 < (g.products i).length

/-- The writers look at the record, in which one session is the live one all the time. -/
structure Polls (g : Gathering κ) (now : Timestamp) (timeOut : Span) (live : Record)
    (c : Contest κ (List Product)) : Prop where
  rightful : c.Rightful
  engaged : g.locking = true → Engaged g.work c
  cell : c.seen.Shows live now timeOut
  hands : ∀ i, (c.writers i).stage.Looks live now timeOut c.seen
  /-- once a look has settled, the live session is in the cell, or else somebody holds the lock -/
  last : c.seen.withoutLock = live ∨ (∃ i, (c.writers i).stage.IsHolding c.seen) ∨ c.settled = ∅
  same : ∀ i, traitsOf (c.writers i).own = traitsOf (g.products i)
  /-- the products that have looked have compared their caches with the live session -/
  own : ∀ i j q, (c.writers i).own[j]? = some q → ∃ p, (g.products i)[j]? = some p ∧
    (q = p.synchronize now live ∨ q = p ∧ ¬ g.HasLooked c i j)

theorem polls_first (g : Gathering κ) (now : Timestamp) (timeOut : Span) :
    g.Polls now timeOut ((Record.ofStored g.cell).withoutLock.liveAt now timeOut) g.first where
  rightful := rightful_start _ _ _ _
  engaged _ := engaged_start _ _ _ _
  cell := Record.shows_ofStored g.cell now timeOut
  hands _ := trivial
  last := by
    refine .inr (.inr (Set.eq_empty_iff_forall_notMem.2 ?_))
    rintro t ⟨r, hmem⟩
    cases hmem
  same _ := rfl
  own i j q hq := by
    refine ⟨q, hq, .inr ⟨rfl, ?_⟩⟩
    rintro ⟨n, ⟨r, hmem⟩, -⟩
    cases hmem

variable [DecidableEq κ]

/-- Who has looked after a call of a writer that looks for a product. -/
theorem hasLooked_put {x : Writer (List Product)} {cell : Option String} {names : Supply}
    {ds : List Deed} {j : Nat} (hrequest : c.request? g.agenda k = some (j, .watch)) {i : κ}
    {l : Nat} (h : g.HasLooked (c.put k x cell names ds) i l) :
    g.HasLooked c i l ∨ i = k ∧ l = j ∧ ∃ r, .settled r ∈ ds := by
  obtain ⟨n, ⟨r, hmem⟩, hn⟩ := h
  rcases mem_journal_put.1 hmem with ⟨heq, hnew⟩ | hold
  · cases heq
    rw [request?, hn] at hrequest
    cases hrequest
    exact .inr ⟨rfl, rfl, r, hnew⟩
  · exact .inl ⟨n, ⟨r, hold⟩, hn⟩

theorem Polls.callOn (h : g.Polls now timeOut live c) (hpolling : g.IsPolling)
    (hproducts : ∀ i, ∀ p ∈ g.products i, p.IsProper timeOut) (htokens : c.tokens.Nodup) (k : κ) :
    g.Polls now timeOut live (c.callOn g.locking g.work k now) := by
  cases hrequest : c.request? g.agenda k with
  | none =>
    have hidle : c.current? g.work k = none := by
      rw [work, current?_ofRequests, hrequest]
      rfl
    rwa [callOn_of_idle hidle]
  | some e =>
    obtain ⟨hwatch, hlt⟩ := hpolling k e (List.mem_of_getElem? hrequest)
    obtain ⟨j, request⟩ := e
    obtain rfl : request = .watch := hwatch
    obtain ⟨q, hq⟩ : ∃ q, (c.writers k).own[j]? = some q := by
      have hlength := congrArg List.length (h.same k)
      rw [traitsOf, traitsOf, List.length_map, List.length_map] at hlength
      exact ⟨_, List.getElem?_eq_getElem (hlength.symm ▸ hlt)⟩
    have htimeOut : q.timeOut = timeOut := by
      obtain ⟨p, hp, htraits⟩ := exists_of_traitsOf_eq (h.same k) hq
      exact ((hproducts k p (List.mem_of_getElem? hp)).of_traits htraits.symm).timeOut
    have hframe : ∀ i, i ≠ k → (c.callOn g.locking g.work k now).cell = c.cell ∨
        ∀ token ∈ (c.writers i).stage.awaited?,
          (c.callOn g.locking g.work k now).seen.lock? ≠ some token :=
      fun i hik => h.rightful.lock?_ne_of_cell_ne htokens hik g.locking now
    have hrightful : (c.callOn g.locking g.work k now).Rightful := h.rightful.callOn g.locking now
    have hengaged : g.locking = true → Engaged g.work (c.callOn g.locking g.work k now) := by
      intro hlocking
      rw [hlocking]
      exact engaged_call (h.engaged hlocking) k now
    have hsame : ∀ i, traitsOf ((c.callOn g.locking g.work k now).writers i).own
        = traitsOf (g.products i) :=
      fun i => (traitsOf_callOn g.locking c k now i).trans (h.same i)
    obtain ⟨x, cell, names, ds, heq, hglance⟩ := glance_callOn (current?_work hrequest) g.locking
      h.engaged hq htimeOut h.cell (h.hands k)
    rw [heq] at hframe hrightful hengaged hsame ⊢
    refine ⟨hrightful, hengaged, hglance.shows, fun i => ?_, ?_, hsame, fun i l p hp => ?_⟩
    · by_cases hik : i = k
      · rw [hik, writers_put_self]
        exact hglance.hand
      · rw [writers_put_of_ne _ _ _ _ _ _ hik]
        rcases hframe i hik with hcell | hlost
        · rw [show (c.put k x cell names ds).seen = c.seen from congrArg Record.ofStored hcell]
          exact h.hands i
        · exact (h.hands i).frame hlost
    · rcases hglance.last with hholding | hlive | ⟨hnot, hcell, hds⟩
      · exact .inr (.inl ⟨k, by rw [writers_put_self]; exact hholding⟩)
      · exact .inl hlive
      · rw [settled_put_of_not_settled hds, seen_put, hcell]
        refine h.last.imp_right (Or.imp_left ?_)
        rintro ⟨i, hi⟩
        have hik : i ≠ k := by
          rintro rfl
          exact hnot hi
        exact ⟨i, by rwa [writers_put_of_ne _ _ _ _ _ _ hik]⟩
    · rcases hglance.getElem?_put hp with ⟨hold, hnot⟩ | ⟨rfl, rfl, q', hq', rfl⟩
      · obtain ⟨p₀, hp₀, hstate⟩ := h.own i l p hold
        refine ⟨p₀, hp₀, hstate.imp_right fun hrest => ⟨hrest.1, fun hlooked => ?_⟩⟩
        exact (hasLooked_put hrequest hlooked).elim hrest.2 hnot
      · obtain ⟨p₀, hp₀, hstate⟩ := h.own i _ q' hq'
        refine ⟨p₀, hp₀, .inl ?_⟩
        rcases hstate with rfl | ⟨rfl, -⟩
        · exact p₀.synchronize_synchronize now live
        · rfl

theorem polls_after (hpolling : g.IsPolling)
    (hproducts : ∀ i, ∀ p ∈ g.products i, p.IsProper timeOut) (calls : List κ)
    (h : g.Polls now timeOut live c)
    (htokens : (c.runOn g.locking g.work (calls.map (.call · now))).tokens.Nodup) :
    g.Polls now timeOut live (c.runOn g.locking g.work (calls.map (.call · now))) := by
  induction calls generalizing c with
  | nil => exact h
  | cons k calls ih =>
    have hrun : (c.runOn g.locking g.work (.call k now :: calls.map (.call · now))).tokens.Nodup :=
      htokens
    exact ih (h.callOn hpolling hproducts (nodup_tokens_of_runOn hrun) k) htokens

/-- Tabs agree after polling. Products with a common time-out look at the record at one moment, call
by call and in any order, each of them as often as it likes, and nothing else happens meanwhile.
What was in the cell and in the caches before does not matter. If a look of each product has
settled, and nobody is in the middle of another one, then the cell is empty or the session in it is
active, and every product that has a session has the record that is stored, but for the lock; so all
of them have the same identifier. These are the products that had a session and have found no end of
it in the cell -- their session was neither removed nor timed out nor replaced -- and no identifier
where there had been none. -/
theorem agree_after_polling (g : Gathering κ) (hpolling : g.IsPolling) (timeOut : Span)
    (hproducts : ∀ i, ∀ p ∈ g.products i, p.IsProper timeOut) (hsome : ∃ i, g.products i ≠ [])
    (now : Timestamp) (calls : List κ) (c : Contest κ (List Product))
    (hc : c = g.after (calls.map (.call · now))) (htokens : c.tokens.Nodup)
    (hlooked : ∀ i, ∀ j < (g.products i).length, g.HasLooked c i j)
    (hresting : ∀ i, (c.writers i).stage = .opening) :
    (c.seen = ∅ ∨ c.seen.isActive now timeOut = true) ∧
    (∀ i, ∀ q ∈ (c.writers i).own, q.hasSession = true → q.cache = c.seen.withoutLock) ∧
    (∀ i₁, ∀ q₁ ∈ (c.writers i₁).own, ∀ i₂, ∀ q₂ ∈ (c.writers i₂).own,
      q₁.hasSession = true → q₂.hasSession = true → q₁.cache.id? = q₂.cache.id?) ∧
    ∀ i (j : Nat) (p q : Product), (g.products i)[j]? = some p → (c.writers i).own[j]? = some q →
      (q.hasSession = true ↔ p.hasSession = true ∧
        ¬ p.EndsIn now (Record.ofStored g.cell).withoutLock ∧
        ¬ p.IsJoinedIn (Record.ofStored g.cell).withoutLock) := by
  have hpolls : g.Polls now timeOut
      ((Record.ofStored g.cell).withoutLock.liveAt now timeOut) c := by
    rw [hc] at htokens ⊢
    exact polls_after hpolling hproducts calls (g.polls_first now timeOut) htokens
  have hseen : c.seen.withoutLock = (Record.ofStored g.cell).withoutLock.liveAt now timeOut := by
    rcases hpolls.last with hlive | ⟨i, hholding⟩ | hnobody
    · exact hlive
    · rw [hresting i] at hholding
      exact absurd hholding (Stage.not_isHolding_opening _)
    · obtain ⟨i, hi⟩ := hsome
      obtain ⟨n, hsettled, -⟩ := hlooked i 0 (List.length_pos_iff.2 hi)
      rw [hnobody] at hsettled
      exact absurd hsettled (Set.notMem_empty _)
  have hcompared : ∀ i (j : Nat) (q : Product), (c.writers i).own[j]? = some q →
      ∃ p : Product, (g.products i)[j]? = some p ∧ p.IsProper timeOut ∧
        q = p.synchronize now (Record.ofStored g.cell).withoutLock := by
    intro i j q hq
    obtain ⟨p, hp, hstate⟩ := hpolls.own i j q hq
    have hproper := hproducts i p (List.mem_of_getElem? hp)
    refine ⟨p, hp, hproper, ?_⟩
    rcases hstate with hcompared | ⟨-, hnot⟩
    · rw [hcompared, ← hproper.timeOut, Product.synchronize_liveAt]
    · exact absurd (hlooked i j (List.getElem?_eq_some_iff.1 hp).1) hnot
  have hcache : ∀ i, ∀ q ∈ (c.writers i).own, q.hasSession = true →
      q.cache = c.seen.withoutLock := by
    intro i q hq hsession
    obtain ⟨j, hj⟩ := List.mem_iff_getElem?.1 hq
    obtain ⟨p, -, hproper, rfl⟩ := hcompared i j q hj
    rw [hseen, ← hproper.timeOut]
    exact Product.cache_synchronize hsession
  refine ⟨.inr ?_, hcache, ?_, ?_⟩
  · rw [← Record.isActive_withoutLock, hseen]
    exact Record.isActive_liveAt _ now timeOut
  · intro i₁ q₁ hq₁ i₂ q₂ hq₂ hsession₁ hsession₂
    rw [hcache i₁ q₁ hq₁ hsession₁, hcache i₂ q₂ hq₂ hsession₂]
  · intro i j p q hp hq
    obtain ⟨p', hp', hproper, rfl⟩ := hcompared i j q hq
    obtain rfl := Option.some.inj (hp.symm.trans hp')
    exact Product.hasSession_synchronize_iff hproper.key.toIsPlainKey

/-- Two tabs over a session with the identifier `x`. The first one has a product that follows it and
one whose session had another identifier, the second one a product with an earlier state of the same
session in its cache. -/
def pollingTabs : Gathering Bool where
  locking := true
  policy _ := ⟨.ofMillis 10, 2, .ofMillis 900⟩
  agenda
    | false => [(0, .watch), (1, .watch)]
    | true => [(0, .watch)]
  cell := some "a=1&b=1&c=1&created=0&expire=10&id=x&w=2"
  names := .tallies
  products
    | false =>
      [.new "a" (fun _ _ => .sampledIn) (.ofMillis 900) .epoch
          (Record.ofList [("a", "1"), ("id", "x")]),
        .new "b" (fun _ _ => .sampledIn) (.ofMillis 900) .epoch
          (Record.ofList [("b", "1"), ("id", "y")])]
    | true =>
      [.new "c" (fun _ _ => .sampledIn) (.ofMillis 900) .epoch
          (Record.ofList [("a", "0"), ("c", "1"), ("id", "x")])]

/-- Both tabs read the record; then the second one takes the lock over from the first, which has to
try again. -/
def overtaking : List Bool :=
  [false, true, false, true, false] ++ List.replicate 4 true ++ List.replicate 12 false

/-- The tabs when all of them have looked at the record. -/
def polledTabs : Contest Bool (List Product) :=
  pollingTabs.after (overtaking.map (.call · (Timestamp.epoch.add 5)))

theorem agree_after_polling_overtaking :
    (polledTabs.seen = ∅ ∨
      polledTabs.seen.isActive (Timestamp.epoch.add 5) (.ofMillis 900) = true) ∧
    (∀ q, (polledTabs.writers false).own[0]? = some q → q.cache = polledTabs.seen.withoutLock) ∧
    (∀ q, (polledTabs.writers false).own[1]? = some q → q.hasSession = false) ∧
    ∀ q₁ ∈ (polledTabs.writers false).own, ∀ q₂ ∈ (polledTabs.writers true).own,
      q₁.hasSession = true → q₂.hasSession = true → q₁.cache.id? = q₂.cache.id? := by
  have hpolling : pollingTabs.IsPolling := by
    intro i
    cases i <;> decide
  have hproducts : ∀ i, ∀ p ∈ pollingTabs.products i, p.IsProper (.ofMillis 900) := by
    intro i p hp
    cases i with
    | false =>
      rcases List.mem_pair.1 hp with rfl | rfl
      · exact ⟨by decide, rfl⟩
      · exact ⟨by decide, rfl⟩
    | true =>
      obtain rfl := List.mem_singleton.1 hp
      exact ⟨by decide, rfl⟩
  have hlooked : ∀ i, ∀ j < (pollingTabs.products i).length,
      pollingTabs.HasLooked polledTabs i j := by
    have hstored : ∀ t ∈ [(false, 0), (false, 1), (true, 0)],
        (t, Deed.settled (Record.ofStored pollingTabs.cell)) ∈ polledTabs.journal := by
      decide +kernel
    have hagenda : ∀ i, ∀ j < (pollingTabs.products i).length,
        (i, j) ∈ [(false, 0), (false, 1), (true, 0)] ∧
          (pollingTabs.agenda i)[j]? = some (j, .watch) := by decide
    intro i j hj
    obtain ⟨hmem, hrequest⟩ := hagenda i j hj
    exact ⟨j, ⟨_, hstored (i, j) hmem⟩, hrequest⟩
  obtain ⟨hactive, hcache, hids, hiff⟩ := agree_after_polling pollingTabs hpolling (.ofMillis 900)
    hproducts ⟨true, List.cons_ne_nil _ _⟩ (Timestamp.epoch.add 5) overtaking polledTabs rfl
    (by decide +kernel) hlooked (by decide +kernel)
  refine ⟨hactive, fun q hq => ?_, fun q hq => ?_, fun q₁ hq₁ q₂ hq₂ =>
    hids false q₁ hq₁ true q₂ hq₂⟩
  · refine hcache false q (List.mem_of_getElem? hq) ((hiff false 0 _ q rfl hq).2 ⟨?_, ?_, ?_⟩)
    · decide +kernel
    · decide +kernel
    · unfold Product.IsJoinedIn
      decide +kernel
  · -- the session that the product had was another one
    rw [← Bool.not_eq_true, hiff false 1 _ q rfl hq]
    rintro ⟨-, hgoes, -⟩
    exact hgoes (by decide +kernel)

end Gathering

end SharedSession
