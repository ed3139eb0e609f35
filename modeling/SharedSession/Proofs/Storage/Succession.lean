import SharedSession.Proofs.Record.Liveness
import SharedSession.Proofs.Storage.Logbook

set_option autoImplicit false

/-!
# The succession of sessions in a log

A log is lawful if whatever was left in the cell had no identifier, or went on with the session that
was there, or was the first of a new session; and if a session that was not active got no new
deadline. In a lawful log a session keeps its date of creation, and what was over has not come back.

Main statements: `IsLawful.created_eq`, `IsLawful.inactive_of_ended`,
`Logbook.IsLawful.leaveAll_contents`.
-/

namespace SharedSession

/-! ## The life of a session -/

/-- Which session a record is of, and the two dates that decide how long it lives. -/
structure Life where
  id : Option String
  created : Option String
  expire : Option String

namespace Record

/-- Which session the record is of, and its two dates. -/
def life (r : Record) : Life := ⟨r.id?, r.get? createdKey, r.get? expireKey⟩

@[simp] theorem life_withLock (r : Record) (token : String) :
    (r.withLock token).life = r.life := by
  unfold life id?
  rw [get?_withLock (by decide), get?_withLock (by decide), get?_withLock (by decide)]

@[simp] theorem life_withoutLock (r : Record) : r.withoutLock.life = r.life := by
  unfold life id?
  rw [get?_withoutLock (by decide), get?_withoutLock (by decide), get?_withoutLock (by decide)]

@[simp] theorem life_erase_empty (r : Record) : (r.erase "").life = r.life := by
  have hid : "" ≠ idKey := by decide
  have hcreated : "" ≠ createdKey := by decide
  have hexpire : "" ≠ expireKey := by decide
  unfold life id?
  rw [get?_erase, if_neg hid, get?_erase, if_neg hcreated, get?_erase, if_neg hexpire]

@[simp] theorem life_ofStored_stored (r : Record) : (ofStored r.stored).life = r.life := by
  rw [ofStored_stored, life_erase_empty]

theorem isActive_of_life {r s : Record} (h : r.life = s.life) (now : Timestamp) (timeOut : Span) :
    r.isActive now timeOut = s.isActive now timeOut :=
  isActive_congr (congrArg Life.created h) (congrArg Life.expire h) now timeOut

/-- The record goes on with the session of another: it has its identifier and its date of creation,
and a new deadline only if the other was active. -/
structure Continues (r s : Record) (now : Timestamp) (timeOut : Span) : Prop where
  id : r.id? = s.id?
  created : r.get? createdKey = s.get? createdKey
  deadline : r.get? expireKey = s.get? expireKey ∨ s.isActive now timeOut = true

theorem continues_of_life {r s : Record} (h : r.life = s.life) (now : Timestamp)
    (timeOut : Span) : r.Continues s now timeOut where
  id := congrArg Life.id h
  created := congrArg Life.created h
  deadline := .inl (congrArg Life.expire h)

theorem Continues.congr {r r' s s' : Record} {now : Timestamp} {timeOut : Span}
    (h : r.Continues s now timeOut) (hr : r'.life = r.life) (hs : s'.life = s.life) :
    r'.Continues s' now timeOut where
  id := (congrArg Life.id hr).trans (h.id.trans (congrArg Life.id hs).symm)
  created := (congrArg Life.created hr).trans (h.created.trans (congrArg Life.created hs).symm)
  deadline := by
    rw [isActive_of_life hs]
    rcases h.deadline with hsame | hactive
    · refine .inl ?_
      exact (congrArg Life.expire hr).trans (hsame.trans (congrArg Life.expire hs).symm)
    · exact .inr hactive

/-- The session of an inactive record goes on as dead as it was. -/
theorem Continues.isActive_eq_false {r s : Record} {now u : Timestamp} {timeOut : Span}
    (h : r.Continues s now timeOut) (hdead : s.isActive u timeOut = false) (hle : u ≤ now) :
    r.isActive u timeOut = false := by
  rcases h.deadline with hsame | hactive
  · rw [isActive_congr h.created hsame]
    exact hdead
  · rw [isActive_antitone hle hactive] at hdead
    cases hdead

end Record

/-! ## Lawful logs -/

/-- Whether a deposit may be left on top of others, the latest of which comes first. -/
inductive Deposit.Follows (timeOut : Span) (x : Deposit) : List Deposit → Prop where
  | anonymous {past : List Deposit} (h : x.record.id? = none) : Follows timeOut x past
  | onward {y : Deposit} {past : List Deposit}
      (h : x.record.Continues y.record x.moment timeOut) : Follows timeOut x (y :: past)
  | anew {past : List Deposit} (h : ∀ y ∈ past, y.record.id? ≠ x.record.id?) :
      Follows timeOut x past

/-- Every deposit could be left where it was left. -/
def IsLawful (timeOut : Span) : List Deposit → Prop
  | [] => True
  | x :: past => x.Follows timeOut past ∧ IsLawful timeOut past

namespace IsLawful

variable {timeOut : Span} {log : List Deposit}

/-- A session has one date of creation. -/
theorem created_eq (h : IsLawful timeOut log) {id : String} :
    ∀ x ∈ log, ∀ y ∈ log, x.record.id? = some id → y.record.id? = some id →
      x.record.get? Record.createdKey = y.record.get? Record.createdKey := by
  induction log with
  | nil =>
    intro x hx
    cases hx
  | cons z past ih =>
    obtain ⟨hfollows, hpast⟩ := h
    have hlatest : ∀ y ∈ past, z.record.id? = some id → y.record.id? = some id →
        z.record.get? Record.createdKey = y.record.get? Record.createdKey := by
      intro y hy hz hid
      cases hfollows with
      | anonymous hnone =>
        rw [hnone] at hz
        cases hz
      | onward hcontinues =>
        rw [hcontinues.created]
        exact ih hpast _ List.mem_cons_self y hy (hcontinues.id.symm.trans hz) hid
      | anew hnew => exact absurd (hid.trans hz.symm) (hnew y hy)
    intro x hx y hy hxid hyid
    cases hx with
    | head =>
      cases hy with
      | head => rfl
      | tail _ hy => exact hlatest y hy hxid hyid
    | tail _ hx =>
      cases hy with
      | head => exact (hlatest x hx hyid hxid).symm
      | tail _ hy => exact ih hpast x hx y hy hxid hyid

/-- A session that was covered by something else, or was not active at some moment, is not active in
anything that was left from that moment on. -/
theorem inactive_of_ended {later earlier : List Deposit} {e : Deposit} {id : String}
    {u : Timestamp} (h : IsLawful timeOut (later ++ e :: earlier))
    (hid : ∃ y ∈ e :: earlier, y.record.id? = some id)
    (hended : e.record.id? = some id → e.record.isActive u timeOut = false)
    (hlater : ∀ x ∈ later, u ≤ x.moment) :
    ∀ x ∈ later, x.record.id? = some id → x.record.isActive u timeOut = false := by
  induction later with
  | nil =>
    intro x hx
    cases hx
  | cons z later ih =>
    have hfollows : z.Follows timeOut (later ++ e :: earlier) := h.1
    have hpast : IsLawful timeOut (later ++ e :: earlier) := h.2
    have hbefore : ∀ x ∈ later, x.record.id? = some id → x.record.isActive u timeOut = false :=
      ih hpast fun x hx => hlater x (List.mem_cons_of_mem z hx)
    intro x hx hxid
    cases hx with
    | head =>
      generalize hlog : later ++ e :: earlier = log at hfollows
      cases hfollows with
      | anonymous hnone =>
        rw [hnone] at hxid
        cases hxid
      | @onward y past hcontinues =>
        have hyid : y.record.id? = some id := hcontinues.id.symm.trans hxid
        refine hcontinues.isActive_eq_false ?_ (hlater z List.mem_cons_self)
        -- what the deposit covers is the one that ended the session, or a later one
        cases later with
        | nil =>
          cases hlog
          exact hended hyid
        | cons z' later =>
          cases hlog
          exact hbefore y List.mem_cons_self hyid
      | anew hnew =>
        obtain ⟨y, hy, hyid⟩ := hid
        subst hlog
        exact absurd (hyid.trans hxid.symm) (hnew y (List.mem_append_right later hy))
    | tail _ hx => exact hbefore x hx hxid

end IsLawful

/-! ## What may be left in a cell -/

namespace Logbook

variable {timeOut : Span} {l : Logbook} {r s : Record}

/-- What was seen last, if anything was left. -/
theorem seen_eq (l : Logbook) :
    l.deposits = [] ∧ l.seen = ∅ ∨ ∃ y past, l.deposits = y :: past ∧ l.seen = y.record := by
  obtain ⟨clock, deposits⟩ := l
  cases deposits with
  | nil => exact .inl ⟨rfl, rfl⟩
  | cons y past => exact .inr ⟨y, past, rfl, rfl⟩

/-- Whether a record may be stored. -/
def Admits (l : Logbook) (timeOut : Span) (r : Record) : Prop :=
  r.id? = none ∨ (∀ y ∈ l.deposits, y.record.id? ≠ r.id?) ∨ r.Continues l.seen l.clock timeOut

theorem admits_of_life (h : r.life = l.seen.life) : l.Admits timeOut r :=
  .inr (.inr (Record.continues_of_life h l.clock timeOut))

theorem Admits.congr (h : l.Admits timeOut r) (hlife : s.life = r.life) : l.Admits timeOut s := by
  have hid : s.id? = r.id? := congrArg Life.id hlife
  unfold Admits
  rw [hid]
  rcases h with hnone | hnew | hcontinues
  · exact .inl hnone
  · exact .inr (.inl hnew)
  · exact .inr (.inr (hcontinues.congr hlife rfl))

/-- What may be stored may still be stored when a lock has been put on. -/
theorem Admits.leave_withLock (h : l.Admits timeOut r) (token : String) :
    (l.leave (l.seen.withLock token).stored).Admits timeOut r := by
  have hseen : (l.leave (l.seen.withLock token).stored).seen.life = l.seen.life := by
    show (Record.ofStored (l.seen.withLock token).stored).life = _
    rw [Record.life_ofStored_stored, Record.life_withLock]
  rcases h with hnone | hnew | hcontinues
  · exact .inl hnone
  · cases hid : r.id? with
    | none => exact .inl hid
    | some id =>
      refine .inr (.inl ?_)
      intro y hy
      rcases List.mem_cons.1 hy with rfl | hy
      · have hy : (Record.ofStored (l.seen.withLock token).stored).id? = l.seen.id? :=
          congrArg Life.id hseen
        show (Record.ofStored (l.seen.withLock token).stored).id? ≠ r.id?
        rw [hy]
        rcases seen_eq l with ⟨-, hempty⟩ | ⟨x, past, hdeposits, hx⟩
        · rw [hempty, hid]
          show (∅ : Record).get? Record.idKey ≠ some id
          rw [Record.get?_empty]
          exact nofun
        · rw [hx]
          exact hnew x (by rw [hdeposits]; exact List.mem_cons_self)
      · exact hnew y hy
  · exact .inr (.inr (hcontinues.congr rfl hseen))

/-- Whether everything could be left where it was left. -/
def IsLawful (l : Logbook) (timeOut : Span) : Prop := SharedSession.IsLawful timeOut l.deposits

theorem IsLawful.leave_none (h : l.IsLawful timeOut) : (l.leave none).IsLawful timeOut :=
  ⟨.anonymous (Record.get?_empty _), h⟩

theorem IsLawful.leave_stored (h : l.IsLawful timeOut) (hadmits : l.Admits timeOut r) :
    (l.leave r.stored).IsLawful timeOut := by
  refine ⟨?_, h⟩
  have hlife : (Record.ofStored r.stored).life = r.life := Record.life_ofStored_stored r
  have hid : (Record.ofStored r.stored).id? = r.id? := congrArg Life.id hlife
  rcases hadmits with hnone | hnew | hcontinues
  · exact .anonymous (hid.trans hnone)
  · exact .anew fun y hy heq => hnew y hy (heq.trans hid)
  · rcases seen_eq l with ⟨hdeposits, hempty⟩ | ⟨y, past, hdeposits, hy⟩
    · refine .anonymous (hid.trans (hcontinues.id.trans ?_))
      rw [hempty]
      exact Record.get?_empty _
    · rw [hdeposits]
      refine .onward (hcontinues.congr hlife ?_)
      rw [hy]

/-- An attempt that stores only what may be stored leaves the log lawful. -/
theorem IsLawful.leaveAll_contents (h : l.IsLawful timeOut) (locking : Bool) (token : String)
    {resolved : Outcome} (hadmits : ∀ s, resolved = .persist s → l.Admits timeOut s) :
    (l.leaveAll (Attempt.contents locking token l.seen resolved)).IsLawful timeOut := by
  cases locking with
  | true =>
    have hlocked : (l.leave (l.seen.withLock token).stored).IsLawful timeOut :=
      h.leave_stored (admits_of_life (Record.life_withLock _ _))
    cases resolved with
    | persist s =>
      have hresult : ((l.leave (l.seen.withLock token).stored).leave
          (s.withLock token).stored).IsLawful timeOut := by
        apply hlocked.leave_stored
        exact ((hadmits s rfl).leave_withLock token).congr (Record.life_withLock s token)
      apply hresult.leave_stored
      apply admits_of_life
      show (s.erase "").life = (Record.ofStored (s.withLock token).stored).life
      rw [Record.life_erase_empty, Record.life_ofStored_stored, Record.life_withLock]
    | clear => exact hlocked.leave_none
    | unchanged =>
      apply hlocked.leave_stored
      apply admits_of_life
      show l.seen.life = (Record.ofStored (l.seen.withLock token).stored).life
      rw [Record.life_ofStored_stored, Record.life_withLock]
  | false =>
    cases resolved with
    | persist s => exact h.leave_stored (hadmits s rfl)
    | clear => exact h.leave_none
    | unchanged => exact h

/-- Whatever an attempt leaves, its identifier is one that was there or one that is to be stored. -/
theorem id?_of_mem_contents {locking : Bool} {token : String} {resolved : Outcome}
    {content : Option String} (h : content ∈ Attempt.contents locking token r resolved) :
    (Record.ofStored content).id? = none ∨ (Record.ofStored content).id? = r.id? ∨
      ∃ s, resolved = .persist s ∧ (Record.ofStored content).id? = s.id? := by
  have hstored : ∀ s s' : Record, s.life = s'.life → (Record.ofStored s.stored).id? = s'.id? := by
    intro s s' hlife
    exact congrArg Life.id ((Record.life_ofStored_stored s).trans hlife)
  have hbase := hstored (r.withLock token) r (Record.life_withLock r token)
  cases resolved with
  | persist s =>
    have hlocked := hstored (s.withLock token) s (Record.life_withLock s token)
    have hfreed := hstored (s.erase "") s (Record.life_erase_empty s)
    cases locking with
    | true =>
      simp only [Attempt.contents, Attempt.closing, reduceIte, List.cons_append, List.nil_append,
        List.mem_cons, List.not_mem_nil, or_false] at h
      rcases h with rfl | rfl | rfl
      · exact .inr (.inr ⟨s, rfl, hfreed⟩)
      · exact .inr (.inr ⟨s, rfl, hlocked⟩)
      · exact .inr (.inl hbase)
    | false =>
      obtain rfl := List.mem_singleton.1 h
      exact .inr (.inr ⟨s, rfl, hstored s s rfl⟩)
  | clear =>
    cases locking with
    | true =>
      rcases List.mem_cons.1 h with rfl | h
      · exact .inl (Record.get?_empty _)
      · obtain rfl := List.mem_singleton.1 h
        exact .inr (.inl hbase)
    | false =>
      obtain rfl := List.mem_singleton.1 h
      exact .inl (Record.get?_empty _)
  | unchanged =>
    cases locking with
    | true =>
      rcases List.mem_cons.1 h with rfl | h
      · exact .inr (.inl (hstored r r rfl))
      · obtain rfl := List.mem_singleton.1 h
        exact .inr (.inl hbase)
    | false => cases h

end Logbook

end SharedSession
