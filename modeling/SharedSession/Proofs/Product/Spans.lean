import SharedSession.Proofs.Product.Alternation
import SharedSession.Proofs.Product.Mirror

set_option autoImplicit false

/-!
# The spans of a history

Along a clock that never goes back, the spans of a product's history follow one another: a span is
ended before the next one begins, and only the newest is open. What this rests on is that a context
is added only when the product has no session, and that whenever a session is over, the newest span
is ended.

There is one gap. The history begins with whatever the cache holds. If the product has no session at
that time, because its first request was dropped, then the first span stands for no session and is
not ended when the sessions after it begin or end.

Main statements: `Product.Turn`, `Product.IsOrdered.turn`, `Gathering.IsHeeded.undergo`,
`Gathering.spans_take_turns`, `Gathering.span_left_open`.
-/

namespace SharedSession

/-! ## Spans -/

namespace HistoryEntry

variable {α : Type}

/-- The spans of a list, newest first: only the first may be open, and two of them share no more
than an instant. -/
structure TakeTurns (spans : List (HistoryEntry α)) : Prop where
  closed : ∀ e ∈ spans.tail, e.isOpen = false
  apart : spans.Pairwise fun newer older => ∀ t u, newer.covers t = true → older.covers t = true →
    newer.covers u = true → older.covers u = true → t = u

end HistoryEntry

namespace History

variable {α : Type} {h : History α} {now later t : Timestamp} {rest left : List (HistoryEntry α)}

/-- What a clock that never goes back leaves behind: nothing begins or ends later than now, and what
has ended did so before anything newer began. -/
structure IsOrderly (h : History α) (now : Timestamp) : Prop where
  begun : ∀ e ∈ h.entries, e.start ≤ now
  ended : ∀ e ∈ h.entries, ∀ stop ∈ e.stop, stop ≤ now
  inTurn : h.entries.Pairwise fun newer older => ∀ stop ∈ older.stop, stop ≤ newer.start

theorem IsOrderly.mono (horderly : h.IsOrderly now) (hle : now ≤ later) : h.IsOrderly later where
  begun e he := Int.le_trans (horderly.begun e he) hle
  ended e he stop hstop := Int.le_trans (horderly.ended e he stop hstop) hle
  inTurn := horderly.inTurn

theorem isOrderly_reset_add (h : History α) (value : α) (start : Timestamp) :
    (h.reset.add value start).IsOrderly start where
  begun := List.forall_mem_singleton.2 (Int.le_refl _)
  ended := List.forall_mem_singleton.2 fun _ hstop => absurd hstop (Option.not_mem_none _)
  inTurn := List.pairwise_singleton _ _

theorem IsOrderly.add (horderly : h.IsOrderly now) (value : α) :
    (h.add value now).IsOrderly now where
  begun := List.forall_mem_cons.2 ⟨Int.le_refl _, horderly.begun⟩
  ended := List.forall_mem_cons.2
    ⟨fun _ hstop => absurd hstop (Option.not_mem_none _), horderly.ended⟩
  inTurn := List.pairwise_cons.2 ⟨horderly.ended, horderly.inTurn⟩

theorem IsOrderly.closeActive (horderly : h.IsOrderly now) : (h.closeActive now).IsOrderly now := by
  obtain ⟨retention, entries⟩ := h
  cases entries with
  | nil => exact horderly
  | cons e es =>
    obtain ⟨hbegun, hbefore⟩ := List.forall_mem_cons.1 horderly.begun
    obtain ⟨hended, hearlier⟩ := List.forall_mem_cons.1 horderly.ended
    refine ⟨List.forall_mem_cons.2 ⟨hbegun, hbefore⟩, List.forall_mem_cons.2 ⟨?_, hearlier⟩,
      List.pairwise_cons.2 (List.pairwise_cons.1 horderly.inTurn)⟩
    rintro _ ⟨⟩
    exact HistoryEntry.stop_getD_le hended

/-- Leaving some out does not matter. -/
theorem IsOrderly.sublist (horderly : h.IsOrderly now) {h' : History α}
    (hsublist : h'.entries.Sublist h.entries) : h'.IsOrderly now where
  begun e he := horderly.begun e (hsublist.subset he)
  ended e he := horderly.ended e (hsublist.subset he)
  inTurn := horderly.inTurn.sublist hsublist

/-- The spans of an orderly history, of which at most the newest is open. -/
theorem IsOrderly.takeTurns (horderly : h.IsOrderly now) (hone : h.HoldsOne) :
    HistoryEntry.TakeTurns h.entries := by
  have hshare : ∀ newer older : HistoryEntry α, older.isOpen = false →
      (∀ stop ∈ older.stop, stop ≤ newer.start) →
      ∀ t u, newer.covers t = true → older.covers t = true → newer.covers u = true →
        older.covers u = true → t = u := by
    intro newer older hclosed hle t u hnewer holder hnewer' holder'
    obtain ⟨stop, hstop⟩ := HistoryEntry.exists_stop hclosed
    have ht := HistoryEntry.eq_stop_of_covers hstop (hle stop hstop) holder hnewer
    have hu := HistoryEntry.eq_stop_of_covers hstop (hle stop hstop) holder' hnewer'
    rw [ht, hu]
  refine ⟨hone, ?_⟩
  obtain ⟨retention, entries⟩ := h
  cases entries with
  | nil => exact .nil
  | cons e es =>
    obtain ⟨hfirst, hrest⟩ := List.pairwise_cons.1 horderly.inTurn
    refine List.pairwise_cons.2 ⟨fun older holder => hshare e older (hone older holder)
      (hfirst older holder), ?_⟩
    exact hrest.imp_of_mem fun _ holder hle => hshare _ _ (hone _ holder) hle

/-! ## Behind other spans -/

/-- The history with some older entries behind its own. -/
def atop (h : History α) (rest : List (HistoryEntry α)) : History α :=
  { h with entries := h.entries ++ rest }

@[simp] theorem atop_nil (h : History α) : h.atop [] = h := by
  simp [atop]

/-- Forgetting does not concern what is open. -/
theorem clearOld_atop (hrest : ∀ e ∈ rest, e.isOpen = true) (h : History α) (now : Timestamp) :
    (h.atop rest).clearOld now = (h.clearOld now).atop rest := by
  have hkept : rest.filter (·.endsFrom (now.back h.retention.millis)) = rest := by
    refine List.filter_eq_self.2 fun e he => ?_
    have hopen := hrest e he
    simp only [HistoryEntry.isOpen, Option.isNone_iff_eq_none] at hopen
    simp only [HistoryEntry.endsFrom, hopen]
  simp only [atop, clearOld, List.filter_append, hkept]

/-- When the newest span is ended, nothing is open any more but older ones, and of these the last
one is ended if there is no other. -/
theorem closeActive_atop (hrest : rest.length ≤ 1) (hone : h.HoldsOne) (now : Timestamp) :
    ∃ (h' : History α) (rest' : List (HistoryEntry α)),
      (h.atop rest).closeActive now = h'.atop rest' ∧ (rest' = [] ∨ rest' = rest) ∧
        h'.HoldsOne ∧ h'.current? = none := by
  obtain ⟨retention, entries⟩ := h
  cases entries with
  | nil =>
    have hshort : (⟨retention, rest⟩ : History α).HoldsOne := by
      have htail : rest.tail = [] := List.length_eq_zero_iff.1 (by
        rw [List.length_tail]
        omega)
      simp only [HoldsOne, htail, List.not_mem_nil, false_imp_iff, implies_true]
    exact ⟨(⟨retention, rest⟩ : History α).closeActive now, [], (atop_nil _).symm, .inl rfl,
      hshort.closeActive now, current?_closeActive _ now⟩
  | cons e es =>
    exact ⟨(⟨retention, e :: es⟩ : History α).closeActive now, rest, rfl, .inr rfl,
      hone.closeActive now, current?_closeActive _ now⟩

/-! ## What has ended -/

/-- All has ended by a moment, but for entries with the values of some. -/
def HasEnded (h : History α) (now : Timestamp) (left : List (HistoryEntry α)) : Prop :=
  ∀ e ∈ h.entries, (∃ stop, e.stop = some stop ∧ stop ≤ now) ∨ ∃ e' ∈ left, e'.value = e.value

/-- To end the newest of several spans leaves none open but those that were left. -/
theorem hasEnded_closeActive (horderly : (h.atop rest).IsOrderly now) (hone : h.HoldsOne)
    (hrest : rest ⊆ left) : ((h.atop rest).closeActive now).HasEnded now left := by
  obtain ⟨retention, entries⟩ := h
  have hleft : ∀ e ∈ rest, ∃ e' ∈ left, e'.value = e.value := fun e he => ⟨e, hrest he, rfl⟩
  cases entries with
  | nil =>
    cases rest with
    | nil => exact List.forall_mem_nil _
    | cons e es =>
      obtain ⟨hfirst, hothers⟩ := List.forall_mem_cons.1 hleft
      exact List.forall_mem_cons.2 ⟨.inr hfirst, fun e he => .inr (hothers e he)⟩
  | cons e es =>
    refine List.forall_mem_cons.2 ⟨.inl ⟨_, rfl, HistoryEntry.stop_getD_le
      (horderly.ended e List.mem_cons_self)⟩, fun e' he' => ?_⟩
    rcases List.mem_append.1 he' with hmem | hmem
    · obtain ⟨stop, hstop⟩ := HistoryEntry.exists_stop (hone e' hmem)
      exact .inl ⟨stop, hstop, horderly.ended e' (List.mem_cons_of_mem e he') stop hstop⟩
    · exact .inr (hleft e' hmem)

/-- What has ended stays so. -/
theorem HasEnded.closeActive (hended : h.HasEnded now left) (later : Timestamp) :
    (h.closeActive later).HasEnded now left := by
  obtain ⟨retention, entries⟩ := h
  cases entries with
  | nil => exact hended
  | cons e es =>
    obtain ⟨hfirst, hothers⟩ := List.forall_mem_cons.1 hended
    refine List.forall_mem_cons.2 ⟨hfirst.imp_left ?_, hothers⟩
    rintro ⟨stop, hstop, hle⟩
    exact ⟨stop, by rw [HistoryEntry.stop_close, hstop, Option.getD_some], hle⟩

theorem HasEnded.clearOld (hended : h.HasEnded now left) (t : Timestamp) :
    (h.clearOld t).HasEnded now left :=
  fun e he => hended e (List.mem_of_mem_filter he)

/-- Later than that there is nothing to be found but what was left. -/
theorem HasEnded.at? (hended : h.HasEnded now left) (hlater : now < t) :
    h.at? t = none ∨ ∃ e ∈ left, h.at? t = some e.value := by
  unfold History.at?
  cases hfound : h.entries.find? (·.covers t) with
  | none => exact .inl rfl
  | some e =>
    have hcovers := List.find?_some hfound
    refine .inr ((hended e (List.mem_of_find?_eq_some hfound)).elim ?_ ?_)
    · rintro ⟨stop, hstop, hle⟩
      have hend := HistoryEntry.le_stop_of_covers hcovers hstop
      simp only [Timestamp.le_iff, Timestamp.lt_iff] at hle hend hlater
      omega
    · rintro ⟨e', he', hvalue⟩
      exact ⟨e', he', congrArg some hvalue.symm⟩

end History

/-! ## What a moment can change -/

namespace Product

variable {p q : Product} {start t now : Timestamp} {left : List (HistoryEntry Context)}

/-- What a moment can do to the history of a product, to its notices and to whether it has a
session. -/
inductive Turn (p : Product) (now : Timestamp) : History Context → List Notice → Bool → Prop where
  /-- nothing becomes current or ceases to be, and a session is not lost -/
  | resting {session : Bool} (hsession : p.hasSession = true → session = true) :
      Turn p now p.history p.notices session
  /-- the session is over -/
  | ending (id : Option String) :
      Turn p now (p.history.closeActive now) (.expired id :: p.notices) false
  /-- a session begins -/
  | beginning (context : Context) (id : Option String) (hbefore : p.hasSession = false) :
      Turn p now (p.history.add context now) (.renewed id :: p.notices) true
  /-- contexts that ended long ago are forgotten -/
  | tidying : Turn p now (p.history.clearOld now) p.notices p.hasSession

/-- One product comes from another at a moment. -/
def TurnsTo (p : Product) (now : Timestamp) (q : Product) : Prop :=
  p.Turn now q.history q.notices q.hasSession

theorem turnsTo_refl (p : Product) (now : Timestamp) : p.TurnsTo now p := .resting id

theorem turnsTo_synchronize (p : Product) (now : Timestamp) (r : Record) :
    p.TurnsTo now (p.synchronize now r) := by
  rcases p.context_synchronize now r with ⟨s, hcontext, h⟩ | h
  · rw [h]
    refine .resting fun hsession => ?_
    rw [hasSession_eq] at hsession ⊢
    exact (congrArg Option.isSome (contextOf_eq_iff.1 hcontext).2).trans hsession
  · have hnone : (p.expireCache now).hasSession = false := hasSession_of_cache_eq_empty rfl
    rw [h, TurnsTo, hnone]
    exact .ending p.cache.id?

/-- When its activity has settled with its word, a product has a session. -/
theorem hasSession_renewSettled {r : Record} (hword : (r.get? p.key).isSome) (now : Timestamp) :
    (renewSettled now r p).hasSession = true := by
  rw [hasSession_eq]
  unfold renewSettled
  split
  · exact hword
  · exact hword

theorem turnsTo_renewSettled {r : Record} (hword : (r.get? p.key).isSome) (now : Timestamp) :
    p.TurnsTo now (renewSettled now r p) := by
  have hafter := hasSession_renewSettled hword now
  unfold renewSettled at hafter ⊢
  split
  · next hbegins =>
    rw [if_pos hbegins] at hafter
    rw [Bool.and_eq_true, Bool.not_eq_true'] at hbegins
    rw [TurnsTo, hafter]
    exact .beginning _ r.id? hbegins.2
  · next hgoes =>
    rw [if_neg hgoes] at hafter
    exact .resting fun _ => hafter

/-- What a history that begins leaves open for good, if it begins without a session. -/
def leftover (p : Product) (start : Timestamp) : List (HistoryEntry Context) :=
  if p.hasSession then [] else [⟨p.contextOf p.cache, start, none⟩]

theorem length_leftover_le (p : Product) (start : Timestamp) : (p.leftover start).length ≤ 1 := by
  unfold leftover
  split <;> simp

theorem isOpen_of_mem_leftover {e : HistoryEntry Context} (h : e ∈ p.leftover start) :
    e.isOpen = true := by
  unfold leftover at h
  split at h
  · cases h
  · rw [List.mem_singleton.1 h]
    rfl

/-- How the history is at a moment, if an entry may have been left open at its beginning: apart from
that, at most the newest is open, and none if the product has no session. -/
structure IsOrdered (p : Product) (left : List (HistoryEntry Context)) (now : Timestamp) :
    Prop where
  short : left.length ≤ 1
  opened : ∀ e ∈ left, e.isOpen = true
  orderly : p.history.IsOrderly now
  atop : ∃ (h : History Context) (rest : List (HistoryEntry Context)),
    p.history = h.atop rest ∧ (rest = [] ∨ rest = left) ∧ h.HoldsOne ∧
      (p.hasSession = false → h.current? = none)

theorem isOrdered_resetHistory (p : Product) (start : Timestamp) :
    (p.resetHistory start).IsOrdered (p.leftover start) start := by
  refine ⟨p.length_leftover_le start, fun _ => isOpen_of_mem_leftover,
    p.history.isOrderly_reset_add _ start, ?_⟩
  cases hsession : p.hasSession with
  | true =>
    exact ⟨_, [], (History.atop_nil _).symm, .inl rfl, p.history.holdsOne_reset_add _ start,
      fun hnone => absurd (hsession.symm.trans hnone) nofun⟩
  | false =>
    refine ⟨p.history.reset, _, rfl, .inr ?_, List.forall_mem_nil _, fun _ => rfl⟩
    rw [leftover, hsession]
    rfl

theorem IsOrdered.mono {u : Timestamp} (h : p.IsOrdered left t) (hle : t ≤ u) :
    p.IsOrdered left u :=
  ⟨h.short, h.opened, h.orderly.mono hle, h.atop⟩

theorem IsOrdered.exists_takeTurns (h : p.IsOrdered left t) :
    ∃ spans rest, p.history.entries = spans ++ rest ∧ HistoryEntry.TakeTurns spans ∧
      (rest = [] ∨ rest = left) := by
  obtain ⟨-, -, horderly, history, rest, hhistory, hrest, hone, -⟩ := h
  rw [hhistory] at horderly ⊢
  have hown : history.IsOrderly t := horderly.sublist (List.sublist_append_left _ rest)
  exact ⟨history.entries, rest, rfl, hown.takeTurns hone, hrest⟩

/-- Every moment leaves the history in order. -/
theorem IsOrdered.turn (h : p.IsOrdered left t) (hle : t ≤ now) (hturn : p.TurnsTo now q) :
    q.IsOrdered left now := by
  obtain ⟨hshort, hopen, horderly, history, rest, hhistory, hrest, hone, hnone⟩ := h.mono hle
  have hrestShort : rest.length ≤ 1 := by
    rcases hrest with rfl | rfl
    · exact Nat.zero_le 1
    · exact hshort
  have hrestOpen : ∀ e ∈ rest, e.isOpen = true := by
    rcases hrest with rfl | rfl
    · exact List.forall_mem_nil _
    · exact hopen
  suffices hgoal : q.history.IsOrderly now ∧
      ∃ (h : History Context) (rest' : List (HistoryEntry Context)),
        q.history = h.atop rest' ∧ (rest' = [] ∨ rest' = rest) ∧ h.HoldsOne ∧
          (q.hasSession = false → h.current? = none) by
    obtain ⟨horderly', history', rest', hhistory', hrest', hone', hnone'⟩ := hgoal
    refine ⟨hshort, hopen, horderly', history', rest', hhistory', ?_, hone', hnone'⟩
    rcases hrest' with rfl | rfl
    · exact .inl rfl
    · exact hrest
  unfold TurnsTo at hturn
  generalize q.history = history' at hturn ⊢
  generalize q.notices = notices at hturn
  generalize q.hasSession = session at hturn ⊢
  cases hturn with
  | resting hsession =>
    refine ⟨horderly, history, rest, hhistory, .inr rfl, hone, fun hafter => hnone ?_⟩
    rw [← Bool.not_eq_true]
    intro hbefore
    rw [hsession hbefore] at hafter
    cases hafter
  | ending id =>
    obtain ⟨h', rest', hclosed, hrest', hone', hnone'⟩ :=
      History.closeActive_atop hrestShort hone now
    exact ⟨horderly.closeActive, h', rest', by rw [hhistory, hclosed], hrest', hone',
      fun _ => hnone'⟩
  | beginning context id hbefore =>
    exact ⟨horderly.add context, history.add context now, rest, by rw [hhistory]; rfl, .inr rfl,
      hone.add (hnone hbefore) context now, nofun⟩
  | tidying =>
    obtain ⟨hone', hsame⟩ := hone.clearOld now
    refine ⟨horderly.sublist List.filter_sublist, history.clearOld now, rest, ?_, .inr rfl, hone', ?_⟩
    · rw [hhistory, History.clearOld_atop hrestOpen]
    · rw [hsame]
      exact hnone

/-- When an end is announced, nothing but what was left is open any more. -/
theorem IsOrdered.hasEnded (h : p.IsOrdered left now) (hturn : p.TurnsTo now q)
    {id : Option String} (hannounced : q.notices = .expired id :: p.notices) :
    q.history.HasEnded now left := by
  obtain ⟨-, -, horderly, history, rest, hhistory, hrest, hone, -⟩ := h
  have hsubset : rest ⊆ left := by
    rcases hrest with rfl | rfl
    · exact List.nil_subset _
    · exact List.Subset.refl _
  unfold TurnsTo at hturn
  rw [hannounced] at hturn
  generalize q.history = history' at hturn ⊢
  generalize hnotices : Notice.expired id :: p.notices = notices at hturn
  generalize q.hasSession = session at hturn
  cases hturn with
  | resting => exact absurd hnotices (List.cons_ne_self _ _)
  | ending =>
    rw [hhistory] at horderly ⊢
    exact History.hasEnded_closeActive horderly hone hsubset
  | beginning => cases (List.cons.inj hnotices).1
  | tidying => exact absurd hnotices (List.cons_ne_self _ _)

/-- What was announced as begun stays so. -/
theorem TurnsTo.suffix_beginnings (hturn : p.TurnsTo now q) : p.beginnings <:+ q.beginnings := by
  unfold TurnsTo at hturn
  unfold beginnings
  generalize q.history = history' at hturn
  generalize q.notices = notices at hturn ⊢
  generalize q.hasSession = session at hturn
  cases hturn with
  | resting => exact List.suffix_refl _
  | ending id => exact List.suffix_refl _
  | beginning context id hbefore => exact List.suffix_cons _ _
  | tidying => exact List.suffix_refl _

/-- What has ended is still all there is, unless a session begins. -/
theorem TurnsTo.hasEnded (hturn : p.TurnsTo now q) (hquiet : q.beginnings = p.beginnings)
    (hended : p.history.HasEnded t left) : q.history.HasEnded t left := by
  unfold TurnsTo at hturn
  unfold beginnings at hquiet
  generalize q.history = history' at hturn ⊢
  generalize q.notices = notices at hturn hquiet
  generalize q.hasSession = session at hturn
  cases hturn with
  | resting => exact hended
  | ending id => exact hended.closeActive now
  | beginning context id hbefore => exact absurd hquiet (List.cons_ne_self _ _)
  | tidying => exact hended.clearOld now

/-- One product comes from another by turns between two moments, along a clock that never goes
back. -/
inductive Turns : Timestamp → Product → Timestamp → Product → Prop where
  | refl {t u : Timestamp} (p : Product) (hle : t ≤ u) : Turns t p u p
  | step {t now u : Timestamp} {p p' q : Product} (hle : t ≤ now) (hturn : p.TurnsTo now p')
      (hrest : Turns now p' u q) : Turns t p u q

theorem IsOrdered.turns {u : Timestamp} (h : p.IsOrdered left t) (hturns : Turns t p u q) :
    q.IsOrdered left u := by
  induction hturns with
  | refl p hle => exact h.mono hle
  | step hle hturn hrest ih => exact ih (h.turn hle hturn)

theorem Turns.suffix_beginnings {u : Timestamp} (hturns : Turns t p u q) :
    p.beginnings <:+ q.beginnings := by
  induction hturns with
  | refl p hle => exact List.suffix_refl _
  | step hle hturn hrest ih => exact hturn.suffix_beginnings.trans ih

/-- As long as no session begins, what has ended is all there is but what was left. -/
theorem Turns.hasEnded {u : Timestamp} (hturns : Turns t p u q)
    (hquiet : q.beginnings = p.beginnings) (hended : p.history.HasEnded now left) :
    q.history.HasEnded now left := by
  induction hturns with
  | refl p hle => exact hended
  | step hle hturn hrest ih =>
    have hmiddle := hturn.suffix_beginnings.eq_of_length_le (by
      rw [← hquiet]
      exact hrest.suffix_beginnings.length_le)
    exact ih (hquiet.trans hmiddle) (hturn.hasEnded hmiddle.symm hended)

end Product

namespace Request

variable {p : Product}

theorem turnsTo_transform (q : Request) (o : Occasion) (r : Record) (p : Product) :
    p.TurnsTo o.now (q.operation.transform o r p).2 := by
  have hanswers := q.answers_transform o r p
  generalize q.operation.transform o r p = x at hanswers ⊢
  cases hanswers with
  | renewing => exact p.turnsTo_synchronize o.now r
  | prolonging => exact p.turnsTo_synchronize o.now r
  | _ => exact p.turnsTo_refl o.now

theorem turnsTo_settle {q : Request} (now : Timestamp) {r : Record}
    (hword : q = .expandOrRenew → (r.get? p.key).isSome) :
    p.TurnsTo now (q.operation.settle now r p) := by
  cases q with
  | expandOrRenew => exact Product.turnsTo_renewSettled (hword rfl) now
  | expand => exact p.turnsTo_refl now
  | watch => exact p.turnsTo_synchronize now r
  | expire => exact p.turnsTo_synchronize now ∅

end Request

/-! ## Whatever happens -/

/-- When something happens to a writer by its own clock. -/
def Episode.moment? {κ : Type} [DecidableEq κ] (i : κ) : Episode κ → Option Timestamp
  | .incident (.move (.call k now)) => if k = i then some now else none
  | .incident (.move (.overwrite _)) => none
  | .incident (.giveUp k _ now) => if k = i then some now else none
  | .redate _ _ _ => none
  | .tidy k _ now => if k = i then some now else none

namespace Gathering

open Contest

variable {κ : Type} [DecidableEq κ] {g : Gathering κ} {i : κ} {j : Nat}
  {c : Contest κ (List Product)} {p : Product}

/-- A product whose activity settles with its word. -/
structure IsHeeded (g : Gathering κ) (i : κ) (j : Nat) (c : Contest κ (List Product))
    (p : Product) : Prop where
  rightful : c.Rightful
  there : (c.writers i).own[j]? = some p
  key : Record.IsPlainKey p.key
  carries : g.Carries i (j, .expandOrRenew) (Outcome.Stores fun r => (r.get? p.key).isSome) c

/-- It is so after every incident, which is a turn if it concerns the product. -/
theorem IsHeeded.incur (h : g.IsHeeded i j c p) (e : Incident κ)
    (htokens : (g.incur c e).tokens.Nodup) (hforeign : IsForeign i (g.incur c e) [e]) :
    ∃ p', g.IsHeeded i j (g.incur c e) p' ∧
      (p' = p ∨ ∃ now, Episode.moment? i (.incident e) = some now ∧ p.TurnsTo now p') := by
  obtain ⟨p', hp', htraits, hturn⟩ : ∃ p', ((g.incur c e).writers i).own[j]? = some p' ∧
      p'.traits = p.traits ∧
      (p' = p ∨ ∃ now, Episode.moment? i (.incident e) = some now ∧ p.TurnsTo now p') := by
    obtain ⟨p', hp', rfl | ⟨now, rfl, rfl⟩ | ⟨now, q, rfl, hrequest, hcontact⟩⟩ :=
      g.contact_incur h.there e
    · exact ⟨p', hp', rfl, .inl rfl⟩
    · exact ⟨_, hp', p.traits_synchronize now ∅,
        .inr ⟨now, if_pos rfl, p.turnsTo_synchronize now ∅⟩⟩
    · refine ⟨p', hp', ?_⟩
      generalize (g.incur c (.move (.call i now))).cell = cell at hcontact
      cases hcontact with
      | asked =>
        exact ⟨q.traits_transform _ _ p, .inr ⟨now, if_pos rfl, q.turnsTo_transform ⟨now, _⟩ _ p⟩⟩
      | @told r hr =>
        refine ⟨q.traits_settle now r p, .inr ⟨now, if_pos rfl, Request.turnsTo_settle now ?_⟩⟩
        rintro rfl
        exact (h.carries hrequest).settling r hr
      | spared hanswer =>
        refine ⟨q.traits_settle now _ p, .inr ⟨now, if_pos rfl,
          Request.turnsTo_settle now fun hq => ?_⟩⟩
        exact absurd hq (q.transform_of_unchanged _ _ p hanswer).2.1
  have hkey := Product.key_eq_of_traits htraits
  refine ⟨p', ⟨g.rightful_incur h.rightful e, hp', hkey ▸ h.key, ?_⟩, hturn⟩
  rw [hkey]
  refine h.carries.incur (Record.isLasting_word h.key) not_false h.rightful htokens hforeign ?_
  intro _ _ answer own hanswer now d
  rw [Operation.transform_onIndex_of_some h.there] at hanswer
  cases hanswer
  obtain ⟨s, hs, hword⟩ := Request.exists_resolve_of_renewal _ _ p h.key now d
  rw [hs]
  exact hword

/-- The beginning of a history and its upkeep do not matter for that. -/
theorem IsHeeded.amend (h : g.IsHeeded i j c p) (k : κ) (l : Nat) {f : Product → Product}
    (htraits : ∀ p, (f p).traits = p.traits) :
    g.IsHeeded i j (c.amend k l f) (if i = k ∧ l = j then f p else p) := by
  obtain ⟨hserved, hstage, -⟩ := c.writers_amend k l f i
  have hkey : (if i = k ∧ l = j then f p else p).key = p.key := by
    split
    · exact Product.key_eq_of_traits (htraits p)
    · rfl
  refine ⟨h.rightful.amend k l f, ?_, hkey ▸ h.key, ?_⟩
  · rw [getElem?_amend, h.there, Option.map_some]
  · rw [hkey]
    exact h.carries.frame hserved hstage (.inl rfl)

theorem IsHeeded.undergo (h : g.IsHeeded i j c p) (e : Episode κ)
    (htokens : (g.undergo c e).tokens.Nodup)
    (hforeign : IsForeign i (g.undergo c e) (incidentsOf [e])) :
    ∃ p', g.IsHeeded i j (g.undergo c e) p' ∧
      (p' = p ∨ (∃ now, e.moment? i = some now ∧ p.TurnsTo now p') ∨
        ∃ start, e = .redate i j start) := by
  cases e with
  | incident e =>
    obtain ⟨p', h', hturn⟩ := h.incur e htokens hforeign
    exact ⟨p', h', hturn.imp_right .inl⟩
  | redate k l start =>
    refine ⟨_, h.amend k l fun _ => rfl, ?_⟩
    split
    · next hsame => exact .inr (.inr ⟨start, by rw [hsame.1, hsame.2]⟩)
    · exact .inl rfl
  | tidy k l now =>
    refine ⟨_, h.amend k l fun _ => rfl, ?_⟩
    split
    · next hsame => exact .inr (.inl ⟨now, if_pos hsame.1.symm, .tidying⟩)
    · exact .inl rfl

/-- A run along a clock that never goes back is a row of turns, if the history does not begin
anew. -/
theorem IsHeeded.undergoAll {episodes : List (Episode κ)} (h : g.IsHeeded i j c p)
    (htokens : (g.undergoAll c episodes).tokens.Nodup)
    (hforeign : IsForeign i (g.undergoAll c episodes) (incidentsOf episodes)) :
    ∃ q, g.IsHeeded i j (g.undergoAll c episodes) q ∧
      ((∀ start, .redate i j start ∉ episodes) → ∀ t u : Timestamp,
        (t :: episodes.filterMap (Episode.moment? i)).Pairwise (· ≤ ·) →
        (∀ now ∈ t :: episodes.filterMap (Episode.moment? i), now ≤ u) → Product.Turns t p u q) := by
  induction episodes generalizing c p with
  | nil => exact ⟨p, h, fun _ t u _ hbound => .refl p (hbound t List.mem_cons_self)⟩
  | cons e episodes ih =>
    have hlater := g.suffix_journal_undergoAll (g.undergo c e) episodes
    obtain ⟨p', h', hturn⟩ :=
      h.undergo e (nodup_tokens_of_suffix hlater htokens) (hforeign.head_incidentsOf hlater)
    obtain ⟨q, hq, hturns⟩ := ih h' htokens hforeign.tail_incidentsOf
    refine ⟨q, hq, fun honce t u hclock hbound => ?_⟩
    have hturns' := hturns fun start hmem => honce start (List.mem_cons_of_mem e hmem)
    have hsublist : (t :: episodes.filterMap (Episode.moment? i)).Sublist
        (t :: (e :: episodes).filterMap (Episode.moment? i)) :=
      ((List.sublist_cons_self e episodes).filterMap _).cons_cons t
    rcases hturn with rfl | ⟨now, hmoment, hturn⟩ | ⟨start, rfl⟩
    · exact hturns' t u (hclock.sublist hsublist) fun now hnow => hbound now (hsublist.subset hnow)
    · rw [List.filterMap_cons_some hmoment] at hclock hbound
      obtain ⟨hfrom, hclock⟩ := List.pairwise_cons.1 hclock
      exact .step (hfrom now List.mem_cons_self) hturn
        (hturns' now u hclock (List.forall_mem_cons.1 hbound).2)
    · exact absurd List.mem_cons_self (honce start)

/-- When the end of a session has been announced, all that was open has ended but for what was left,
until a session begins. -/
theorem IsHeeded.hasEnded (h : g.IsHeeded i j c p) {left : List (HistoryEntry Context)}
    {t now : Timestamp} (hordered : p.IsOrdered left t) {before after : List (Episode κ)}
    {e : Episode κ} (honce : ∀ start, .redate i j start ∉ before ++ e :: after)
    (hclock : (t :: (before ++ e :: after).filterMap (Episode.moment? i)).Pairwise (· ≤ ·))
    (hmoment : e.moment? i = some now)
    (htokens : (g.undergoAll c (before ++ e :: after)).tokens.Nodup)
    (hforeign : IsForeign i (g.undergoAll c (before ++ e :: after))
      (incidentsOf (before ++ e :: after)))
    {p₁ p₂ q : Product} {id : Option String}
    (hp₁ : ((g.undergoAll c before).writers i).own[j]? = some p₁)
    (hp₂ : ((g.undergo (g.undergoAll c before) e).writers i).own[j]? = some p₂)
    (hq : ((g.undergoAll c (before ++ e :: after)).writers i).own[j]? = some q)
    (hannounced : p₂.notices = .expired id :: p₁.notices) (hquiet : q.beginnings = p₂.beginnings) :
    q.history.HasEnded now left := by
  rw [undergoAll_append] at htokens hforeign hq
  rw [List.filterMap_append, List.filterMap_cons_some hmoment, ← List.cons_append] at hclock
  obtain ⟨hclock₁, hclock₂, hbound⟩ := List.pairwise_append.1 hclock
  have hsuffix₂ := g.suffix_journal_undergoAll (g.undergo (g.undergoAll c before) e) after
  have hsuffix₁ := (g.suffix_journal_undergo (g.undergoAll c before) e).trans hsuffix₂
  -- up to the announcement
  obtain ⟨p₁', hbefore, hturns₁⟩ := h.undergoAll (nodup_tokens_of_suffix hsuffix₁ htokens)
    (hforeign.of_sublist (List.sublist_append_left _ _) hsuffix₁)
  obtain rfl := Option.some.inj (hp₁.symm.trans hbefore.there)
  have hordered₁ : p₁.IsOrdered left now := by
    refine hordered.turns (hturns₁ (fun start hmem => honce start ?_) t now hclock₁ ?_)
    · exact List.mem_append_left _ hmem
    · exact fun moment hmem => hbound moment hmem now List.mem_cons_self
  -- the announcement
  obtain ⟨p₂', hnow, hturn⟩ := hbefore.undergo e (nodup_tokens_of_suffix hsuffix₂ htokens)
    (hforeign.of_sublist ((List.singleton_sublist.2 List.mem_cons_self).trans
      (List.sublist_append_right _ _)) hsuffix₂)
  obtain rfl := Option.some.inj (hp₂.symm.trans hnow.there)
  have hended : p₂.history.HasEnded now left := by
    rcases hturn with rfl | ⟨now', hmoment', hturn⟩ | ⟨start', rfl⟩
    · exact absurd hannounced.symm (List.cons_ne_self _ _)
    · obtain rfl := Option.some.inj (hmoment.symm.trans hmoment')
      exact hordered₁.hasEnded hturn hannounced
    · cases hmoment
  -- and from then on
  obtain ⟨q', hend, hturns₂⟩ := hnow.undergoAll htokens
    (hforeign.of_sublist ((List.sublist_cons_self _ _).trans (List.sublist_append_right _ _))
      (List.suffix_refl _))
  obtain rfl := Option.some.inj (hq.symm.trans hend.there)
  have hturns : Product.Turns now p₂ (.clamp 9223372036854775807) q := by
    refine hturns₂ (fun start hmem => honce start ?_) now _ hclock₂ fun moment _ => moment.upper
    exact List.mem_append_right _ (List.mem_cons_of_mem e hmem)
  exact hturns.hasEnded hquiet hended

/-- When the history of a product begins, after whatever has happened before, it is in order, and
the product is heeded. -/
theorem isHeeded_begun {p₀ : Product} (hp₀ : (g.products i)[j]? = some p₀)
    (hkey : Record.IsPlainKey p₀.key) {past : List (Episode κ)} (start : Timestamp)
    (htokens : (g.undergoAll g.first past).tokens.Nodup)
    (hforeign : IsForeign i (g.undergoAll g.first past) (incidentsOf past))
    (hp : ((g.undergoAll g.first past).writers i).own[j]? = some p) :
    g.IsHeeded i j (g.undergoAll g.first (past ++ [.redate i j start])) (p.resetHistory start) := by
  have hfirst : g.IsHeeded i j g.first p₀ := ⟨rightful_start _ _ _ _, hp₀, hkey, carries_first⟩
  obtain ⟨p', hbefore, -⟩ := hfirst.undergoAll htokens hforeign
  obtain rfl := Option.some.inj (hp.symm.trans hbefore.there)
  have hbegun := hbefore.amend i j (f := (·.resetHistory start)) fun _ => rfl
  rw [if_pos ⟨rfl, rfl⟩] at hbegun
  rw [undergoAll_append]
  exact hbegun

/-- The spans of a history follow one another. Writers carry out requests of their products, call by
call and in any order; texts are put into the cell from outside that carry no token of a certain
writer, products end their own sessions when they have to give up, begin their histories and forget
old contexts. Consider a product of that writer whose history begins at some time, whether its first
request was dropped or not, and a clock of the writer that never goes back from then on.

If the product has a session when its history begins, as it has if its first request has settled,
then at most the newest span is open, and two spans share at most an instant. When an end of a
session has been announced, no context is found later than that, until a session begins. If the
product has no session when its history begins, the same is true but for the entry with which the
history begins: it may stay open behind all others, and may be found. -/
theorem spans_take_turns (g : Gathering κ) (i : κ) (j : Nat) (p₀ p q : Product)
    (hp₀ : (g.products i)[j]? = some p₀) (hkey : Record.IsPlainKey p₀.key)
    (past future : List (Episode κ)) (start : Timestamp) (honce : ∀ t, .redate i j t ∉ future)
    (hclock : (start :: future.filterMap (Episode.moment? i)).Pairwise (· ≤ ·))
    (htokens : (g.undergoAll g.first (past ++ .redate i j start :: future)).tokens.Nodup)
    (hforeign : IsForeign i (g.undergoAll g.first (past ++ .redate i j start :: future))
      (incidentsOf (past ++ .redate i j start :: future)))
    (hp : ((g.undergoAll g.first past).writers i).own[j]? = some p)
    (hq : ((g.undergoAll g.first (past ++ .redate i j start :: future)).writers i).own[j]?
      = some q) :
    (∃ spans rest, q.history.entries = spans ++ rest ∧ HistoryEntry.TakeTurns spans ∧
      (rest = [] ∨ rest = p.leftover start)) ∧
    ∀ before e after now, future = before ++ e :: after → e.moment? i = some now →
      ∀ p₁ p₂ id,
        ((g.undergoAll g.first (past ++ .redate i j start :: before)).writers i).own[j]?
          = some p₁ →
        ((g.undergoAll g.first (past ++ .redate i j start :: (before ++ [e]))).writers i).own[j]?
          = some p₂ →
        p₂.notices = .expired id :: p₁.notices → q.beginnings = p₂.beginnings →
        ∀ t, now < t →
          q.find? (some t) = none ∨ ∃ e ∈ p.leftover start, q.find? (some t) = some e.value := by
  obtain ⟨c, hc⟩ : ∃ c, g.undergoAll g.first (past ++ [.redate i j start]) = c := ⟨_, rfl⟩
  have hfrom : ∀ episodes, g.undergoAll g.first (past ++ .redate i j start :: episodes)
      = g.undergoAll c episodes := by
    intro episodes
    rw [← hc, ← undergoAll_append, List.append_assoc]
    rfl
  rw [hfrom] at htokens hforeign hq
  have hearlier : (g.undergoAll g.first past).journal <:+ (g.undergoAll c future).journal := by
    refine List.IsSuffix.trans ?_ (g.suffix_journal_undergoAll c future)
    rw [← hc, undergoAll_append]
    exact g.suffix_journal_undergoAll _ _
  have hbegun : g.IsHeeded i j c (p.resetHistory start) := by
    rw [← hc]
    exact isHeeded_begun hp₀ hkey start (nodup_tokens_of_suffix hearlier htokens)
      (hforeign.of_sublist (List.sublist_append_left _ _) hearlier) hp
  have hordered := p.isOrdered_resetHistory start
  have hforeign' : IsForeign i (g.undergoAll c future) (incidentsOf future) :=
    hforeign.of_sublist ((List.sublist_cons_self _ _).trans (List.sublist_append_right _ _))
      (List.suffix_refl _)
  constructor
  · obtain ⟨q', hend, hturns⟩ := hbegun.undergoAll htokens hforeign'
    obtain rfl := Option.some.inj (hq.symm.trans hend.there)
    -- no moment comes after the last one that there is
    exact (hordered.turns (hturns honce start (.clamp 9223372036854775807) hclock
      fun now _ => now.upper)).exists_takeTurns
  · rintro before e after now rfl hmoment p₁ p₂ id hp₁ hp₂ hannounced hquiet t ht
    rw [hfrom] at hp₁ hp₂
    rw [undergoAll_append] at hp₂
    exact (hbegun.hasEnded hordered honce hclock hmoment htokens hforeign' hp₁ hp₂ hq hannounced
      hquiet).at? ht

/-- The first calls of a writer, or more, all at one moment. -/
def callsAt (calls ms : Nat) : List (Episode Unit) :=
  List.replicate calls (.incident (.move (.call () (Timestamp.epoch.add ms))))

/-- A tab with one product that tracks: it begins a session and ends it, twice. -/
def twiceTab : Gathering Unit where
  locking := true
  policy _ := ⟨.ofMillis 10, 1, .ofMillis 900⟩
  agenda _ := [(0, .expandOrRenew), (0, .expire), (0, .expandOrRenew), (0, .expire)]
  cell := none
  names := .tallies
  products _ := [.new "a" (fun _ _ => .sampledIn) (.ofMillis 900) .epoch ∅]

/-- Once its history has begun: what happens before the last call of its last request. -/
def twice : List (Episode Unit) := callsAt 5 5 ++ callsAt 7 10 ++ callsAt 4 20

/-- The last call, by which the end of its second session is announced. -/
def lastCall : Episode Unit := .incident (.move (.call () (Timestamp.epoch.add 20)))

/-- What happens afterwards. -/
def upkeep : List (Episode Unit) := [.tidy () 0 (Timestamp.epoch.add 400)]

theorem spans_take_turns_twice :
    ∃ q, ((twiceTab.undergoAll twiceTab.first (callsAt 7 0 ++ .redate () 0 .epoch ::
        (twice ++ lastCall :: upkeep))).writers ()).own = [q] ∧
      q.history.entries.map (fun e => (e.start.millis, e.stop.map (·.millis)))
        = [(10, some 20), (0, some 5)] ∧
      HistoryEntry.TakeTurns q.history.entries ∧
      ∀ t, Timestamp.epoch.add 20 < t → q.find? (some t) = none := by
  have hstart : ((twiceTab.undergoAll twiceTab.first (callsAt 7 0)).writers ()).own.map
      (·.hasSession) = [true] := by decide +kernel
  have hbefore : ((twiceTab.undergoAll twiceTab.first
      (callsAt 7 0 ++ .redate () 0 .epoch :: twice)).writers ()).own.map (·.notices)
        = [[.renewed (some "iiiiii"), .expired (some "ii"), .renewed (some "ii")]] := by
    decide +kernel
  have hlast : ((twiceTab.undergoAll twiceTab.first (callsAt 7 0 ++ .redate () 0 .epoch ::
      (twice ++ [lastCall]))).writers ()).own.map (·.notices)
        = [[.expired (some "iiiiii"), .renewed (some "iiiiii"), .expired (some "ii"),
          .renewed (some "ii")]] := by decide +kernel
  have hafter : ((twiceTab.undergoAll twiceTab.first (callsAt 7 0 ++ .redate () 0 .epoch ::
      (twice ++ lastCall :: upkeep))).writers ()).own.map (fun q => (q.notices,
        q.history.entries.map fun e => (e.start.millis, e.stop.map (·.millis))))
        = [([.expired (some "iiiiii"), .renewed (some "iiiiii"), .expired (some "ii"),
          .renewed (some "ii")], [(10, some 20), (0, some 5)])] := by decide +kernel
  obtain ⟨p, hp, hsession⟩ := List.map_eq_singleton_iff.1 hstart
  obtain ⟨p₁, hp₁, hnotices₁⟩ := List.map_eq_singleton_iff.1 hbefore
  obtain ⟨p₂, hp₂, hnotices₂⟩ := List.map_eq_singleton_iff.1 hlast
  obtain ⟨q, hq, hstate⟩ := List.map_eq_singleton_iff.1 hafter
  obtain ⟨hnotices, hentries⟩ := Prod.mk.inj hstate
  have hleftover : p.leftover .epoch = [] := if_pos hsession
  have hkey : Record.IsProductKey "a" := by decide
  have hclock : (Timestamp.epoch :: (twice ++ lastCall :: upkeep).filterMap
      (Episode.moment? ())).Pairwise (· ≤ ·) := by decide +kernel
  have htokens : (twiceTab.undergoAll twiceTab.first (callsAt 7 0 ++ .redate () 0 .epoch ::
      (twice ++ lastCall :: upkeep))).tokens.Nodup := by decide +kernel
  have hforeign : IsForeign () (twiceTab.undergoAll twiceTab.first (callsAt 7 0 ++
      .redate () 0 .epoch :: (twice ++ lastCall :: upkeep)))
      (incidentsOf (callsAt 7 0 ++ .redate () 0 .epoch :: (twice ++ lastCall :: upkeep))) := by
    intro raw hraw
    simp [incidentsOf, callsAt, twice, lastCall, upkeep] at hraw
  obtain ⟨⟨spans, rest, hspans, hturns, hrest⟩, hnone⟩ :=
    spans_take_turns twiceTab () 0 (.new "a" (fun _ _ => .sampledIn) (.ofMillis 900) .epoch ∅) p q
      rfl hkey.toIsPlainKey (callsAt 7 0) (twice ++ lastCall :: upkeep) .epoch
      (by simp [callsAt, twice, lastCall, upkeep]) hclock htokens hforeign (by rw [hp]; rfl)
      (by rw [hq]; rfl)
  rw [hleftover, or_self] at hrest
  rw [hrest, List.append_nil] at hspans
  rw [← hspans] at hturns
  refine ⟨q, hq, hentries, hturns, fun t ht => ?_⟩
  have hquiet : q.beginnings = p₂.beginnings := by
    rw [Product.beginnings, Product.beginnings, hnotices, hnotices₂]
  have hlater := hnone twice lastCall upkeep (Timestamp.epoch.add 20) rfl rfl p₁ p₂
    (some "iiiiii") (by rw [hp₁]; rfl) (by rw [hp₂]; rfl) (by rw [hnotices₁, hnotices₂]) hquiet t ht
  rw [hleftover] at hlater
  simpa using hlater

/-- The same tab after another writer has taken the lock for good, as it seems. -/
def lockedOutTab : Gathering Unit :=
  { twiceTab with
    agenda _ := [(0, .expandOrRenew), (0, .expandOrRenew), (0, .expire)]
    cell := some "lock=held" }

/-- The first request is dropped, and the history begins with a span that stands for no session.
When the lock is gone, the product begins a session, and two spans are open. When that is ended, the
first span is still open and found from then on. -/
theorem span_left_open :
    ((lockedOutTab.undergoAll lockedOutTab.first (callsAt 2 0 ++ .redate () 0 .epoch ::
        .incident (.move (.overwrite none)) :: callsAt 7 5)).writers ()).own.map
      (fun p => p.history.entries.map (·.isOpen)) = [[true, true]] ∧
    ((lockedOutTab.undergoAll lockedOutTab.first (callsAt 2 0 ++ .redate () 0 .epoch ::
        .incident (.move (.overwrite none)) :: (callsAt 7 5 ++ callsAt 5 10))).writers ()).own.map
      (fun p => (p.notices.length, p.hasSession, p.find? (some (Timestamp.epoch.add 500))))
        = [(2, false, some ⟨none, none⟩)] := by
  decide +kernel

end Gathering

end SharedSession
