import SharedSession.Proofs.Record.Entries

set_option autoImplicit false

/-!
# Liveness in the course of time

A session that is not active at some moment is not active at any later one, and nothing but its
dates decides about that. So a record in which there is no session never holds one again.
-/

namespace SharedSession

namespace Record

/-- A session that is active now was active before. -/
theorem isActive_antitone {r : Record} {t u : Timestamp} {timeOut : Span} (h : t ≤ u)
    (hactive : r.isActive u timeOut = true) : r.isActive t timeOut = true := by
  unfold isActive at hactive ⊢
  rw [Bool.and_eq_true] at hactive ⊢
  obtain ⟨hage, hdeadline⟩ := hactive
  rw [Timestamp.le_iff] at h
  constructor
  · cases hcreated : r.created? with
    | none => rfl
    | some created =>
      rw [hcreated] at hage
      have hlt := of_decide_eq_true hage
      apply decide_eq_true
      rw [Timestamp.millis_sub] at hlt ⊢
      omega
  · cases hexpire : r.expire? with
    | none => rfl
    | some expire =>
      rw [hexpire] at hdeadline
      have hlt := of_decide_eq_true hdeadline
      apply decide_eq_true
      rw [Timestamp.lt_iff] at hlt ⊢
      omega

theorem isActive_eq_false_of_le {r : Record} {t u : Timestamp} {timeOut : Span} (h : t ≤ u)
    (hdead : r.isActive t timeOut = false) : r.isActive u timeOut = false := by
  cases hactive : r.isActive u timeOut with
  | false => rfl
  | true =>
    rw [isActive_antitone h hactive] at hdead
    cases hdead

/-- Only the two dates decide. -/
theorem isActive_congr {r s : Record} (hcreated : r.get? createdKey = s.get? createdKey)
    (hexpire : r.get? expireKey = s.get? expireKey) (now : Timestamp) (timeOut : Span) :
    r.isActive now timeOut = s.isActive now timeOut := by
  unfold isActive created? expire?
  rw [hcreated, hexpire]

theorem isActive_withoutLock (r : Record) (now : Timestamp) (timeOut : Span) :
    r.withoutLock.isActive now timeOut = r.isActive now timeOut :=
  isActive_congr (get?_withoutLock (by decide)) (get?_withoutLock (by decide)) now timeOut

theorem liveAt_of_active {r : Record} {now : Timestamp} {timeOut : Span}
    (h : r.isActive now timeOut = true) : r.liveAt now timeOut = r := by
  rw [liveAt, if_pos h]

theorem liveAt_of_inactive {r : Record} {now : Timestamp} {timeOut : Span}
    (h : r.isActive now timeOut = false) : r.liveAt now timeOut = ∅ := by
  rw [liveAt, h]
  rfl

theorem liveAt_empty (now : Timestamp) (timeOut : Span) : (∅ : Record).liveAt now timeOut = ∅ := by
  unfold liveAt
  rw [ite_self]

/-- The session that is live is active; where there is none, nothing says that it is not. -/
theorem isActive_liveAt (r : Record) (now : Timestamp) (timeOut : Span) :
    (r.liveAt now timeOut).isActive now timeOut = true := by
  cases hactive : r.isActive now timeOut with
  | true => rwa [liveAt_of_active hactive]
  | false =>
    rw [liveAt_of_inactive hactive]
    rfl

@[simp] theorem liveAt_liveAt (r : Record) (now : Timestamp) (timeOut : Span) :
    (r.liveAt now timeOut).liveAt now timeOut = r.liveAt now timeOut :=
  liveAt_of_active (r.isActive_liveAt now timeOut)

theorem liveAt_cases (r : Record) (now : Timestamp) (timeOut : Span) :
    r.liveAt now timeOut = r ∨ r.liveAt now timeOut = ∅ := by
  unfold liveAt
  split
  · exact .inl rfl
  · exact .inr rfl

/-- Whether there is no session in a record at a moment: it is inactive, or it holds nothing but
bookkeeping. -/
def IsOver (r : Record) (now : Timestamp) (timeOut : Span) : Prop :=
  (r.liveAt now timeOut).isCleared = true

theorem isOver_iff {r : Record} {now : Timestamp} {timeOut : Span} :
    r.IsOver now timeOut ↔ r.isActive now timeOut = false ∨ r.isCleared = true := by
  unfold IsOver
  cases hactive : r.isActive now timeOut with
  | true =>
    rw [liveAt_of_active hactive]
    exact ⟨.inr, fun h => h.resolve_left Bool.noConfusion⟩
  | false =>
    rw [liveAt_of_inactive hactive]
    exact ⟨fun _ => .inl rfl, fun _ => isCleared_empty⟩

/-- What is over stays over. -/
theorem IsOver.mono {r : Record} {t u : Timestamp} {timeOut : Span} (h : r.IsOver t timeOut)
    (hle : t ≤ u) : r.IsOver u timeOut := by
  rcases isOver_iff.1 h with hdead | hcleared
  · exact isOver_iff.2 (.inl (isActive_eq_false_of_le hle hdead))
  · exact isOver_iff.2 (.inr hcleared)

theorem IsOver.withoutLock {r : Record} {now : Timestamp} {timeOut : Span}
    (h : r.IsOver now timeOut) : r.withoutLock.IsOver now timeOut := by
  rcases isOver_iff.1 h with hdead | hcleared
  · exact isOver_iff.2 (.inl ((isActive_withoutLock r now timeOut).trans hdead))
  · exact isOver_iff.2 (.inr ((isCleared_withoutLock r).trans hcleared))

end Record

end SharedSession
