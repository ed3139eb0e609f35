import SharedSession.History

set_option autoImplicit false

/-!
# Entries of a history

What a single span says about the moments that it covers, and what the operations on a history do
to the one entry that may be open.

Main statements: `HistoryEntry.eq_stop_of_covers`, `History.HoldsOne.closed`,
`History.HoldsOne.clearOld`.
-/

namespace SharedSession

/-! ## Spans -/

namespace HistoryEntry

variable {α : Type} {e older newer : HistoryEntry α} {t stop now : Timestamp}

theorem start_le_of_covers (h : e.covers t = true) : e.start ≤ t := by
  simp only [covers, Bool.and_eq_true, decide_eq_true_eq] at h
  exact h.1

theorem le_stop_of_covers (h : e.covers t = true) (hstop : e.stop = some stop) : t ≤ stop := by
  simp only [covers, hstop, Bool.and_eq_true, decide_eq_true_eq] at h
  exact h.2

theorem exists_stop (h : e.isOpen = false) : ∃ stop, e.stop = some stop := by
  simp only [isOpen, Option.isNone_eq_false_iff] at h
  exact Option.isSome_iff_exists.1 h

/-- A span that ended before another one began has at most that instant in common with it. -/
theorem eq_stop_of_covers (hstop : older.stop = some stop) (hle : stop ≤ newer.start)
    (holder : older.covers t = true) (hnewer : newer.covers t = true) : t = stop := by
  have hstart := start_le_of_covers hnewer
  have hend := le_stop_of_covers holder hstop
  simp only [Timestamp.le_iff] at hle hstart hend
  ext
  omega

theorem endsFrom_of_isOpen (h : e.isOpen = true) (t : Timestamp) : e.endsFrom t = true := by
  rw [endsFrom, Option.isNone_iff_eq_none.1 h]

/-- What has ended keeps its end. -/
theorem close_of_closed (h : e.isOpen = false) (t : Timestamp) : e.close t = e := by
  obtain ⟨stop, hstop⟩ := exists_stop h
  obtain ⟨value, start, stop?⟩ := e
  cases hstop
  rfl

@[simp] theorem stop_close (e : HistoryEntry α) (now : Timestamp) :
    (e.close now).stop = some (e.stop.getD now) := rfl

theorem stop_getD_le (h : ∀ stop ∈ e.stop, stop ≤ now) : e.stop.getD now ≤ now := by
  cases hstop : e.stop with
  | none => exact Int.le_refl _
  | some stop => exact h stop hstop

end HistoryEntry

/-! ## Histories -/

namespace History

variable {α : Type} {h left : History α}

/-- At most the newest value still holds. -/
def HoldsOne (h : History α) : Prop := ∀ e ∈ h.entries.tail, e.isOpen = false

theorem holdsOne_reset_add (h : History α) (value : α) (start : Timestamp) :
    (h.reset.add value start).HoldsOne :=
  List.forall_mem_nil _

@[simp] theorem current?_closeActive (h : History α) (stop : Timestamp) :
    (h.closeActive stop).current? = none := by
  obtain ⟨retention, entries⟩ := h
  cases entries <;> rfl

/-- If nothing holds any more, nothing stands open. -/
theorem HoldsOne.closed (hone : h.HoldsOne) (hnone : h.current? = none) :
    ∀ e ∈ h.entries, e.isOpen = false := by
  obtain ⟨retention, entries⟩ := h
  cases entries with
  | nil => exact List.forall_mem_nil _
  | cons e es =>
    refine List.forall_mem_cons.2 ⟨?_, hone⟩
    rw [← Bool.not_eq_true]
    intro hopen
    simp [current?, hopen] at hnone

theorem HoldsOne.add (hone : h.HoldsOne) (hnone : h.current? = none) (value : α)
    (start : Timestamp) : (h.add value start).HoldsOne :=
  hone.closed hnone

theorem HoldsOne.closeActive (hone : h.HoldsOne) (stop : Timestamp) :
    (h.closeActive stop).HoldsOne := by
  obtain ⟨retention, entries⟩ := h
  cases entries with
  | nil => exact List.forall_mem_nil _
  | cons e es => exact hone

/-- Whatever stands open is what holds. -/
theorem HoldsOne.current?_eq (hone : h.HoldsOne) :
    h.current? = (h.entries.find? (·.isOpen)).map (·.value) := by
  obtain ⟨retention, entries⟩ := h
  cases entries with
  | nil => rfl
  | cons e es =>
    cases hopen : e.isOpen with
    | true => simp only [current?, List.head?_cons, Option.filter_some, List.find?_cons, hopen, if_true]
    | false =>
      have hrest : es.find? (·.isOpen) = none := by
        rw [List.find?_eq_none]
        intro e' he'
        rw [hone e' he']
        exact Bool.false_ne_true
      simp [current?, hopen, hrest]

theorem HoldsOne.of_sublist (hone : h.HoldsOne) (hsub : left.entries.Sublist h.entries) :
    left.HoldsOne :=
  fun e he => hone e (hsub.tail.subset he)

/-- What is forgotten has ended. -/
theorem HoldsOne.clearOld (hone : h.HoldsOne) (now : Timestamp) :
    (h.clearOld now).HoldsOne ∧ (h.clearOld now).current? = h.current? := by
  have hone' : (h.clearOld now).HoldsOne := hone.of_sublist List.filter_sublist
  refine ⟨hone', ?_⟩
  have hfind : (h.clearOld now).entries.find? (·.isOpen) = h.entries.find? (·.isOpen) := by
    rw [History.clearOld, List.find?_filter]
    congr 1
    funext e
    cases hopen : e.isOpen with
    | true => simp [HistoryEntry.endsFrom_of_isOpen hopen]
    | false => simp
  rw [hone'.current?_eq, hone.current?_eq, hfind]

/-- Where nothing stands open, there is nothing to end. -/
theorem closeActive_of_closed (hclosed : ∀ e ∈ h.entries, e.isOpen = false) (stop : Timestamp) :
    h.closeActive stop = h := by
  obtain ⟨retention, entries⟩ := h
  cases entries with
  | nil => rfl
  | cons e es => simp [closeActive, HistoryEntry.close_of_closed (hclosed e List.mem_cons_self)]

end History

end SharedSession
