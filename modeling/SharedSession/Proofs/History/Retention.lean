import Mathlib.Data.List.Chain
import Mathlib.Data.List.Induction
import SharedSession.Proofs.History.Entries

set_option autoImplicit false

/-!
# What tidying takes from a history

A history is tidied from time to time, and what ended too long ago is forgotten. This module
compares a history that is tidied with one that goes through the same changes and never is. The
first has lost some of the entries of the second, and all of them had ended before the time that the
retention reaches back to. So it answers alike about the value that still holds, and about every
moment that no tidying has reached.

What it rests on is that something is ended between any two additions. Then only the newest entry
can be open, which tidying keeps; and if the newest has ended, ending it again changes nothing,
whether it is still there or has been forgotten.

Main statements: `Thinned.find?_eq`, `History.Trails.change`, `History.tidying_unnoticed`.
-/

namespace SharedSession

/-! ## Lists that have lost something -/

/-- The first list is the second without some of the elements of which `lost` holds. -/
inductive Thinned {ε : Type} (lost : ε → Prop) : List ε → List ε → Prop
  | nil : Thinned lost [] []
  | kept {left all : List ε} (e : ε) : Thinned lost left all → Thinned lost (e :: left) (e :: all)
  | dropped {left all : List ε} {e : ε} : lost e → Thinned lost left all →
      Thinned lost left (e :: all)

namespace Thinned

variable {ε : Type} {lost lost' : ε → Prop} {left all : List ε} {p : ε → Bool}

theorem sublist (h : Thinned lost left all) : left.Sublist all := by
  induction h with
  | nil => exact .slnil
  | kept e _ ih => exact ih.cons_cons e
  | dropped _ _ ih => exact ih.cons _

theorem mono (h : Thinned lost left all) (himp : ∀ e, lost e → lost' e) :
    Thinned lost' left all := by
  induction h with
  | nil => exact .nil
  | kept e _ ih => exact .kept e ih
  | dropped hlost _ ih => exact .dropped (himp _ hlost) ih

/-- More may be lost from what is left. -/
theorem filter (h : Thinned lost left all) (hp : ∀ e, p e = false → lost e) :
    Thinned lost (left.filter p) all := by
  induction h with
  | nil => exact .nil
  | kept e _ ih =>
    cases he : p e with
    | true =>
      rw [List.filter_cons_of_pos he]
      exact .kept e ih
    | false =>
      rw [List.filter_cons_of_neg (by simp [he])]
      exact .dropped (hp e he) ih
  | dropped hlost _ ih => exact .dropped hlost ih

/-- What is looked for is found alike, if nothing of the kind is lost. -/
theorem find?_eq (h : Thinned lost left all) (hp : ∀ e, lost e → p e = false) :
    left.find? p = all.find? p := by
  induction h with
  | nil => rfl
  | kept e _ ih => rw [List.find?_cons, List.find?_cons, ih]
  | dropped hlost _ ih => rw [List.find?_cons, hp _ hlost, ih]

theorem filter_eq (h : Thinned lost left all) (hp : ∀ e, lost e → p e = false) :
    left.filter p = all.filter p := by
  induction h with
  | nil => rfl
  | kept e _ ih => rw [List.filter_cons, List.filter_cons, ih]
  | dropped hlost _ ih => rw [ih, List.filter_cons_of_neg (by simp [hp _ hlost])]

end Thinned

namespace History

variable {α : Type}

/-! ## Changes -/

/-- What is done to a history. -/
inductive Change (α : Type)
  | add (value : α) (start : Timestamp)
  | closeActive (stop : Timestamp)
  | clearOld (now : Timestamp)
deriving DecidableEq

/-- Whether a change only tidies. -/
def Change.isTidying : Change α → Bool
  | .clearOld _ => true
  | _ => false

/-- Whether a change adds an entry. -/
def Change.isAddition : Change α → Bool
  | .add .. => true
  | _ => false

/-- The history after a change. -/
def change (h : History α) : Change α → History α
  | .add value start => h.add value start
  | .closeActive stop => h.closeActive stop
  | .clearOld now => h.clearOld now

/-- The history after one change after another. -/
def changeAll (h : History α) (changes : List (Change α)) : History α := changes.foldl change h

/-- The changes without those that tidy. -/
def untidied (changes : List (Change α)) : List (Change α) := changes.filter (!·.isTidying)

/-- Something is ended between any two additions. -/
def EndsBetween (changes : List (Change α)) : Prop :=
  ∀ before between after value value' start start',
    changes = before ++ .add value start :: between ++ .add value' start' :: after →
      ∃ stop, .closeActive stop ∈ between

/-- A moment that no tidying among the changes reaches: the retention before each goes back no
further than to it. -/
def IsWithin (retention : Span) (changes : List (Change α)) (t : Timestamp) : Prop :=
  ∀ now, .clearOld now ∈ changes → now.back retention.millis ≤ t

variable {retention : Span} {changes done : List (Change α)} {c : Change α}
  {left all : History α} {e : HistoryEntry α} {t : Timestamp}

theorem changeAll_concat (h : History α) (changes : List (Change α)) (c : Change α) :
    h.changeAll (changes ++ [c]) = (h.changeAll changes).change c := by
  simp [changeAll]

theorem untidied_concat (changes : List (Change α)) (c : Change α) :
    untidied (changes ++ [c])
      = if c.isTidying then untidied changes else untidied changes ++ [c] := by
  cases hc : c.isTidying <;> simp [untidied, hc]

theorem EndsBetween.of_prefix (h : EndsBetween changes) (hdone : done <+: changes) :
    EndsBetween done := by
  obtain ⟨rest, rfl⟩ := hdone
  intro before between after value value' start start' heq
  refine h before between (after ++ rest) value value' start start' ?_
  rw [heq]
  simp

/-- It is enough that no two additions follow one another once the tidying is left out. -/
theorem endsBetween_of_isChain
    (h : (untidied changes).IsChain fun a b => ¬ (a.isAddition ∧ b.isAddition)) :
    EndsBetween changes := by
  rintro before between after value value' start start' rfl
  have hsplit : untidied (before ++ .add value start :: between ++ .add value' start' :: after)
      = untidied before
        ++ (.add value start :: untidied between ++ .add value' start' :: untidied after) := by
    simp [untidied, Change.isTidying]
  rw [hsplit] at h
  have hrest := h.right_of_append
  -- what comes next after the first of the two is an end
  cases hbetween : untidied between with
  | nil =>
    rw [hbetween] at hrest
    exact absurd ⟨rfl, rfl⟩ hrest.rel
  | cons c cs =>
    rw [hbetween] at hrest
    have hc : ¬ ((Change.add value start).isAddition ∧ c.isAddition) := hrest.rel
    have hmem : c ∈ untidied between := by
      rw [hbetween]
      exact List.mem_cons_self
    obtain ⟨hmem, hplain⟩ := List.mem_filter.1 hmem
    cases c with
    | add value'' start'' => exact absurd ⟨rfl, rfl⟩ hc
    | closeActive stop => exact ⟨stop, hmem⟩
    | clearOld now => cases hplain

/-! ## A tidied history and one that is not -/

/-- An entry that some tidying among the changes has no use for. -/
def IsForgettable (retention : Span) (changes : List (Change α)) (e : HistoryEntry α) : Prop :=
  ∃ now, .clearOld now ∈ changes ∧ e.endsFrom (now.back retention.millis) = false

theorem IsForgettable.concat (h : IsForgettable retention changes e) :
    IsForgettable retention (changes ++ [c]) e := by
  obtain ⟨now, hmem, hends⟩ := h
  exact ⟨now, List.mem_append_left _ hmem, hends⟩

theorem IsForgettable.isOpen_eq (h : IsForgettable retention changes e) : e.isOpen = false := by
  obtain ⟨now, -, hends⟩ := h
  rw [← Bool.not_eq_true]
  intro hopen
  rw [HistoryEntry.endsFrom_of_isOpen hopen] at hends
  cases hends

/-- What may be forgotten covers no moment that the tidying does not reach. -/
theorem IsForgettable.covers_eq (h : IsForgettable retention changes e)
    (ht : IsWithin retention changes t) : e.covers t = false := by
  obtain ⟨stop, hstop⟩ := HistoryEntry.exists_stop h.isOpen_eq
  obtain ⟨now, hmem, hends⟩ := h
  rw [← Bool.not_eq_true]
  intro hcovers
  have hthreshold : now.back retention.millis ≤ t := ht now hmem
  have hlast : t ≤ stop := HistoryEntry.le_stop_of_covers hcovers hstop
  have hended : ¬ now.back retention.millis ≤ stop := by
    simpa [HistoryEntry.endsFrom, hstop] using hends
  exact hended (Int.le_trans hthreshold hlast)

/-- A history that has gone through the changes, and another that has gone through those which do
not tidy: the first has lost only what may be forgotten. In the other only the newest entry may be
open, and if it is, nothing has been ended since it was added. -/
structure Trails (retention : Span) (changes : List (Change α)) (left all : History α) : Prop where
  retention_eq : left.retention = retention
  thinned : Thinned (IsForgettable retention changes) left.entries all.entries
  holdsOne : all.HoldsOne
  begun : all.current? ≠ none → ∃ before value start between,
    changes = before ++ .add value start :: between ∧ ∀ stop, .closeActive stop ∉ between

namespace Trails

theorem new (retention : Span) :
    Trails retention [] (new retention : History α) (new retention) where
  retention_eq := rfl
  thinned := .nil
  holdsOne := List.forall_mem_nil _
  begun h := absurd rfl h

/-- Where something may be added, nothing stands open. -/
theorem current?_eq_none {value : α} {start : Timestamp} (h : Trails retention changes left all)
    (hends : EndsBetween (changes ++ [.add value start])) : all.current? = none := by
  apply Classical.byContradiction
  intro hcurrent
  obtain ⟨before, value', start', between, heq, hnone⟩ := h.begun hcurrent
  obtain ⟨stop, hstop⟩ := hends before between [] value' value start' start (by rw [heq])
  exact hnone stop hstop

theorem add (h : Trails retention changes left all) (value : α) (start : Timestamp)
    (hends : EndsBetween (changes ++ [.add value start])) :
    Trails retention (changes ++ [.add value start]) (left.add value start)
      (all.add value start) where
  retention_eq := h.retention_eq
  thinned := .kept _ (h.thinned.mono fun _ => .concat)
  holdsOne := h.holdsOne.add (h.current?_eq_none hends) value start
  begun _ := ⟨changes, value, start, [], rfl, fun _ => List.not_mem_nil⟩

/-- The newest entry is the same in both, or everything has ended in both. -/
theorem closeActive_thinned (h : Trails retention changes left all) (stop : Timestamp) :
    Thinned (IsForgettable retention changes) (left.closeActive stop).entries
      (all.closeActive stop).entries := by
  obtain ⟨retention', entries⟩ := all
  obtain ⟨retention'', entries'⟩ := left
  have hthinned : Thinned (IsForgettable retention changes) entries' entries := h.thinned
  cases hthinned with
  | nil => exact .nil
  | kept e hrest => exact .kept _ hrest
  | @dropped _ es e hlost hrest =>
    -- the newest could be forgotten, so it has ended, and with it all that is left
    have hclosed : ∀ e' ∈ e :: es, e'.isOpen = false :=
      List.forall_mem_cons.2 ⟨hlost.isOpen_eq, h.holdsOne⟩
    have hclosed' : ∀ e' ∈ entries', e'.isOpen = false := by
      intro e' he'
      exact hclosed e' (h.thinned.sublist.subset he')
    have hleft := closeActive_of_closed (h := ⟨retention'', entries'⟩) hclosed' stop
    have hall := closeActive_of_closed (h := ⟨retention', e :: es⟩) hclosed stop
    rw [hleft, hall]
    exact h.thinned

theorem closeActive (h : Trails retention changes left all) (stop : Timestamp) :
    Trails retention (changes ++ [.closeActive stop]) (left.closeActive stop)
      (all.closeActive stop) where
  retention_eq := h.retention_eq
  thinned := (h.closeActive_thinned stop).mono fun _ => .concat
  holdsOne := h.holdsOne.closeActive stop
  begun hcurrent := absurd (current?_closeActive all stop) hcurrent

theorem clearOld (h : Trails retention changes left all) (now : Timestamp) :
    Trails retention (changes ++ [.clearOld now]) (left.clearOld now) all where
  retention_eq := h.retention_eq
  thinned := by
    apply (h.thinned.mono fun _ => .concat).filter
    intro e he
    rw [h.retention_eq] at he
    exact ⟨now, List.mem_append_right _ List.mem_cons_self, he⟩
  holdsOne := h.holdsOne
  begun := by
    intro hcurrent
    obtain ⟨before, value, start, between, heq, hnone⟩ := h.begun hcurrent
    refine ⟨before, value, start, between ++ [.clearOld now], by simp [heq], ?_⟩
    intro stop hstop
    simp only [List.mem_append, List.mem_singleton, reduceCtorEq, or_false] at hstop
    exact hnone stop hstop

/-- Both go through a change, or the first is tidied. -/
theorem change (h : Trails retention changes left all) (hends : EndsBetween (changes ++ [c])) :
    Trails retention (changes ++ [c]) (left.change c)
      (if c.isTidying then all else all.change c) := by
  cases c with
  | add value start => exact h.add value start hends
  | closeActive stop => exact h.closeActive stop
  | clearOld now => exact h.clearOld now

/-- Every run, by induction on its changes. -/
theorem changeAll (retention : Span) (changes : List (Change α)) (hends : EndsBetween changes) :
    Trails retention changes ((History.new retention).changeAll changes)
      ((History.new retention).changeAll (untidied changes)) := by
  induction changes using List.reverseRecOn with
  | nil => exact new retention
  | append_singleton changes c ih =>
    have hstep := (ih (hends.of_prefix (List.prefix_append changes [c]))).change hends
    rw [changeAll_concat, untidied_concat]
    cases hc : c.isTidying with
    | true => simpa [hc] using hstep
    | false => simpa [hc, changeAll_concat] using hstep

/-- What still holds is the same in both. -/
theorem current?_eq (h : Trails retention changes left all) : left.current? = all.current? := by
  have hfind : left.entries.find? (·.isOpen) = all.entries.find? (·.isOpen) :=
    h.thinned.find?_eq fun _ => IsForgettable.isOpen_eq
  have hone : left.HoldsOne := h.holdsOne.of_sublist h.thinned.sublist
  rw [hone.current?_eq, h.holdsOne.current?_eq, hfind]

/-- So is what held at a moment that no tidying has reached. -/
theorem at?_eq (h : Trails retention changes left all) (ht : IsWithin retention changes t) :
    left.at? t = all.at? t := by
  rw [at?, at?, h.thinned.find?_eq fun _ hlost => hlost.covers_eq ht]

end Trails

/-- A history that is tidied now and then answers, after any of the changes, like one that never
is: about the value that still holds, and about every moment that no tidying so far has reached. What
stands open in one stands open in the other. -/
theorem tidying_unnoticed (retention : Span) (hends : EndsBetween changes)
    (hdone : done <+: changes) :
    let tidied := (new retention).changeAll done
    let full := (new retention).changeAll (untidied done)
    tidied.find? none = full.find? none ∧
      (∀ t, IsWithin retention done t → tidied.find? (some t) = full.find? (some t)) ∧
      tidied.entries.filter (·.isOpen) = full.entries.filter (·.isOpen) := by
  intro tidied full
  have h : Trails retention done tidied full := .changeAll retention done (hends.of_prefix hdone)
  refine ⟨h.current?_eq, ?_, ?_⟩
  · intro t ht
    exact h.at?_eq ht
  · exact h.thinned.filter_eq fun _ => IsForgettable.isOpen_eq

/-- A value that ended at 100, and one that holds from 1600 on. The first is kept as long as the
retention of 1000 reaches its end, and forgotten by the second tidying; it is then no longer there
to be ended once more. -/
def relay : List (Change Nat) :=
  [.add 1 (.clamp 0), .closeActive (.clamp 100), .clearOld (.clamp 1100), .clearOld (.clamp 1101),
    .closeActive (.clamp 1500), .add 2 (.clamp 1600), .clearOld (.clamp 2600)]

/-- The relay is answered about alike from the last threshold on, though one entry of two is gone;
about an earlier moment it is not. -/
theorem tidying_unnoticed_relay :
    EndsBetween relay ∧ IsWithin (.ofMillis 1000) relay (.clamp 1600) ∧
      (let tidied := (new (.ofMillis 1000)).changeAll relay
       let full := (new (.ofMillis 1000)).changeAll (untidied relay)
       (tidied.size = 1 ∧ full.size = 2) ∧
       (tidied.find? (some (.clamp 50)) = none ∧ full.find? (some (.clamp 50)) = some 1) ∧
       (tidied.find? none = full.find? none ∧ full.find? none = some 2) ∧
       tidied.find? (some (.clamp 1600)) = full.find? (some (.clamp 1600))) := by
  have hends : EndsBetween relay := endsBetween_of_isChain (by decide)
  have hwithin : IsWithin (.ofMillis 1000) relay (.clamp 1600) := by
    intro now hnow
    simp only [relay, List.mem_cons, reduceCtorEq, Change.clearOld.injEq, List.not_mem_nil,
      or_false, false_or] at hnow
    obtain rfl | rfl | rfl := hnow <;> decide
  obtain ⟨hcurrent, hat, -⟩ :=
    tidying_unnoticed (.ofMillis 1000) hends (List.prefix_refl relay)
  exact ⟨hends, hwithin, by decide, by decide, ⟨hcurrent, by decide⟩, hat _ hwithin⟩

end History

end SharedSession
