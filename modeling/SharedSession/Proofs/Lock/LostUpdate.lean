import SharedSession.Proofs.Lock.Markers

set_option autoImplicit false

/-!
# When an update is lost

A cell cannot compare and swap, so between a read and the write that rests on it another writer may
do a whole operation. There are three such gaps in an attempt: before the token is written, before
the result is written and before the lock is released. What another operation settles with while a
writer stands in one of them is overwritten by that writer's next call, and its marker is gone from
the word. Where no operation settles at such a moment, no marker is ever lost.

Main statements: `Contest.update_lost`, two writers one of which loses its update;
`Contest.settled_kept_unless_overtaken`, when that happens and when it does not.
-/

namespace SharedSession

/-! ## What a poised writer is about to leave -/

namespace Stage

/-- The record that the next call is going to write, but for the token. -/
def intended : Stage → Record
  | .locking _ base => base
  | .writing _ result => result
  | .releasing result => result
  | _ => ∅

end Stage

namespace Contest

variable {κ σ : Type}

/-- What a poised writer is about to write is accounted for, its own operation included. -/
theorem Account.Sound.intended {P : Account κ} {key : String} {task : Ticket κ → Errand}
    {S : Set (Ticket κ)} {seen : Record} {mine : String → Prop} {t : Ticket κ} {s : Stage}
    (h : P.Sound key task S seen mine t s) (hclosed : P.Closed task)
    (hmono : ∀ t S word, P S word → P (insert t S) word) (hs : s.isPoised) :
    P (insert t S) (s.intended.word key) := by
  cases s with
  | locking token base => exact hmono t S _ h.2
  | writing token r => exact h.2
  | clearing =>
    show P (insert t S) ((∅ : Record).word key)
    rw [Record.word_empty]
    exact hclosed.clear h _
  | releasing r => exact h.2
  | _ => cases hs

variable [DecidableEq κ] {work : Workload κ σ} {c : Contest κ σ}

/-- A poised writer overwrites the cell with its next call, whatever is there. -/
theorem word_call_of_poised {key : String} (hkey : Record.IsPlainKey key)
    (hengaged : Engaged work c) {j : κ} (hpoised : (c.writers j).stage.isPoised)
    (now : Timestamp) :
    (c.call work j now).seen.word key = (c.writers j).stage.intended.word key := by
  have hne : (c.writers j).stage ≠ .opening := by
    intro heq
    rw [heq] at hpoised
    cases hpoised
  obtain ⟨op, hat⟩ := hengaged j hne
  rw [call_of_at hat]
  generalize (c.writers j).stage = s at hpoised hat ⊢
  cases s with
  | locking token base =>
    exact (Record.word_ofStored_stored hkey _).trans (Record.word_withLock hkey base token)
  | writing token r =>
    exact (Record.word_ofStored_stored hkey _).trans (Record.word_withLock hkey r token)
  | clearing => rfl
  | releasing r => exact Record.word_ofStored_stored hkey r
  | _ => cases hpoised

/-- A writer settles its operation with its last call. -/
theorem settled_call_of_settling (hengaged : Engaged work c) {i : κ}
    (hsettling : (c.writers i).stage.isSettling) (now : Timestamp) :
    c.ticket i ∈ (c.call work i now).settled := by
  have hne : (c.writers i).stage ≠ .opening := by
    intro heq
    rw [heq] at hsettling
    cases hsettling
  obtain ⟨op, hat⟩ := hengaged i hne
  rw [call_of_at hat]
  generalize (c.writers i).stage = s at hsettling hat ⊢
  cases s with
  | clearing => exact ⟨∅, mem_journal_put.2 (.inl ⟨rfl, List.mem_cons_self⟩)⟩
  | releasing r => exact ⟨r, mem_journal_put.2 (.inl ⟨rfl, List.mem_cons_self⟩)⟩
  | _ => cases hsettling

/-! ## An update that is lost -/

/-- Appending operations with their markers. -/
abbrev appends (marker : Ticket κ → String) (t : Ticket κ) : Errand := .append (marker t)

/-- The first writer reads the cell, the second does a whole operation, and the first goes on with
what it has read. -/
def overtaken : Contest Bool Unit :=
  afterCalls ([false] ++ List.replicate 7 true ++ List.replicate 6 false)

/-- Both operations have settled, no token was taken twice, and nobody has anything left to do; but
the marker of the second is not in the word. -/
theorem update_lost :
    pair.CarriesOut "v" (appends fun t => if t.1 then "B" else "A") ∧
    Reachable pair (start pair none .tallies fun _ => ()) overtaken ∧
      overtaken.tokens.Nodup ∧ (∀ i, (overtaken.current? pair i).isNone) ∧
      (false, 0) ∈ overtaken.settled ∧ (true, 0) ∈ overtaken.settled ∧
      overtaken.seen.word "v" = "A" := by
  refine ⟨pair_carriesOut, ⟨_, rfl⟩, by decide +kernel, by decide +kernel, ?_, ?_,
    by decide +kernel⟩
  · exact ⟨Record.ofList [("expire", "900"), ("v", "A")], by decide +kernel⟩
  · exact ⟨Record.ofList [("expire", "900"), ("v", "B")], by decide +kernel⟩

/-! ## Updates that are kept -/

/-- The word is a first word with the markers of exactly these operations behind it, each once. -/
def trailOf (task : Ticket κ → Errand) (first : String) : Account κ := fun S word =>
  ∃ ts, ts.Nodup ∧ (∀ t, t ∈ ts ↔ t ∈ S) ∧ word = trail task first ts

variable {marker : Ticket κ → String} {first : String}

omit [DecidableEq κ] in
theorem trailOf_closed : (trailOf (appends marker) first).Closed (appends marker) where
  append := by
    rintro S _ m t ⟨ts, hnodup, hts, rfl⟩ ht htask
    refine ⟨ts ++ [t], nodup_concat hnodup fun hmem => ht ((hts t).1 hmem), ?_, ?_⟩
    · intro u
      rw [List.mem_append, hts u, List.mem_singleton, Set.mem_insert_iff, or_comm]
    · rw [trail_concat, htask, Errand.trace]
  clear htask := nomatch htask

omit [DecidableEq κ] in
theorem trailWithin_closed : (trailWithin (appends marker) first).Closed (appends marker) where
  append := trailWithin_append
  clear htask := nomatch htask

/-- Where no operation settles over the head of a writer that is about to write, the markers of all
operations that have settled are in the word, each once, and no others but that of the holder of the
lock. -/
theorem exists_trail_of_undisturbed {key : String} (hkey : Record.IsPlainKey key)
    (hwork : work.CarriesOut key (appends marker)) {cell : Option String}
    (hfree : (Record.ofStored cell).lock? = none) {names : Supply} {own : κ → σ}
    {calls : List (κ × Timestamp)} (hc : c = (start work cell names own).interleave work calls)
    (htokens : c.tokens.Nodup) (hcalm : Undisturbed work calls (start work cell names own)) :
    ∃ ts, ts.Nodup ∧ (∀ t ∈ c.settled, t ∈ ts) ∧
      (∀ t ∈ ts, t ∈ c.settled ∨ ∃ token, c.seen.lock? = some token ∧ c.Drew t token) ∧
      c.seen.word key = trail (appends marker) ((Record.ofStored cell).word key) ts := by
  subst hc
  have hstart : trailOf (appends marker) ((Record.ofStored cell).word key) ∅
      ((Record.ofStored cell).word key) := ⟨[], List.nodup_nil, by simp, rfl⟩
  have h : Accounted (trailOf (appends marker) ((Record.ofStored cell).word key)) key
      (appends marker) (fun _ => False) ((start work cell names own).interleave work calls) :=
    Accounted.interleave hkey trailOf_closed hwork
      (accounted_start work names own hfree hstart) htokens (.inr ⟨hcalm, fun _ => id⟩)
  cases hseen : ((start work cell names own).interleave work calls).seen.lock? with
  | none =>
    obtain ⟨ts, hnodup, hts, hword⟩ := h.free hseen
    exact ⟨ts, hnodup, fun t => (hts t).2, fun t ht => .inl ((hts t).1 ht), hword⟩
  | some token =>
    obtain ⟨owner, hdrew, hword⟩ := h.held token hseen
    rcases hword with ⟨ts, hnodup, hts, hword⟩ | ⟨ts, hnodup, hts, hword⟩
    · exact ⟨ts, hnodup, fun t => (hts t).2, fun t ht => .inl ((hts t).1 ht), hword⟩
    · refine ⟨ts, hnodup, fun t ht => (hts t).2 (.inr ht), ?_, hword⟩
      intro t ht
      rcases (hts t).1 ht with rfl | hsettled
      · exact .inr ⟨token, rfl, hdrew⟩
      · exact .inl hsettled

/-- What settles while another writer is about to write is overwritten by that write: the marker is
not in the word then. -/
theorem exists_trail_of_overtaken {key : String} (hkey : Record.IsPlainKey key)
    (hwork : work.CarriesOut key (appends marker)) {cell : Option String}
    (hfree : (Record.ofStored cell).lock? = none) {names : Supply} {own : κ → σ}
    {before between : List (κ × Timestamp)} {x y : κ × Timestamp}
    (hc : c = (start work cell names own).interleave work (before ++ x :: between))
    (htokens : (c.call work y.1 y.2).tokens.Nodup)
    {c₀ : Contest κ σ} (hc₀ : c₀ = (start work cell names own).interleave work before)
    (hsettling : (c₀.writers x.1).stage.isSettling) (hne : y.1 ≠ x.1)
    (hpoised : (c₀.writers y.1).stage.isPoised) (hbetween : y.1 ∉ between.map Prod.fst) :
    c₀.ticket x.1 ∈ (c.call work y.1 y.2).settled ∧
      ∃ ts, ts.Nodup ∧ c₀.ticket x.1 ∉ ts ∧ (c.call work y.1 y.2).seen.word key
        = trail (appends marker) ((Record.ofStored cell).word key) ts := by
  have hstep : c = (c₀.call work x.1 x.2).interleave work between := by
    rw [hc, interleave_append, ← hc₀, interleave_cons]
  have hengaged : Engaged work c₀ := by
    rw [hc₀]
    exact engaged_interleave before (engaged_start work cell names own)
  have hengaged' : Engaged work c := by
    rw [hstep]
    exact engaged_interleave between (engaged_call hengaged x.1 x.2)
  have hgrown : c₀.journal <:+ (c.call work y.1 y.2).journal := by
    have hcall := suffix_journal_move work c₀ (.call x.1 x.2)
    have hbetween := suffix_journal_interleave work between (c₀.call work x.1 x.2)
    have hlast := suffix_journal_move work c (.call y.1 y.2)
    rw [← hstep] at hbetween
    exact (hcall.trans hbetween).trans hlast
  refine ⟨?_, ?_⟩
  · obtain ⟨r, hmem⟩ := settled_call_of_settling hengaged hsettling x.2
    have hbetween := suffix_journal_interleave work between (c₀.call work x.1 x.2)
    rw [← hstep] at hbetween
    exact ⟨r, (suffix_journal_move work c (.call y.1 y.2)).subset (hbetween.subset hmem)⟩
  · -- the writer in between still has in hand what it had before the other one settled
    have hsame : c.writers y.1 = c₀.writers y.1 := by
      rw [hstep, writers_interleave_of_not_called work hbetween, writers_call_of_ne work c₀ hne]
    have hword : (c.call work y.1 y.2).seen.word key
        = (c₀.writers y.1).stage.intended.word key := by
      rw [← hsame] at hpoised ⊢
      exact word_call_of_poised hkey hengaged' hpoised y.2
    have hmono : ∀ t S word, trailWithin (appends marker) ((Record.ofStored cell).word key) S word →
        trailWithin (appends marker) ((Record.ofStored cell).word key) (insert t S) word :=
      fun t S word => trailWithin_mono (Set.subset_insert t S)
    have h := accounted_of_reachable hkey trailWithin_closed hmono hwork hfree
      (trailWithin_empty _ _ ∅) ⟨before, hc₀⟩ (htokens.sublist (hgrown.sublist.filterMap _))
    obtain ⟨ts, hnodup, hts, hintended⟩ :=
      (h.stages y.1 trivial).intended trailWithin_closed hmono hpoised
    refine ⟨ts, hnodup, ?_, hword.trans hintended⟩
    intro hmem
    rcases hts _ hmem with heq | hsettled
    · exact hne (congrArg Prod.fst heq).symm
    · exact h.overOnce.ticket_not_settled x.1 hsettled

/-- An update is lost exactly where an operation settles over the head of a writer that is about to
write and then does so. If that happens nowhere, the word holds the markers of all operations that
have settled, each once. Where it happens, the write leaves a word without the marker of that
operation. -/
theorem settled_kept_unless_overtaken (work : Workload κ σ) (key : String)
    (marker : Ticket κ → String) (hkey : Record.IsPlainKey key)
    (hwork : work.CarriesOut key (appends marker)) (cell : Option String)
    (hfree : (Record.ofStored cell).lock? = none) (names : Supply) (own : κ → σ)
    (calls : List (κ × Timestamp)) (c : Contest κ σ)
    (hc : c = (start work cell names own).interleave work calls) (htokens : c.tokens.Nodup) :
    (Undisturbed work calls (start work cell names own) →
      ∃ ts, ts.Nodup ∧ (∀ t ∈ c.settled, t ∈ ts) ∧
        (∀ t ∈ ts, t ∈ c.settled ∨ ∃ token, c.seen.lock? = some token ∧ c.Drew t token) ∧
        c.seen.word key = trail (appends marker) ((Record.ofStored cell).word key) ts) ∧
    (∀ before x between y c₀, calls = before ++ x :: between ++ [y] →
      c₀ = (start work cell names own).interleave work before →
      (c₀.writers x.1).stage.isSettling → y.1 ≠ x.1 → (c₀.writers y.1).stage.isPoised →
      y.1 ∉ between.map Prod.fst →
        c₀.ticket x.1 ∈ c.settled ∧
          ∃ ts, ts.Nodup ∧ c₀.ticket x.1 ∉ ts ∧
            c.seen.word key = trail (appends marker) ((Record.ofStored cell).word key) ts) := by
  refine ⟨exists_trail_of_undisturbed hkey hwork hfree hc htokens, ?_⟩
  intro before x between y c₀ hcalls hc₀ hsettling hne hpoised hbetween
  have hlast : c = ((start work cell names own).interleave work (before ++ x :: between)).call work
      y.1 y.2 := by
    rw [hc, hcalls, interleave_append]
    rfl
  subst hlast
  exact exists_trail_of_overtaken hkey hwork hfree rfl htokens hc₀ hsettling hne hpoised hbetween

/-- The two writers do their operations one after the other. -/
def inTurn : Contest Bool Unit := afterCalls (List.replicate 7 false ++ List.replicate 7 true)

theorem kept_inTurn :
    inTurn.seen.word "v" = "AB" ∧
      ∃ ts, ts.Nodup ∧ (∀ t ∈ inTurn.settled, t ∈ ts) ∧
        (∀ t ∈ ts, t ∈ inTurn.settled ∨
          ∃ token, inTurn.seen.lock? = some token ∧ inTurn.Drew t token) ∧
        inTurn.seen.word "v" = trail (appends fun t => if t.1 then "B" else "A")
          ((Record.ofStored none).word "v") ts := by
  refine ⟨by decide +kernel, ?_⟩
  have hkey : Record.IsPlainKey "v" := ⟨by decide, by decide, by decide⟩
  exact (settled_kept_unless_overtaken pair "v" _ hkey pair_carriesOut none (by decide +kernel)
    .tallies (fun _ => ()) _ inTurn rfl (by decide +kernel)).1 (by decide +kernel)

end Contest

end SharedSession
