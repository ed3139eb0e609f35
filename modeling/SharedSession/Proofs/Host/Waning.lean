import SharedSession.Proofs.Host.Course
import SharedSession.Proofs.Product.Notices

set_option autoImplicit false

/-!
# Sessions that only wane

Products that prolong their sessions, look after the record and end their sessions never begin one
and never bring one back. What they leave in the cell, in whichever order they come and whatever
they still have in their caches, is what was there at first with another deadline, or nothing; and
once there is no session in the cell there is none later.

Main statements: `Request.prolongs_transform`, `Course.fades_step`, `Course.only_wanes`.
-/

namespace SharedSession

/-! ## What may take the place of a record -/

namespace Record

/-- The record is another one but for the lock. It has a new deadline only if there is a session in
it and the other was active. -/
structure Prolongs (r old : Record) (now : Timestamp) (timeOut : Span) : Prop where
  rest : ∀ key, key ≠ lockKey → key ≠ expireKey → r.get? key = old.get? key
  deadline : r.get? expireKey = old.get? expireKey ∨
    r.isCleared = false ∧ old.isActive now timeOut = true

/-- What may take the place of a record where nobody begins a session: the same session, or
nothing. -/
inductive Fades (now : Timestamp) (timeOut : Span) (old : Record) : Record → Prop where
  | removed : Fades now timeOut old ∅
  | prolonged {r : Record} (h : r.Prolongs old now timeOut) : Fades now timeOut old r

variable {r old s : Record} {now u : Timestamp} {timeOut : Span}

theorem prolongs_refl (r : Record) (now : Timestamp) (timeOut : Span) :
    r.Prolongs r now timeOut := ⟨fun _ _ _ => rfl, .inl rfl⟩

theorem fades_refl (r : Record) (now : Timestamp) (timeOut : Span) : r.Fades now timeOut r :=
  .prolonged (prolongs_refl r now timeOut)

theorem Prolongs.withLock (h : r.Prolongs old now timeOut) (token : String) :
    (r.withLock token).Prolongs old now timeOut where
  rest key hlock hexpire := (get?_withLock hlock token).trans (h.rest key hlock hexpire)
  deadline := by
    rw [get?_withLock (by decide), isCleared_withLock]
    exact h.deadline

theorem Prolongs.of_withoutLock (h : r.Prolongs old.withoutLock now timeOut) :
    r.Prolongs old now timeOut where
  rest key hlock hexpire := (h.rest key hlock hexpire).trans (get?_withoutLock hlock)
  deadline := by
    have hkept : old.withoutLock.get? expireKey = old.get? expireKey := get?_withoutLock (by decide)
    rw [← hkept, ← isActive_withoutLock]
    exact h.deadline

/-- A session that is active may get any deadline. -/
theorem prolongs_expand (hcleared : old.isCleared = false)
    (hactive : old.isActive now timeOut = true) (t : Timestamp) (d : Span) :
    (old.expand t d).Prolongs old now timeOut :=
  ⟨fun _ _ hexpire => get?_expand hexpire t d, .inr ⟨(isCleared_expand old t d).trans hcleared,
    hactive⟩⟩

theorem Prolongs.get?_empty (h : r.Prolongs old now timeOut) (hold : old.get? "" = none) :
    r.get? "" = none := (h.rest "" (by decide) (by decide)).trans hold

theorem Prolongs.fades_stored (h : r.Prolongs old now timeOut) (hold : old.get? "" = none) :
    old.Fades now timeOut (ofStored r.stored) := by
  rw [ofStored_stored, erase_of_get?_eq_none (h.get?_empty hold)]
  exact .prolonged h

theorem Prolongs.isCleared_eq (h : r.Prolongs old now timeOut) : r.isCleared = old.isCleared :=
  isCleared_congr h.rest

/-- What is over does not come back. -/
theorem Fades.isOver (h : old.Fades now timeOut r) (hle : u ≤ now)
    (hover : old.IsOver u timeOut) : r.IsOver u timeOut := by
  cases h with
  | removed => exact isOver_iff.2 (.inr isCleared_empty)
  | prolonged h =>
    rcases isOver_iff.1 hover with hdead | hcleared
    · refine isOver_iff.2 (.inl ?_)
      rcases h.deadline with hsame | ⟨-, hactive⟩
      · rw [isActive_congr (h.rest createdKey (by decide) (by decide)) hsame]
        exact hdead
      · rw [isActive_antitone hle hactive] at hdead
        cases hdead
    · exact isOver_iff.2 (.inr (h.isCleared_eq.trans hcleared))

/-- Whether a record holds nothing but a lock, or what another one holds but for its lock and its
deadline. -/
def IsRemnantOf (first r : Record) : Prop :=
  r.withoutLock = ∅ ∨ ∀ key, key ≠ lockKey → key ≠ expireKey → r.get? key = first.get? key

/-- What is left of a record stays so when it fades. -/
theorem Fades.isRemnantOf {first : Record} (h : old.Fades now timeOut r)
    (hold : first.IsRemnantOf old) : first.IsRemnantOf r := by
  cases h with
  | removed => exact .inl (erase_empty lockKey)
  | prolonged h =>
    rcases hold with hnone | hrest
    · refine .inl ?_
      ext1 key
      by_cases hlock : key = lockKey
      · rw [hlock, withoutLock, get?_erase, if_pos rfl, get?_empty]
      · have hold : ∀ k, k ≠ lockKey → old.get? k = none := by
          intro k hk
          rw [← get?_withoutLock hk, hnone, get?_empty]
        rw [get?_withoutLock hlock, get?_empty]
        by_cases hexpire : key = expireKey
        · rcases h.deadline with hsame | ⟨hsession, -⟩
          · rw [hexpire, hsame]
            exact hold expireKey (by decide)
          · -- there is no session in it, so there is no new deadline either
            rw [h.isCleared_eq, ← isCleared_withoutLock, hnone, isCleared_empty] at hsession
            cases hsession
        · rw [h.rest key hlock hexpire]
          exact hold key hlock
    · exact .inr fun key hlock hexpire =>
        (h.rest key hlock hexpire).trans (hrest key hlock hexpire)

end Record

/-! ## What is asked for -/

/-- No request but that of activity makes anything else of a record. -/
theorem Request.prolongs_transform {q : Request} (hq : q ≠ .expandOrRenew) {o : Occasion}
    {r : Record} {p : Product} {d : Span} {s : Record}
    (h : (q.operation.transform o r p).1.resolve o.now d = .persist s) :
    s.Prolongs r o.now p.timeOut := by
  obtain ⟨t, ht, hcleared, rfl⟩ := Outcome.eq_of_resolve_persist h
  have hanswers := q.answers_transform o r p
  generalize q.operation.transform o r p = x at hanswers ht
  cases hanswers with
  | renewing => exact absurd rfl hq
  | prolonging =>
    cases ht
    cases hactive : r.isActive o.now p.timeOut with
    | true =>
      rw [Record.liveAt_of_active hactive, ← Record.isCleared_withoutLock] at hcleared
      rw [Record.liveAt_of_active hactive]
      exact (Record.prolongs_expand hcleared
        ((Record.isActive_withoutLock r o.now p.timeOut).trans hactive) o.now d).of_withoutLock
    | false =>
      rw [Record.liveAt_of_inactive hactive, Record.isCleared_empty] at hcleared
      cases hcleared
  | _ => cases ht

/-! ## What is left in the cell -/

/-- Everything that an attempt leaves in a cell may take the place of what was there. -/
theorem Logbook.fades_contents {l : Logbook} {timeOut : Span} {now : Timestamp} {resolved : Outcome}
    (h : ∀ s, resolved = .persist s → s.Prolongs l.seen now timeOut) (locking : Bool)
    (token : String) :
    ∀ content ∈ Attempt.contents locking token l.seen resolved,
      l.seen.Fades now timeOut (Record.ofStored content) := by
  have hempty : l.seen.get? "" = none := Record.get?_ofStored_empty l.cell
  have hsame : l.seen.Prolongs l.seen now timeOut := Record.prolongs_refl _ _ _
  intro content hmem
  cases resolved with
  | persist s =>
    have hs : s.Prolongs l.seen now timeOut := h s rfl
    cases locking with
    | true =>
      have hfreed : s.erase "" = s := Record.erase_of_get?_eq_none (hs.get?_empty hempty)
      simp only [Attempt.contents, Attempt.closing, hfreed, reduceIte, List.cons_append,
        List.nil_append, List.mem_cons, List.not_mem_nil, or_false] at hmem
      rcases hmem with rfl | rfl | rfl
      · exact hs.fades_stored hempty
      · exact (hs.withLock token).fades_stored hempty
      · exact (hsame.withLock token).fades_stored hempty
    | false =>
      obtain rfl := List.mem_singleton.1 hmem
      exact hs.fades_stored hempty
  | clear =>
    cases locking with
    | true =>
      rcases List.mem_cons.1 hmem with rfl | hmem
      · exact .removed
      · obtain rfl := List.mem_singleton.1 hmem
        exact (hsame.withLock token).fades_stored hempty
    | false =>
      obtain rfl := List.mem_singleton.1 hmem
      exact .removed
  | unchanged =>
    cases locking with
    | true =>
      rcases List.mem_cons.1 hmem with rfl | hmem
      · exact hsame.fades_stored hempty
      · obtain rfl := List.mem_singleton.1 hmem
        exact (hsame.withLock token).fades_stored hempty
    | false => cases hmem

/-- What is seen then is what was seen before, or the last of what was left. -/
theorem Logbook.seen_leaveAll_cases (l : Logbook) (contents : List (Option String)) :
    (l.leaveAll contents).seen = l.seen ∨
      ∃ content ∈ contents, (l.leaveAll contents).seen = Record.ofStored content := by
  cases contents with
  | nil => exact .inl rfl
  | cons content contents => exact .inr ⟨content, List.mem_cons_self, rfl⟩

/-! ## Courses in which nobody begins a session -/

/-- Whether nothing happens that could begin a session, and a product that is started has the
time-out that all have. -/
def Event.IsQuiet (timeOut : Span) : Event → Prop
  | .start _ _ t => t = timeOut
  | .attempt _ q _ => q ≠ .expandOrRenew
  | _ => True

instance (timeOut : Span) (e : Event) : Decidable (e.IsQuiet timeOut) := by
  cases e <;> unfold Event.IsQuiet <;> infer_instance

namespace Course

/-- The sessions that products announced as begun. -/
def beginnings (c : Course) : List Notice := c.products.flatMap Product.beginnings

variable {locking : Bool} {c : Course} {now : Timestamp} {i : Nat} {q : Request} {d : Span}
  {timeOut : Span} {e : Event} {events : List (Timestamp × Event)}

theorem beginnings_step (he : e.IsQuiet timeOut) :
    (c.step locking now e).beginnings = c.beginnings := by
  have hmap : ∀ ps : List Product,
      ps.map Product.beginnings = c.products.map Product.beginnings →
        ps.flatMap Product.beginnings = c.beginnings := by
    intro ps hps
    rw [beginnings, List.flatMap_def, List.flatMap_def, hps]
  cases e with
  | start key compute t =>
    show (c.products ++ [Product.new key compute t now _]).flatMap Product.beginnings = c.beginnings
    rw [List.flatMap_append]
    exact List.append_nil _
  | attempt i q d =>
    exact hmap _ (map_products_attempt (c := c.moveTo now) (Product.beginnings_transform q)
      (Product.beginnings_settle he now))
  | giveUp i =>
    exact hmap _ (map_modify_eq (fun p => p.beginnings_synchronize now ∅) c.products i)
  | forget i =>
    exact hmap _ (map_modify_eq (f := (·.clearOldHistory now)) (fun _ => rfl) c.products i)
  | redate i start =>
    exact hmap _ (map_modify_eq (f := (·.resetHistory start)) (fun _ => rfl) c.products i)

/-- What an attempt leaves in the cell may take the place of what was there. -/
theorem fades_attempt (h : ∀ p ∈ c.products, p.timeOut = timeOut) (hq : q ≠ .expandOrRenew) :
    c.seen.Fades now timeOut (c.attempt locking now i q d).seen ∧
    ∃ new, (c.attempt locking now i q d).deposits = new ++ c.deposits ∧
      ∀ x ∈ new, c.seen.Fades now timeOut x.record := by
  have hsame : c.seen.Fades now timeOut c.seen := Record.fades_refl _ _ _
  rcases attempt_cases locking c now i q d with heq | ⟨token, n, answer, own, -, htransform, heq⟩
  · rw [heq]
    exact ⟨hsame, [], rfl, List.forall_mem_nil _⟩
  · have hstored : ∀ s, answer.resolve now d = .persist s → s.Prolongs c.seen now timeOut := by
      intro s hs
      rcases Operation.transform_onIndex_cases htransform with ⟨rfl, -⟩ | ⟨p, hp, rfl, -⟩
      · cases hs
      · rw [← h p (List.mem_of_getElem? hp)]
        exact (Request.prolongs_transform hq hs).of_withoutLock
    have hcontents := Logbook.fades_contents hstored locking token
    rw [heq]
    refine ⟨?_, _, rfl, ?_⟩
    · show c.seen.Fades now timeOut (c.world.medium.leaveAll _).seen
      rcases c.world.medium.seen_leaveAll_cases
          (Attempt.contents locking token c.seen (answer.resolve now d)) with
        hseen | ⟨content, hmem, hseen⟩
      · rw [hseen]
        exact hsame
      · rw [hseen]
        exact hcontents content hmem
    · intro x hx
      obtain ⟨content, hmem, rfl⟩ := List.mem_map.1 hx
      exact hcontents content hmem

theorem fades_step (h : ∀ p ∈ c.products, p.timeOut = timeOut) (he : e.IsQuiet timeOut)
    (locking : Bool) (now : Timestamp) :
    c.seen.Fades now timeOut (c.step locking now e).seen ∧
    ∃ new, (c.step locking now e).deposits = new ++ c.deposits ∧
      ∀ x ∈ new, c.seen.Fades now timeOut x.record := by
  have hsame : c.seen.Fades now timeOut c.seen := Record.fades_refl _ _ _
  cases e with
  | attempt i q d => exact fades_attempt (c := c.moveTo now) h he
  | _ => exact ⟨hsame, [], rfl, List.forall_mem_nil _⟩

theorem timeOut_step (h : ∀ p ∈ c.products, p.timeOut = timeOut) (he : e.IsQuiet timeOut)
    (locking : Bool) (now : Timestamp) :
    ∀ p ∈ (c.step locking now e).products, p.timeOut = timeOut := by
  refine forall_traits_step (P := fun t => t.timeOut = timeOut) h ?_ locking now
  rintro key compute t rfl
  exact he

theorem timeOut_run (h : ∀ p ∈ c.products, p.timeOut = timeOut)
    (hevents : ∀ e ∈ events, e.2.IsQuiet timeOut) :
    ∀ p ∈ (c.run locking events).products, p.timeOut = timeOut := by
  induction events generalizing c with
  | nil => exact h
  | cons e events ih =>
    exact ih (timeOut_step h (hevents e List.mem_cons_self) locking e.1)
      fun e' he' => hevents e' (List.mem_cons_of_mem e he')

theorem beginnings_run (hevents : ∀ e ∈ events, e.2.IsQuiet timeOut) :
    (c.run locking events).beginnings = c.beginnings := by
  induction events generalizing c with
  | nil => rfl
  | cons e events ih =>
    exact (ih fun e' he' => hevents e' (List.mem_cons_of_mem e he')).trans
      (beginnings_step (hevents e List.mem_cons_self))

/-- A property that no record loses when it fades is never lost. -/
theorem lasts_run {P : Record → Prop} (h : ∀ p ∈ c.products, p.timeOut = timeOut)
    (hevents : ∀ e ∈ events, e.2.IsQuiet timeOut)
    (hP : ∀ e ∈ events, ∀ r s, r.Fades e.1 timeOut s → P r → P s) (hseen : P c.seen)
    (locking : Bool) :
    P (c.run locking events).seen ∧
    ∃ new, (c.run locking events).deposits = new ++ c.deposits ∧ ∀ x ∈ new, P x.record := by
  induction events generalizing c with
  | nil => exact ⟨hseen, [], rfl, List.forall_mem_nil _⟩
  | cons e events ih =>
    have hhere : e ∈ e :: events := List.mem_cons_self
    obtain ⟨hfades, first, hfirst, hcontents⟩ :=
      fades_step h (hevents e hhere) locking e.1
    obtain ⟨hlast, new, hnew, hrest⟩ := ih (timeOut_step h (hevents e hhere) locking e.1)
      (fun e' he' => hevents e' (List.mem_cons_of_mem e he'))
      (fun e' he' => hP e' (List.mem_cons_of_mem e he')) (hP e hhere _ _ hfades hseen)
    refine ⟨hlast, new ++ first, ?_, ?_⟩
    · rw [run_cons, hnew, hfirst, List.append_assoc]
    · intro x hx
      rcases List.mem_append.1 hx with hx | hx
      · exact hrest x hx
      · exact hP e hhere _ _ (hcontents x hx) hseen

/-- Whoever finds no lock leaves none. -/
theorem lock?_attempt (h : c.seen.lock? = none) :
    (c.attempt locking now i q d).seen.lock? = none := by
  rcases attempt_cases locking c now i q d with heq | ⟨token, n, answer, own, -, -, heq⟩
  · rw [heq]
    exact h
  · rw [heq]
    show (c.world.medium.leaveAll _).seen.lock? = none
    rw [seen, Attempt.seen_leaveAll_contents]
    cases hresolved : answer.resolve now d with
    | persist s =>
      have hne : "" ≠ Record.lockKey := Ne.symm Record.lockKey_ne_empty
      show (s.erase "").get? Record.lockKey = none
      rw [Record.get?_erase, if_neg hne]
      exact Outcome.lock?_of_resolve hresolved
    | clear => exact Record.get?_empty _
    | unchanged => exact h

theorem lock?_run (h : c.seen.lock? = none) : (c.run locking events).seen.lock? = none := by
  induction events generalizing c with
  | nil => exact h
  | cons e events ih =>
    obtain ⟨now, e⟩ := e
    apply ih
    cases e with
    | attempt i q d => exact lock?_attempt (c := c.moveTo now) h
    | _ => exact h

/-- Products prolong their sessions, look after the record and end their sessions, in any order and
whatever they have in their caches, and others are started; nobody asks for a session upon activity.
Then nobody announces that a session begins, and what is in the cell is empty or what was there at
first, but for the deadline. If there is no session in the cell at some moment, there is none in
anything that is left there from that moment on. -/
theorem only_wanes (locking : Bool) (timeOut : Span) (c : Course) (hfree : c.seen.lock? = none)
    (hproducts : ∀ p ∈ c.products, p.timeOut = timeOut) (past future : List (Timestamp × Event))
    (hevents : ∀ e ∈ past ++ future, e.2.IsQuiet timeOut) (c₁ c₂ : Course)
    (hc₁ : c₁ = c.run locking past) (hc₂ : c₂ = c₁.run locking future) :
    c₂.beginnings = c.beginnings ∧
    (c₂.seen = ∅ ∨ ∀ key, key ≠ Record.expireKey → c₂.seen.get? key = c.seen.get? key) ∧
    ∀ u, c₁.seen.IsOver u timeOut → (∀ e ∈ future, u ≤ e.1) → ∀ v, u ≤ v →
      c₂.seen.IsOver v timeOut ∧
      ∃ new, c₂.deposits = new ++ c₁.deposits ∧ ∀ x ∈ new, x.record.IsOver v timeOut := by
  have hwhole : c₂ = c.run locking (past ++ future) := by rw [run_append, ← hc₁, hc₂]
  refine ⟨?_, ?_, ?_⟩
  · rw [hwhole]
    exact beginnings_run hevents
  · have hfree₂ : c₂.seen.lock? = none := by
      rw [hwhole]
      exact lock?_run hfree
    have hremnant : c.seen.IsRemnantOf c₂.seen := by
      rw [hwhole]
      exact (lasts_run hproducts hevents (fun e _ r s hfades => hfades.isRemnantOf)
        (.inr fun _ _ _ => rfl) locking).1
    rcases hremnant with hnone | hrest
    · rw [Record.withoutLock_eq_self hfree₂] at hnone
      exact .inl hnone
    · refine .inr fun key hexpire => ?_
      by_cases hlock : key = Record.lockKey
      · rw [hlock]
        exact hfree₂.trans hfree.symm
      · exact hrest key hlock hexpire
  · intro u hover hle v hv
    have hproducts₁ : ∀ p ∈ c₁.products, p.timeOut = timeOut := by
      rw [hc₁]
      exact timeOut_run hproducts fun e he => hevents e (List.mem_append_left future he)
    have hfuture : ∀ e ∈ future, e.2.IsQuiet timeOut :=
      fun e he => hevents e (List.mem_append_right past he)
    obtain ⟨hlast, new, hnew, hrecords⟩ := lasts_run hproducts₁ hfuture
      (fun e he r s hfades => hfades.isOver (hle e he)) hover locking
    rw [hc₂]
    exact ⟨hlast.mono hv, new, hnew, fun x hx => (hrecords x hx).mono hv⟩

/-- Two products over a session that runs until the moment 10. The one follows it; the other has a
session in its cache that is long over. -/
def aftermath : Course where
  world :=
    { medium := ⟨.epoch, [⟨.epoch, some "a=1&created=0&expire=10&id=x&w=2"⟩]⟩
      own := [.new "a" (fun _ _ => ⟨true, "1"⟩) (.ofMillis 90) .epoch
          (Record.ofList [("a", "1"), ("id", "x")]),
        .new "b" (fun _ _ => ⟨true, "1"⟩) (.ofMillis 90) .epoch
          (Record.ofList [("b", "1"), ("id", "y")])]
      names := .tallies }
  settlements := []

/-- Both prolong what they find, by five milliseconds each. -/
def prolonging : List (Timestamp × Event) :=
  [(Timestamp.epoch.add 8, .attempt 0 .expand (.ofMillis 5)),
    (Timestamp.epoch.add 9, .attempt 1 .expand (.ofMillis 5))]

/-- After the deadline another product is started, and everybody tries again. -/
def trailing : List (Timestamp × Event) :=
  [(Timestamp.epoch.add 15, .start "c" (fun _ _ => ⟨false, "0"⟩) (.ofMillis 90)),
    (Timestamp.epoch.add 15, .attempt 0 .expand (.ofMillis 5)),
    (Timestamp.epoch.add 16, .attempt 2 .watch (.ofMillis 5)),
    (Timestamp.epoch.add 17, .attempt 1 .expire (.ofMillis 5)), (Timestamp.epoch.add 18, .giveUp 1)]

theorem only_wanes_aftermath :
    (aftermath.run true prolonging).seen = Record.ofList [("a", "1"), ("created", "0"),
      ("expire", "14"), ("id", "x"), ("w", "2")] ∧
    ((aftermath.run true prolonging).run true trailing).beginnings = [] ∧
    (((aftermath.run true prolonging).run true trailing).seen = ∅ ∨
      ∀ key, key ≠ Record.expireKey →
        ((aftermath.run true prolonging).run true trailing).seen.get? key
          = aftermath.seen.get? key) ∧
    ((aftermath.run true prolonging).run true trailing).seen.IsOver (Timestamp.epoch.add 20)
      (.ofMillis 90) := by
  obtain ⟨hbeginnings, hseen, hover⟩ := only_wanes true (.ofMillis 90) aftermath
    (by decide +kernel) (by decide +kernel) prolonging trailing (by decide +kernel) _ _ rfl rfl
  have hend : (aftermath.run true prolonging).seen.IsOver (Timestamp.epoch.add 14)
      (.ofMillis 90) := by
    unfold Record.IsOver
    decide +kernel
  exact ⟨by decide +kernel, hbeginnings.trans (by decide +kernel), hseen,
    (hover _ hend (by decide +kernel) _ (by decide +kernel)).1⟩

end Course

end SharedSession
