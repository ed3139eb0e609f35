import Mathlib.Data.List.Chain
import Mathlib.Data.List.DropRight
import Mathlib.Data.List.Induction
import SharedSession.Host.Throttle

set_option autoImplicit false

/-!
# What runs at a throttle

A throttle is hit whenever there is activity, and asked from time to time whether a call that waits
is due. This module follows it over any sequence of both. Runs are a window apart; a hit that does
not run waits for the end of the window, and whatever comes first after that, a hit or the question,
runs in its place; and nothing runs that has not been hit since the latest run.

A log of the calls, each with whether it ran, is kept beside the throttle. What one call can do is
said once (`Throttle.Step`), and so is what the throttle has to do with its log
(`Throttle.Reflects`).

Main statements: `Throttle.step_call`, `Throttle.Reflects.step`,
`Throttle.deadline?_callAll_of_waiting`, `Throttle.neither_floods_nor_loses`.
-/

namespace SharedSession

namespace Throttle

/-! ## Calls -/

/-- What comes to a throttle: a hit, or the question whether a waiting call is due. -/
inductive Call
  | hit (now : Nat)
  | takeTrailing (now : Nat)
deriving DecidableEq

/-- When a call comes. -/
def Call.time : Call → Nat
  | .hit now => now
  | .takeTrailing now => now

/-- Whether a call is a hit. -/
def Call.isHit : Call → Bool
  | .hit _ => true
  | .takeTrailing _ => false

/-- Whether a call runs, and the throttle after it. -/
def call (t : Throttle) : Call → Bool × Throttle
  | .hit now => t.hit now
  | .takeTrailing now => t.takeTrailing now

/-- The throttle after one call after another. -/
def callAll (t : Throttle) (calls : List Call) : Throttle :=
  calls.foldl (fun t c => (t.call c).2) t

/-- The calls, each with whether it ran. -/
def log (t : Throttle) : List Call → List (Call × Bool)
  | [] => []
  | c :: rest => (c, (t.call c).1) :: (t.call c).2.log rest

/-- When something ran. -/
def runTimes (log : List (Call × Bool)) : List Nat := (log.filter (·.2)).map (·.1.time)

/-- What came since something ran. -/
def sinceRun (log : List (Call × Bool)) : List (Call × Bool) := log.rtakeWhile (!·.2)

variable {t t' : Throttle} {c : Call} {calls before after : List Call} {ran : Bool}
  {entries : List (Call × Bool)} {d now last window : Nat}

theorem callAll_append (t : Throttle) (before after : List Call) :
    t.callAll (before ++ after) = (t.callAll before).callAll after :=
  List.foldl_append ..

theorem log_append (t : Throttle) (before after : List Call) :
    t.log (before ++ after) = t.log before ++ (t.callAll before).log after := by
  induction before generalizing t with
  | nil => rfl
  | cons c rest ih => simp [log, ih, callAll]

theorem map_fst_log (t : Throttle) (calls : List Call) : (t.log calls).map (·.1) = calls := by
  induction calls generalizing t with
  | nil => rfl
  | cons c rest ih => simp [log, ih]

/-- When something ran, a call came. -/
theorem exists_call_of_mem_runTimes (h : now ∈ runTimes (t.log calls)) :
    ∃ c ∈ calls, c.time = now := by
  obtain ⟨e, he, rfl⟩ := List.mem_map.1 h
  refine ⟨e.1, ?_, rfl⟩
  rw [← map_fst_log t calls]
  exact List.mem_map_of_mem (List.mem_filter.1 he).1

/-! ## One call -/

theorem deadline?_eq_some_iff :
    t.deadline? = some d ↔
      t.isPending = true ∧ ∃ last, t.lastRun = some last ∧ last + t.window = d := by
  obtain ⟨window, lastRun, isPending⟩ := t
  cases isPending <;> cases lastRun <;> simp [deadline?]

theorem isWithin_iff :
    t.isWithin now = true ↔ ∃ last, t.lastRun = some last ∧ now < last + t.window := by
  cases hlast : t.lastRun <;> simp [isWithin, hlast]

/-- What a call can do: it runs, which takes a hit and the end of the window; it is a hit and waits;
or there is nothing to do yet. -/
inductive Step (t : Throttle) (c : Call) : Bool → Throttle → Prop
  | runs (hopen : ∀ last, t.lastRun = some last → last + t.window ≤ c.time)
      (hcause : c.isHit = true ∨ t.isPending = true) : Step t c true (t.ran c.time)
  | waits (last : Nat) (hlast : t.lastRun = some last) (hwithin : c.time < last + t.window)
      (hhit : c.isHit = true) : Step t c false { t with isPending := true }
  | rests (hhit : c.isHit = false) (hearly : ∀ d, t.deadline? = some d → c.time < d) :
      Step t c false t

theorem step_hit (t : Throttle) (now : Nat) : Step t (.hit now) (t.hit now).1 (t.hit now).2 := by
  unfold hit
  by_cases hwithin : t.isWithin now = true
  · rw [if_pos hwithin]
    obtain ⟨last, hlast, hlt⟩ := isWithin_iff.1 hwithin
    exact .waits last hlast hlt rfl
  · rw [if_neg hwithin]
    refine .runs ?_ (.inl rfl)
    intro last hlast
    apply Nat.le_of_not_lt
    intro hlt
    exact hwithin (isWithin_iff.2 ⟨last, hlast, hlt⟩)

theorem step_takeTrailing (t : Throttle) (now : Nat) :
    Step t (.takeTrailing now) (t.takeTrailing now).1 (t.takeTrailing now).2 := by
  unfold takeTrailing
  cases hdeadline : t.deadline? with
  | none => exact .rests rfl (by simp [hdeadline])
  | some d =>
    obtain ⟨hpending, last, hlast, hd⟩ := deadline?_eq_some_iff.1 hdeadline
    by_cases hdue : d ≤ now
    · simp only [hdue, if_true]
      refine .runs ?_ (.inr hpending)
      intro last' hlast'
      cases hlast.symm.trans hlast'
      rw [hd]
      exact hdue
    · simp only [hdue, if_false]
      refine .rests rfl ?_
      intro d' hd'
      cases hdeadline.symm.trans hd'
      exact Nat.lt_of_not_le hdue

theorem step_call (t : Throttle) (c : Call) : Step t c (t.call c).1 (t.call c).2 := by
  cases c with
  | hit now => exact step_hit t now
  | takeTrailing now => exact step_takeTrailing t now

/-- While something waits, a call runs exactly if it comes no earlier than that is due. -/
theorem Step.ran_iff (h : Step t c ran t') (hdeadline : t.deadline? = some d) :
    ran = true ↔ d ≤ c.time := by
  obtain ⟨-, last, hlast, hd⟩ := deadline?_eq_some_iff.1 hdeadline
  cases h with
  | runs hopen =>
    have hle := hopen last hlast
    simp
    omega
  | waits last' hlast' hwithin =>
    cases hlast.symm.trans hlast'
    simp
    omega
  | rests _ hearly =>
    have hlt := hearly d hdeadline
    simp
    omega

/-- What waits goes on waiting until something runs. -/
theorem Step.deadline?_eq (h : Step t c false t') (hdeadline : t.deadline? = some d) :
    t'.deadline? = some d := by
  obtain ⟨-, last, hlast, hd⟩ := deadline?_eq_some_iff.1 hdeadline
  cases h with
  | waits _ _ _ _ => exact deadline?_eq_some_iff.2 ⟨rfl, last, hlast, hd⟩
  | rests _ _ => exact hdeadline

theorem deadline?_callAll_of_waiting (hdeadline : t.deadline? = some d)
    (hnone : ∀ e ∈ t.log calls, e.2 = false) : (t.callAll calls).deadline? = some d := by
  induction calls generalizing t with
  | nil => exact hdeadline
  | cons c rest ih =>
    have hfirst : (t.call c).1 = false := hnone (c, (t.call c).1) List.mem_cons_self
    have hstep := step_call t c
    rw [hfirst] at hstep
    refine ih (hstep.deadline?_eq hdeadline) ?_
    intro e he
    exact hnone e (List.mem_cons_of_mem _ he)

/-! ## The log -/

theorem runTimes_concat (entries : List (Call × Bool)) (c : Call) (ran : Bool) :
    runTimes (entries ++ [(c, ran)])
      = if ran then runTimes entries ++ [c.time] else runTimes entries := by
  cases ran <;> simp [runTimes]

theorem sinceRun_concat (entries : List (Call × Bool)) (c : Call) (ran : Bool) :
    sinceRun (entries ++ [(c, ran)]) = if ran then [] else sinceRun entries ++ [(c, ran)] := by
  cases ran <;> simp [sinceRun]

/-- A throttle holds what its log says: when something ran last, and whether it has been hit since.
Runs are a window apart, and each has had a hit of its own. -/
structure Reflects (window : Nat) (entries : List (Call × Bool)) (t : Throttle) : Prop where
  window_eq : t.window = window
  lastRun_eq : t.lastRun = (runTimes entries).getLast?
  pending_iff : t.isPending = true ↔ ∃ e ∈ sinceRun entries, e.1.isHit = true
  hasRun : t.isPending = true → t.lastRun ≠ none
  spaced : (runTimes entries).IsChain fun a b => a + window ≤ b
  paidFor : (runTimes entries).length + t.isPending.toNat ≤ entries.countP (·.1.isHit)

theorem reflects_new (window : Nat) : Reflects window [] (new window) where
  window_eq := rfl
  lastRun_eq := rfl
  pending_iff := by simp [new, sinceRun]
  hasRun h := by cases h
  spaced := .nil
  paidFor := Nat.le_refl _

theorem Reflects.step (h : Reflects window entries t) (hstep : Step t c ran t') :
    Reflects window (entries ++ [(c, ran)]) t' := by
  have hpaid := h.paidFor
  cases hstep with
  | runs hopen hcause =>
    refine ⟨h.window_eq, ?_, ?_, ?_, ?_, ?_⟩
    · simp [runTimes_concat, Throttle.ran]
    · simp [sinceRun_concat, Throttle.ran]
    · simp [Throttle.ran]
    · rw [runTimes_concat, if_pos rfl, List.isChain_append]
      refine ⟨h.spaced, .singleton _, ?_⟩
      intro last hlast b hb
      rw [← h.lastRun_eq] at hlast
      cases Option.some.inj hb
      rw [← h.window_eq]
      exact hopen last hlast
    · -- either the call is a hit, or the one that waited is spent
      simp only [runTimes_concat, if_true, List.length_append, List.length_singleton,
        List.countP_append, List.countP_singleton, Throttle.ran, Bool.toNat_false]
      obtain hhit | hpending := hcause
      · simp only [hhit, if_true]
        omega
      · rw [hpending, Bool.toNat_true] at hpaid
        omega
  | waits last hlast hwithin hhit =>
    refine ⟨h.window_eq, ?_, ?_, ?_, ?_, ?_⟩
    · simp [runTimes_concat, h.lastRun_eq]
    · simp [sinceRun_concat, hhit]
    · simp [hlast]
    · simpa [runTimes_concat] using h.spaced
    · simp [runTimes_concat, List.countP_append, hhit]
      omega
  | rests hhit hearly =>
    refine ⟨h.window_eq, ?_, ?_, h.hasRun, ?_, ?_⟩
    · simp [runTimes_concat, h.lastRun_eq]
    · simp [sinceRun_concat, hhit, h.pending_iff, or_and_right, exists_or]
    · simpa [runTimes_concat] using h.spaced
    · simp [runTimes_concat, List.countP_append, hhit]
      omega

theorem reflects_log (window : Nat) (calls : List Call) :
    Reflects window ((new window).log calls) ((new window).callAll calls) := by
  induction calls using List.reverseRecOn with
  | nil => exact reflects_new window
  | append_singleton calls c ih =>
    rw [log_append, callAll_append]
    exact ih.step (step_call _ c)

/-- Nothing waits exactly if no hit has come since something ran. -/
theorem Reflects.deadline?_eq_none_iff (h : Reflects window entries t) :
    t.deadline? = none ↔ ∀ e ∈ sinceRun entries, e.1.isHit = false := by
  have hnone : t.deadline? = none ↔ t.isPending = false := by
    obtain ⟨window', lastRun, isPending⟩ := t
    cases isPending with
    | false => simp [deadline?]
    | true =>
      obtain ⟨last, hlast⟩ := Option.ne_none_iff_exists'.1 (h.hasRun rfl)
      cases hlast
      simp [deadline?]
  rw [hnone, ← Bool.not_eq_true, h.pending_iff]
  simp only [not_exists, not_and, Bool.not_eq_true]

/-- A hit that does not run waits for the end of the window, which is at most a window away. -/
theorem Reflects.deadline?_hit (h : Reflects window entries t)
    (hpast : ∀ last ∈ runTimes entries, last ≤ now) (hran : (t.hit now).1 = false) :
    ∃ d, (t.hit now).2.deadline? = some d ∧ now < d ∧ d ≤ now + window := by
  have hstep := step_hit t now
  rw [hran] at hstep
  generalize (t.hit now).2 = t' at hstep
  cases hstep with
  | rests hhit _ => cases hhit
  | waits last hlast hwithin _ =>
    have hmem : last ∈ runTimes entries := by
      rw [h.lastRun_eq] at hlast
      exact List.mem_of_getLast? hlast
    have hle := hpast last hmem
    have hlt : now < last + t.window := hwithin
    refine ⟨last + t.window, deadline?_eq_some_iff.2 ⟨rfl, last, hlast, rfl⟩, hlt, ?_⟩
    rw [h.window_eq]
    omega

/-- What runs has been hit since something ran last, if it is not a hit itself. -/
theorem Reflects.cause (h : Reflects window entries t) (hran : (t.call c).1 = true) :
    ∃ e ∈ sinceRun entries ++ [(c, true)], e.1.isHit = true := by
  have hstep := step_call t c
  rw [hran] at hstep
  generalize (t.call c).2 = t' at hstep
  cases hstep with
  | runs _ hcause =>
    obtain hhit | hpending := hcause
    · exact ⟨(c, true), List.mem_append_right _ List.mem_cons_self, hhit⟩
    · obtain ⟨e, he, hhit⟩ := h.pending_iff.1 hpending
      exact ⟨e, List.mem_append_left _ he, hhit⟩

/-! ## Every sequence of calls -/

/-- Over any calls whose times do not go back: runs are a window apart. A hit that does not run is
due later, but no later than a window from then, and stays so until something runs; of the calls
that come first after it, the one that is not too early runs. Something waits exactly if a hit has
come since the latest run, and nothing runs without one; so there are no more runs than hits. -/
theorem neither_floods_nor_loses (window : Nat) (calls : List Call)
    (htimes : calls.Pairwise fun a b => a.time ≤ b.time) :
    (runTimes ((new window).log calls)).IsChain (fun a b => a + window ≤ b) ∧
      (∀ before now after, calls = before ++ .hit now :: after →
        let t := (new window).callAll before
        (t.hit now).1 = false → ∃ d, now < d ∧ d ≤ now + window ∧
          ∀ during rest, after = during ++ rest → (∀ e ∈ (t.hit now).2.log during, e.2 = false) →
            ((t.hit now).2.callAll during).deadline? = some d ∧
            ∀ c ∈ rest.head?, (((t.hit now).2.callAll during).call c).1 = true ↔ d ≤ c.time) ∧
      (((new window).callAll calls).deadline? = none ↔
        ∀ e ∈ sinceRun ((new window).log calls), e.1.isHit = false) ∧
      (∀ before c after, calls = before ++ c :: after →
        (((new window).callAll before).call c).1 = true →
          ∃ e ∈ sinceRun ((new window).log before) ++ [(c, true)], e.1.isHit = true) ∧
      (runTimes ((new window).log calls)).length ≤ calls.countP (·.isHit) := by
  have hlog := reflects_log window calls
  refine ⟨hlog.spaced, ?_, hlog.deadline?_eq_none_iff, ?_, ?_⟩
  · rintro before now after rfl t hran
    have hbefore : ∀ c ∈ before, c.time ≤ now := by
      intro c hc
      exact (List.pairwise_append.1 htimes).2.2 c hc (.hit now) List.mem_cons_self
    have hpast : ∀ last ∈ runTimes ((new window).log before), last ≤ now := by
      intro last hlast
      obtain ⟨c, hc, rfl⟩ := exists_call_of_mem_runTimes hlast
      exact hbefore c hc
    obtain ⟨d, hdeadline, hlt, hle⟩ := (reflects_log window before).deadline?_hit hpast hran
    refine ⟨d, hlt, hle, ?_⟩
    rintro during rest - hnone
    have hkept := deadline?_callAll_of_waiting hdeadline hnone
    exact ⟨hkept, fun c _ => (step_call _ c).ran_iff hkept⟩
  · intro before c after _ hran
    exact (reflects_log window before).cause hran
  · have hpaid := hlog.paidFor
    have hcount : ((new window).log calls).countP (·.1.isHit) = calls.countP (·.isHit) := by
      conv_rhs => rw [← map_fst_log (new window) calls, List.countP_map]
      rfl
    omega

/-- Three hits in one window, one in the next, and two more: the last comes exactly when the window
of the one before it ends. -/
def burst : List Call :=
  [.hit 0, .hit 100, .hit 500, .takeTrailing 900, .takeTrailing 1000, .takeTrailing 1000,
    .hit 1010, .hit 3000, .hit 4000]

/-- The burst runs four times. The hit at 100 waits until the end of its window, whatever else comes
before that. -/
theorem neither_floods_nor_loses_burst :
    burst.Pairwise (fun a b => a.time ≤ b.time) ∧
      runTimes ((new 1000).log burst) = [0, 1000, 3000, 4000] ∧
      (runTimes ((new 1000).log burst)).IsChain (fun a b => a + 1000 ≤ b) ∧
      (∃ d, 100 < d ∧ d ≤ 100 + 1000 ∧
        ((((new 1000).callAll [.hit 0]).hit 100).2.callAll
          [.hit 500, .takeTrailing 900]).deadline? = some d) ∧
      (runTimes ((new 1000).log burst)).length ≤ 6 := by
  have htimes : burst.Pairwise fun a b => a.time ≤ b.time := by decide
  obtain ⟨hspaced, hwaits, -, -, hcount⟩ := neither_floods_nor_loses 1000 burst htimes
  obtain ⟨d, hlt, hle, hstays⟩ := hwaits [.hit 0] 100 (burst.drop 2) rfl (by decide)
  obtain ⟨hdeadline, -⟩ := hstays [.hit 500, .takeTrailing 900] (burst.drop 4) rfl (by decide)
  exact ⟨htimes, by decide, hspaced, ⟨d, hlt, hle, hdeadline⟩, hcount⟩

end Throttle

end SharedSession
