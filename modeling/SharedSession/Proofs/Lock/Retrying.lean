import Mathlib.Data.List.Chain
import SharedSession.Proofs.Lock.Abandonment
import SharedSession.Timeline

set_option autoImplicit false

/-!
# How often an operation is tried

An attempt reads the record up to four times, and the read that finds a contender is the last thing
that it does: a contender found at the first read has seen nothing written, and what a contender
left is not touched before the next attempt begins. The decision is asked for right behind the
second read, so once in every attempt that goes on to a third one.

A `Try` is an attempt that was made. The tries of an operation are one pause apart; the operation is
over with the first one that settles, or one pause after the last one that it may have. `Undergoes`
says that as a relation, which follows the number of tries that are left.

Main statements: `Attempt.reckons_locked`, `Bench.run_undergoes`, `Bench.retried_and_counted`.
-/

namespace SharedSession

variable {μ σ : Type}

/-! ## What an attempt does -/

/-- How often acts read the record and how often they ask for a decision. -/
structure Counted (reads asks : Nat) (acts : List (Act σ)) : Prop where
  reads : acts.countP Act.isRead = reads
  asks : acts.countP Act.isAsking = asks

namespace Counted

theorem append {reads asks moreReads moreAsks : Nat} {acts more : List (Act σ)}
    (h : Counted reads asks acts) (hmore : Counted moreReads moreAsks more) :
    Counted (reads + moreReads) (asks + moreAsks) (acts ++ more) where
  reads := by rw [List.countP_append, h.reads, hmore.reads]
  asks := by rw [List.countP_append, h.asks, hmore.asks]

theorem load (m : Medium μ) (s : μ) : Counted 1 0 [(.call (m.loadCall s) : Act σ)] := ⟨rfl, rfl⟩

theorem save (r : Record) : Counted 0 0 [(.call (Medium.saveCall r) : Act σ)] :=
  ⟨by simp, by simp⟩

theorem clear : Counted 0 0 [(.call .clear : Act σ)] := ⟨rfl, rfl⟩

theorem loadAndAsk (m : Medium μ) (s : μ) (op : Operation σ) (now : Timestamp) (r : Record)
    (w : World μ σ) : Counted 1 1 [.call (m.loadCall s), w.question op now r] := ⟨rfl, rfl⟩

end Counted

namespace Checkpoint

/-- The number of the read that finds the contender. -/
def place : Checkpoint → Nat
  | .initial => 1
  | .acquired => 2
  | .postProcess => 3
  | .postPersist => 4

/-- How often a decision has been asked for when the contender is found: once, if the second read
was passed. -/
def asked : Checkpoint → Nat
  | .initial => 0
  | .acquired => 0
  | .postProcess => 1
  | .postPersist => 1

/-- What an attempt has done that gave way to a contender: the read that found it is the end. -/
structure Reckons (found : Checkpoint) (acts : List (Act σ)) : Prop where
  counted : Counted found.place found.asked acts
  ends : ∃ (earlier : List (Act σ)) (last : Act σ), acts = earlier ++ [last] ∧
    last.isRead = true ∧ (found = .initial → earlier = [])

theorem Reckons.of_read (found : Checkpoint) (hlater : found ≠ .initial) {m : Medium μ} {s : μ}
    {acts : List (Act σ)} (h : Counted found.place found.asked (acts ++ [.call (m.loadCall s)])) :
    found.Reckons (acts ++ [.call (m.loadCall s)]) :=
  ⟨h, acts, _, rfl, rfl, fun hinitial => absurd hinitial hlater⟩

end Checkpoint

namespace Stage

/-- What an attempt has done that comes to a stage. -/
def Reckons (acts : List (Act σ)) : Stage → Prop
  | .opening => acts = []
  | .locking _ _ => Counted 1 0 acts
  | .confirming _ => Counted 1 0 acts
  | .rechecking _ _ => Counted 2 1 acts
  | .writing _ _ => Counted 3 1 acts
  | .clearing => Counted 3 1 acts
  | .verifying _ => Counted 3 1 acts
  | .releasing _ => Counted 4 1 acts
  | .settled _ => Counted 3 1 acts ∨ Counted 4 1 acts
  | .contended found => found.Reckons acts

section

variable (m : Medium μ) (op : Operation σ) (d : Span) (now : Timestamp)

/-- The read that shows another token, or none, is the last. -/
theorem reckons_of_lost {s : Stage} {token : String} {w v : World μ σ} {r : Record}
    {acts : List (Act σ)} (hs : s.awaited? = some token) (hload : w.load m = (r, v))
    (hlost : r.lock? ≠ some token) (h : Reckons acts s) :
    Reckons (acts ++ s.acts m op now w) (s.step m op d now w).1 := by
  rw [step_of_lost hs hload hlost, acts_of_lost hs hload hlost]
  cases s with
  | confirming token' => exact .of_read .acquired nofun (Counted.append h (.load m _))
  | rechecking token' answer => exact .of_read .postProcess nofun (Counted.append h (.load m _))
  | verifying token' => exact .of_read .postPersist nofun (Counted.append h (.load m _))
  | _ => cases hs

theorem reckons_step {s : Stage} {acts : List (Act σ)} (w : World μ σ) (h : Reckons acts s) :
    Reckons (acts ++ s.acts m op now w) (s.step m op d now w).1 := by
  obtain ⟨r, v, hload⟩ : ∃ r v, w.load m = (r, v) := ⟨_, _, rfl⟩
  cases s with
  | opening =>
    obtain rfl : acts = [] := h
    cases hlock : r.lock? with
    | some token =>
      rw [step_opening_of_locked hload (by rw [hlock]; rfl)]
      exact ⟨.load m _, [], _, rfl, rfl, fun _ => rfl⟩
    | none =>
      rw [step_opening_of_free hload hlock]
      exact .load m _
  | locking token base => exact Counted.append h (.save _)
  | confirming token =>
    by_cases hlock : r.lock? = some token
    · rw [step_confirming_of_held hload hlock]
      simp only [Stage.acts, hload, if_pos hlock]
      exact Counted.append h (.loadAndAsk m _ op now _ v)
    · exact reckons_of_lost m op d now rfl hload hlock h
  | rechecking token answer =>
    by_cases hlock : r.lock? = some token
    · rw [step_rechecking_of_held answer hload hlock]
      have hcounted : Counted 3 1 (acts ++ (rechecking token answer).acts m op now w) :=
        Counted.append h (.load m _)
      cases answer.resolve now d <;> exact hcounted
    · exact reckons_of_lost m op d now rfl hload hlock h
  | writing token result => exact Counted.append h (.save _)
  | clearing => exact .inl (Counted.append h .clear)
  | verifying token =>
    by_cases hlock : r.lock? = some token
    · rw [step_verifying_of_held hload hlock]
      exact Counted.append h (.load m _)
    · exact reckons_of_lost m op d now rfl hload hlock h
  | releasing result => exact .inr (Counted.append h (.save _))
  | settled result => rwa [Stage.acts, List.append_nil]
  | contended found => rwa [Stage.acts, List.append_nil]

theorem actsOf_of_final (n : Nat) {s : Stage} (h : s.isFinal) (w : World μ σ) :
    s.actsOf m op d now n w = [] := by
  induction n with
  | zero => rfl
  | succ n ih =>
    cases s with
    | settled result => exact ih
    | contended found => exact ih
    | _ => cases h

theorem reckons_run (n : Nat) {s : Stage} {acts : List (Act σ)} (w : World μ σ)
    (h : Reckons acts s) : Reckons (acts ++ s.actsOf m op d now n w) (s.run m op d now n w).1 := by
  induction n generalizing s w acts with
  | zero => rwa [actsOf, List.append_nil]
  | succ n ih =>
    have hrest := ih (s.step m op d now w).2 (reckons_step m op d now w h)
    rwa [List.append_assoc] at hrest

end

end Stage

namespace Attempt

variable (m : Medium μ) (op : Operation σ) (d : Span) (now : Timestamp)

/-- What an attempt has done that ended in one way or the other. -/
def Reckons (acts : List (Act σ)) : Attempt → Prop
  | .settled _ => Counted 3 1 acts ∨ Counted 4 1 acts
  | .contended found => found.Reckons acts

/-- What an attempt does can be told from how it ends. -/
theorem reckons_locked (w : World μ σ) :
    Reckons (lockedActs m op d now w) (locked m op d now w).1 := by
  have hopening : Stage.Reckons ([] : List (Act σ)) .opening := rfl
  have hend := Stage.reckons_run m op d now 7 w hopening
  have hfinal := Stage.isFinal_run m op d now 7 .opening w (Nat.le_refl 7)
  rw [List.nil_append] at hend
  unfold locked lockedActs
  generalize Stage.opening.run m op d now 7 w = ended at hend hfinal ⊢
  obtain ⟨s, v⟩ := ended
  cases s with
  | settled r => exact hend
  | contended found => exact hend
  | _ => cases hfinal

/-- An attempt that finds a lock reads once and gives way. -/
theorem locked_of_locked {w : World μ σ} (h : (w.load m).1.lock?.isSome) :
    locked m op d now w = (.contended .initial, (w.load m).2) ∧
      lockedActs m op d now w = [.call (m.loadCall w.medium)] := by
  have hstep : Stage.opening.step m op d now w = (.contended .initial, (w.load m).2) :=
    Stage.step_opening_of_locked rfl h
  constructor
  · rw [locked, Stage.run_succ hstep, Stage.run_of_final rfl]
    rfl
  · rw [lockedActs, Stage.actsOf, hstep]
    have hover : (Stage.contended .initial).isFinal := rfl
    exact congrArg ([.call (m.loadCall w.medium)] ++ ·) (Stage.actsOf_of_final m op d now 6 hover _)

end Attempt

/-! ## Tries -/

/-- An attempt that was made: at which tick, what it found, how it ended and what it left. -/
structure Try (μ σ : Type) where
  tick : Nat
  found : World μ σ
  ended : Attempt
  left : World μ σ

namespace World

/-- The world after others have stored their texts. -/
def overwritten (k : Backing μ) (writes : List ForeignWrite) (w : World μ σ) : World μ σ :=
  { w with medium := writes.foldl (fun s f => k.overwrite f.raw s) w.medium }

/-- What a world has become when none but the announced writers did anything. -/
def Meanwhile (k : Backing μ) (announced : List ForeignWrite) (w v : World μ σ) : Prop :=
  ∃ writes ⊆ announced, v = w.overwritten k writes

variable {k : Backing μ} {announced : List ForeignWrite}

theorem Meanwhile.refl (w : World μ σ) : Meanwhile k announced w w :=
  ⟨[], List.nil_subset announced, rfl⟩

theorem Meanwhile.of_subset {writes : List ForeignWrite} (h : writes ⊆ announced)
    (w : World μ σ) : Meanwhile k announced w (w.overwritten k writes) := ⟨writes, h, rfl⟩

theorem Meanwhile.trans {w v u : World μ σ} (h : Meanwhile k announced w v)
    (h' : Meanwhile k announced v u) : Meanwhile k announced w u := by
  obtain ⟨writes, hwrites, rfl⟩ := h
  obtain ⟨more, hmore, rfl⟩ := h'
  refine ⟨writes ++ more, List.append_subset.2 ⟨hwrites, hmore⟩, ?_⟩
  simp only [overwritten, List.foldl_append]

end World

section

variable (m : Medium μ) (k : Backing μ) (policy : LockPolicy) (op : Operation σ)
  (clock : Timestamp) (announced : List ForeignWrite)

/-- The course of an operation that begins at a tick with so many tries left: its tries, the reply
to it, and the tick and the world in which it is over. -/
inductive Undergoes :
    Nat → Nat → World μ σ → List (Try μ σ) → Reply → Nat → World μ σ → Prop where
  | dropped {tick : Nat} {w : World μ σ} : Undergoes 0 tick w [] .dropped tick w
  | settled {left tick : Nat} {w v : World μ σ} {r : Record}
      (h : Attempt.locked m op policy.expirationDelay (clock.add tick) w = (.settled r, v)) :
      Undergoes (left + 1) tick w [⟨tick, w, .settled r, v⟩] (.settled r) tick
        (v.settle op (clock.add tick) r)
  | again {left tick ending : Nat} {w v w' u : World μ σ} {found : Checkpoint}
      {tries : List (Try μ σ)} {reply : Reply}
      (h : Attempt.locked m op policy.expirationDelay (clock.add tick) w = (.contended found, v))
      (hpause : World.Meanwhile k announced v w')
      (rest : Undergoes left (tick + policy.retryDelay.waitTicks) w' tries reply ending u) :
      Undergoes (left + 1) tick w (⟨tick, w, .contended found, v⟩ :: tries) reply ending u

/-- Where the attempts of one tick bring an operation: to its end, or into a pause after which it
goes on with one try less. -/
def Progress.Reaches (left tick : Nat) (w v : World μ σ) : Progress σ → Prop
  | .done reply => ∃ tries, Undergoes m k policy op clock announced left tick w tries reply tick v
  | .pausing z => ∃ rest, left = rest + 1 ∧ 0 < policy.retryDelay.waitTicks ∧
      z = ⟨op, true, rest, tick + policy.retryDelay.waitTicks⟩ ∧
      ∀ {v' u : World μ σ} {tries : List (Try μ σ)} {reply : Reply} {ending : Nat},
        World.Meanwhile k announced v v' →
        Undergoes m k policy op clock announced rest (tick + policy.retryDelay.waitTicks) v' tries
          reply ending u →
        ∃ tries', Undergoes m k policy op clock announced left tick w tries' reply ending u

theorem Processor.reaches_attempts (left tick : Nat) (w : World μ σ) :
    (attempts m policy (clock.add tick) tick op true left w).1.Reaches m k policy op clock announced
      left tick w (attempts m policy (clock.add tick) tick op true left w).2 := by
  induction left generalizing w with
  | zero => exact ⟨[], .dropped⟩
  | succ left ih =>
    rw [attempts]
    cases hended : Attempt.locked m op policy.expirationDelay (clock.add tick) w with
    | mk ended v =>
      cases ended with
      | settled r => exact ⟨_, .settled hended⟩
      | contended found =>
        dsimp only
        by_cases hwait : policy.retryDelay.waitTicks = 0
        · rw [if_pos hwait]
          have hrest := ih v
          generalize attempts m policy (clock.add tick) tick op true left v = ended at hrest ⊢
          obtain ⟨progress, u⟩ := ended
          cases progress with
          | done reply =>
            obtain ⟨tries, hrest⟩ := hrest
            have hlater : tick + policy.retryDelay.waitTicks = tick := by rw [hwait, Nat.add_zero]
            have hnext : Undergoes m k policy op clock announced left
                (tick + policy.retryDelay.waitTicks) v tries reply tick u := by rwa [hlater]
            exact ⟨_, .again hended (.refl v) hnext⟩
          | pausing z =>
            obtain ⟨-, -, hpositive, -⟩ := hrest
            omega
        · rw [if_neg hwait]
          exact ⟨left, rfl, Nat.pos_of_ne_zero hwait, rfl, fun hpause hrest =>
            ⟨_, .again hended hpause hrest⟩⟩

/-! ## Along a timeline -/

/-- A writer whose only operation has come so far. -/
def Bench.at (tl : Timeline) (progress : Progress σ) (w : World μ σ) : Bench μ σ :=
  ⟨tl, .after policy progress, w⟩

namespace Timeline

/-- The timeline without the changes that have been made. -/
def passed (tl : Timeline) : Timeline :=
  { tl with writes := tl.writes.filter fun w => tl.tick < w.tick }

theorem dueWrites_subset (tl : Timeline) : tl.dueWrites ⊆ tl.writes :=
  List.filter_subset_self _

theorem passed_subset (tl : Timeline) : tl.passed.writes ⊆ tl.writes :=
  List.filter_subset_self _

/-- The earlier of two ticks is there when the second is, and no later. -/
theorem earlier_le (a : Option Nat) (wake : Nat) :
    ∃ tick ≤ wake, earlier a (some wake) = some tick := by
  cases a with
  | none => exact ⟨wake, Nat.le_refl wake, rfl⟩
  | some tick => exact ⟨min tick wake, Nat.min_le_right tick wake, rfl⟩

end Timeline

namespace Bench

theorem settle_eq (tl : Timeline) (p : Processor σ) (w : World μ σ) :
    settle m k ⟨tl, p, w⟩ = ⟨tl.passed,
      (p.serve m tl.now tl.tick (w.overwritten k tl.dueWrites)).1,
      (p.serve m tl.now tl.tick (w.overwritten k tl.dueWrites)).2⟩ := rfl

theorem settle_of_early {tl : Timeline} {z : Pause σ} (hearly : tl.tick < z.wake)
    (w : World μ σ) :
    settle m k (.at policy tl (.pausing z) w)
      = .at policy tl.passed (.pausing z) (w.overwritten k tl.dueWrites) := by
  simp only [Bench.at, Processor.after, settle_eq]
  rw [Processor.serve_of_early m _ _ rfl hearly]

theorem settle_of_due {tl : Timeline} {z : Pause σ} (hz : z.isAwaited = true)
    (hdue : z.wake ≤ tl.tick) (w : World μ σ) :
    settle m k (.at policy tl (.pausing z) w)
      = .at policy tl.passed
          (Processor.attempts m policy tl.now tl.tick z.op true z.triesLeft
            (w.overwritten k tl.dueWrites)).1
          (Processor.attempts m policy tl.now tl.tick z.op true z.triesLeft
            (w.overwritten k tl.dueWrites)).2 := by
  simp only [Bench.at, settle_eq]
  rw [Processor.after, Processor.serve_paused m policy _ hz hdue]

theorem settle_of_submitted (hlocking : m.locking = true) (tl : Timeline) (w : World μ σ) :
    settle m k ⟨tl, (Processor.new policy).submit op true, w⟩
      = .at policy tl.passed
          (Processor.attempts m policy tl.now tl.tick op true policy.maxTries
            (w.overwritten k tl.dueWrites)).1
          (Processor.attempts m policy tl.now tl.tick op true policy.maxTries
            (w.overwritten k tl.dueWrites)).2 := by
  have hstart : ∀ w : World μ σ, Processor.start m policy tl.now tl.tick op true w
      = Processor.attempts m policy tl.now tl.tick op true policy.maxTries w :=
    fun _ => if_pos hlocking
  rw [settle_eq, Processor.serve_submitted, hstart]
  rfl

/-- Where there is a reply nobody waits any longer. -/
theorem waitFor_of_reply (fuel : Nat) {x : Bench μ σ} (h : x.processor.replies ≠ []) :
    waitFor m k fuel x = x := by
  cases fuel with
  | zero => rfl
  | succ fuel =>
    have hreplies : (!x.processor.replies.isEmpty) = true := by simpa using h
    rw [waitFor, if_pos hreplies]

/-- Where waiting takes a single operation to its end, its reply is all that there is. -/
theorem await_of_waitFor {x : Bench μ σ} {tl last : Timeline} {progress : Progress σ}
    {reply : Reply} {v u : World μ σ} (hsettle : settle m k x = .at policy tl progress v)
    (hwaits : waitFor m k (policy.maxTries * policy.retryDelay.waitTicks + 1)
      (.at policy tl progress v) = .at policy last (.done reply) u) :
    await m k x = ([reply], ⟨last, .new policy, u⟩) := by
  have hpatience : (Processor.after policy progress).patience
      = policy.maxTries * policy.retryDelay.waitTicks + 1 := by
    cases progress <;> simp [Processor.patience, Processor.after]
  rw [← hpatience] at hwaits
  unfold await
  rw [hsettle]
  dsimp only [Bench.at] at hwaits ⊢
  rw [hwaits]
  rfl

/-- If the pause that is reached can be waited for, the operation comes to its end. -/
theorem undergoes_of_reaches (fuel : Nat) (tl : Timeline) {left : Nat} {progress : Progress σ}
    {w v : World μ σ}
    (h : progress.Reaches m k policy op clock announced left tl.tick w v)
    (hwaits : ∀ rest, left = rest + 1 → 0 < policy.retryDelay.waitTicks →
      ∃ (v' : World μ σ) (tries : List (Try μ σ)) (reply : Reply) (last : Timeline)
        (u : World μ σ),
        World.Meanwhile k announced v v' ∧
        Undergoes m k policy op clock announced rest (tl.tick + policy.retryDelay.waitTicks) v'
          tries reply last.tick u ∧
        waitFor m k fuel
            (.at policy tl (.pausing ⟨op, true, rest, tl.tick + policy.retryDelay.waitTicks⟩) v)
          = .at policy last (.done reply) u) :
    ∃ (tries : List (Try μ σ)) (reply : Reply) (last : Timeline) (u : World μ σ),
      Undergoes m k policy op clock announced left tl.tick w tries reply last.tick u ∧
      waitFor m k fuel (.at policy tl progress v) = .at policy last (.done reply) u := by
  cases progress with
  | done reply =>
    obtain ⟨tries, hundergoes⟩ := h
    exact ⟨tries, reply, tl, v, hundergoes, waitFor_of_reply m k fuel (List.cons_ne_nil _ _)⟩
  | pausing z =>
    obtain ⟨rest, hleft, hpositive, rfl, hgoesOn⟩ := h
    obtain ⟨v', tries, reply, last, u, hmeanwhile, hrest, hend⟩ := hwaits rest hleft hpositive
    obtain ⟨tries', hundergoes⟩ := hgoesOn hmeanwhile hrest
    exact ⟨tries', reply, last, u, hundergoes, hend⟩

/-- Waiting through the pauses that are left takes an operation to its end. -/
theorem undergoes_waitFor (fuel : Nat) {tl : Timeline} (hclock : tl.start = clock)
    (hwrites : tl.writes ⊆ announced) {left wake : Nat} (hwake : tl.tick < wake)
    (hfuel : wake - tl.tick + left * policy.retryDelay.waitTicks ≤ fuel) (w : World μ σ) :
    ∃ (v : World μ σ) (tries : List (Try μ σ)) (reply : Reply) (last : Timeline) (u : World μ σ),
      World.Meanwhile k announced w v ∧
      Undergoes m k policy op clock announced left wake v tries reply last.tick u ∧
      waitFor m k fuel (.at policy tl (.pausing ⟨op, true, left, wake⟩) w)
        = .at policy last (.done reply) u := by
  induction fuel generalizing tl left wake w with
  | zero => omega
  | succ fuel ih =>
    obtain ⟨tick, htick, hearlier⟩ := Timeline.earlier_le tl.due? wake
    have hdue : (Bench.at policy tl (.pausing ⟨op, true, left, wake⟩) w).due? = some tick :=
      hearlier
    -- time goes on by a tick at least, and not beyond the end of the pause
    have hlater : tl.tick < max tick (tl.tick + 1) := by omega
    have hnext : max tick (tl.tick + 1) ≤ wake := by omega
    have hstep : waitFor m k (fuel + 1) (.at policy tl (.pausing ⟨op, true, left, wake⟩) w)
        = waitFor m k fuel (settle m k (.at policy (tl.moveTo (max tick (tl.tick + 1)))
            (.pausing ⟨op, true, left, wake⟩) w)) := by
      rw [waitFor, hdue]
      rfl
    rw [hstep]
    generalize max tick (tl.tick + 1) = next at hlater hnext ⊢
    have hmoved : (tl.moveTo next).writes ⊆ announced := hwrites
    have hpassed := List.Subset.trans (tl.moveTo next).passed_subset hmoved
    have hdues := World.Meanwhile.of_subset (k := k)
      (List.Subset.trans (tl.moveTo next).dueWrites_subset hmoved) w
    rcases Nat.lt_or_eq_of_le hnext with hearly | rfl
    · rw [settle_of_early m k policy hearly]
      obtain ⟨v, tries, reply, last, u, hmeanwhile, hundergoes, hwaits⟩ :=
        ih (show (tl.moveTo next).passed.start = clock from hclock) hpassed hearly
          (show wake - next + left * _ ≤ fuel by omega) _
      exact ⟨v, tries, reply, last, u, hdues.trans hmeanwhile, hundergoes, hwaits⟩
    · have hnow : (tl.moveTo next).now = clock.add next := by rw [← hclock]; rfl
      rw [settle_of_due m k policy rfl (Nat.le_refl next), hnow]
      have hreaches := Processor.reaches_attempts m k policy op clock announced left next
        (w.overwritten k (tl.moveTo next).dueWrites)
      obtain ⟨tries, reply, last, u, hundergoes, hwaits⟩ :=
        undergoes_of_reaches m k policy op clock announced fuel (tl.moveTo next).passed hreaches
          fun rest hleft hpositive =>
            ih (show (tl.moveTo next).passed.start = clock from hclock) hpassed
              (Nat.lt_add_of_pos_right hpositive) (by
                have htries : left * policy.retryDelay.waitTicks
                    = rest * policy.retryDelay.waitTicks + policy.retryDelay.waitTicks := by
                  rw [hleft, Nat.succ_mul]
                omega) _
      exact ⟨_, tries, reply, last, u, hdues, hundergoes, hwaits⟩

/-- What an operation undergoes that is given to an idle writer. -/
theorem run_undergoes (hlocking : m.locking = true) (tl : Timeline) (w : World μ σ) :
    ∃ (v : World μ σ) (tries : List (Try μ σ)) (reply : Reply) (last : Timeline) (u : World μ σ),
      World.Meanwhile k tl.writes w v ∧
      Undergoes m k policy op tl.start tl.writes policy.maxTries tl.tick v tries reply last.tick u ∧
      run m k op ⟨tl, .new policy, w⟩ = ([reply], ⟨last, .new policy, u⟩) := by
  have hdues := World.Meanwhile.of_subset (k := k) tl.dueWrites_subset w
  have hreaches := Processor.reaches_attempts m k policy op tl.start tl.writes policy.maxTries
    tl.tick (w.overwritten k tl.dueWrites)
  have hsettle := settle_of_submitted m k policy op hlocking tl w
  rw [Timeline.now] at hsettle
  generalize Processor.attempts m policy (tl.start.add tl.tick) tl.tick op true policy.maxTries
    (w.overwritten k tl.dueWrites) = reached at hreaches hsettle
  obtain ⟨progress, v⟩ := reached
  obtain ⟨tries, reply, last, u, hundergoes, hwaits⟩ :=
    undergoes_of_reaches m k policy op tl.start tl.writes
      (policy.maxTries * policy.retryDelay.waitTicks + 1) tl.passed hreaches
      fun rest hleft hpositive =>
        undergoes_waitFor m k policy op tl.start tl.writes _
          (show tl.passed.start = tl.start from rfl) tl.passed_subset
          (Nat.lt_add_of_pos_right hpositive) (by
            rw [hleft, Nat.succ_mul]
            omega) _
  refine ⟨_, tries, reply, last, u, hdues, hundergoes, ?_⟩
  exact await_of_waitFor m k policy hsettle hwaits

end Bench

/-! ## Counting the tries -/

/-- Whether an attempt gave way. -/
def Attempt.isContended : Attempt → Bool
  | .settled _ => false
  | .contended _ => true

namespace Try

/-- What is done in a try. -/
def acts (x : Try μ σ) : List (Act σ) :=
  Attempt.lockedActs m op policy.expirationDelay (clock.add x.tick) x.found

/-- What has been done in a try is an attempt at the operation, and no more than that. -/
structure IsAttempt (x : Try μ σ) : Prop where
  made : Attempt.locked m op policy.expirationDelay (clock.add x.tick) x.found
    = (x.ended, x.left)
  leads : LeadAll m ((x.acts m policy op clock).map (.run op true, ·)) x.found.state x.left.state
  reckons : x.ended.Reckons (x.acts m policy op clock)
  silent : ∀ act ∈ x.acts m policy op clock, act.isTelling = false

theorem isAttempt_of_locked {tick : Nat} {w v : World μ σ} {ended : Attempt}
    (h : Attempt.locked m op policy.expirationDelay (clock.add tick) w = (ended, v)) :
    IsAttempt m policy op clock ⟨tick, w, ended, v⟩ where
  made := h
  leads := by
    have hleads := Attempt.leadAll_locked m op policy.expirationDelay (clock.add tick) true w
    rwa [h] at hleads
  reckons := by
    have hreckons := Attempt.reckons_locked m op policy.expirationDelay (clock.add tick) w
    rwa [h] at hreckons
  silent := (Attempt.isWork_lockedActs m op policy.expirationDelay (clock.add tick) w).silent

end Try

/-- What the last of some tries left, or what was there before, if there were none. -/
def World.leftBy (w : World μ σ) (tries : List (Try μ σ)) : World μ σ :=
  tries.foldl (fun _ x => x.left) w

/-- How an operation is over that had so many tries and has made these: one pause after each try
that gave way. -/
inductive IsOver (left tick : Nat) (w : World μ σ) :
    List (Try μ σ) → Reply → Nat → World μ σ → Prop where
  /-- the first try that does not give way settles it, and those who wait are told -/
  | settled {lost : List (Try μ σ)} {last : Try μ σ} {r : Record}
      (hlost : ∀ x ∈ lost, x.ended.isContended = true) (hlast : last.ended = .settled r)
      (hleft : lost.length < left) :
      IsOver left tick w (lost ++ [last]) (.settled r)
        (tick + lost.length * policy.retryDelay.waitTicks)
        (last.left.settle op (clock.add last.tick) r)
  /-- all tries have given way, and nobody is told -/
  | dropped {tries : List (Try μ σ)} {u : World μ σ}
      (hlost : ∀ x ∈ tries, x.ended.isContended = true) (hleft : tries.length = left)
      (hpause : World.Meanwhile k announced (w.leftBy tries) u) :
      IsOver left tick w tries .dropped (tick + left * policy.retryDelay.waitTicks) u

/-- The tries of an operation that begins at a tick and has so many, and how it is over. -/
structure IsTried (left tick : Nat) (w : World μ σ) (tries : List (Try μ σ)) (reply : Reply)
    (ending : Nat) (u : World μ σ) : Prop where
  attempts : ∀ x ∈ tries, x.IsAttempt m policy op clock
  paced : ∀ (n : Nat) (x : Try μ σ), tries[n]? = some x →
    x.tick = tick + n * policy.retryDelay.waitTicks
  begins : ∀ x ∈ tries.head?, World.Meanwhile k announced w x.found
  resumes : tries.IsChain fun x next => World.Meanwhile k announced x.left next.found
  ended : IsOver k policy op clock announced left tick w tries reply ending u
  /-- a lock that is never absent at a first read bars the operation -/
  barred : (∀ x ∈ tries, (x.found.load m).1.lock?.isSome) → reply = .dropped ∧
    ∀ x ∈ tries, x.acts m policy op clock = [.call (m.loadCall x.found.medium)]

variable {k policy op clock announced} in
/-- One more try that gave way is one more pause. -/
theorem IsOver.again {left tick ending : Nat} {w u : World μ σ} {x : Try μ σ}
    {tries : List (Try μ σ)} {reply : Reply} (hlost : x.ended.isContended = true)
    (h : IsOver k policy op clock announced left (tick + policy.retryDelay.waitTicks) x.left tries
      reply ending u) :
    IsOver k policy op clock announced (left + 1) tick w (x :: tries) reply ending u := by
  have hticks : ∀ n : Nat, tick + policy.retryDelay.waitTicks + n * policy.retryDelay.waitTicks
      = tick + (n + 1) * policy.retryDelay.waitTicks := by
    intro n
    rw [Nat.succ_mul]
    omega
  cases h with
  | @settled given last r hgiven hlast hleft =>
    rw [hticks]
    exact .settled (List.forall_mem_cons.2 ⟨hlost, hgiven⟩) hlast (Nat.succ_lt_succ hleft)
  | dropped hgiven hleft hpause =>
    rw [hticks]
    exact .dropped (List.forall_mem_cons.2 ⟨hlost, hgiven⟩) (congrArg (· + 1) hleft) hpause

namespace IsTried

variable {m k policy op clock announced}

theorem of_meanwhile {left tick ending : Nat} {w v u : World μ σ} {tries : List (Try μ σ)}
    {reply : Reply} (hpause : World.Meanwhile k announced w v)
    (h : IsTried m k policy op clock announced left tick v tries reply ending u) :
    IsTried m k policy op clock announced left tick w tries reply ending u where
  attempts := h.attempts
  paced := h.paced
  begins x hx := hpause.trans (h.begins x hx)
  resumes := h.resumes
  ended := by
    cases h.ended with
    | settled hlost hlast hleft => exact .settled hlost hlast hleft
    | dropped hlost hleft hlater =>
      refine .dropped hlost hleft ?_
      cases tries with
      | nil => exact hpause.trans hlater
      | cons x tries => exact hlater
  barred := h.barred

theorem dropped (tick : Nat) (w : World μ σ) :
    IsTried m k policy op clock announced 0 tick w [] .dropped tick w where
  attempts := nofun
  paced := nofun
  begins := nofun
  resumes := .nil
  ended := by
    have hover : IsOver k policy op clock announced 0 tick w [] .dropped
        (tick + 0 * policy.retryDelay.waitTicks) w := .dropped nofun rfl (.refl w)
    rwa [Nat.zero_mul] at hover
  barred _ := ⟨rfl, nofun⟩

theorem settled {left tick : Nat} {w v : World μ σ} {r : Record}
    (h : Attempt.locked m op policy.expirationDelay (clock.add tick) w = (.settled r, v)) :
    IsTried m k policy op clock announced (left + 1) tick w [⟨tick, w, .settled r, v⟩] (.settled r)
      tick (v.settle op (clock.add tick) r) where
  attempts x hx := by
    obtain rfl := List.mem_singleton.1 hx
    exact Try.isAttempt_of_locked m policy op clock h
  paced n x hx := by
    cases n with
    | zero =>
      cases hx
      simp
    | succ n => cases hx
  begins x hx := by
    cases hx
    exact .refl w
  resumes := .singleton _
  ended := by
    have hover : IsOver k policy op clock announced (left + 1) tick w
        ([] ++ [(⟨tick, w, .settled r, v⟩ : Try μ σ)]) (.settled r)
        (tick + 0 * policy.retryDelay.waitTicks) (v.settle op (clock.add tick) r) :=
      .settled nofun rfl (Nat.succ_pos left)
    rwa [Nat.zero_mul] at hover
  barred hlocked := by
    have hlost := Attempt.locked_of_locked m op policy.expirationDelay (clock.add tick)
      (hlocked _ (List.mem_singleton_self _))
    rw [h] at hlost
    cases hlost.1

theorem again {left tick ending : Nat} {w v v' u : World μ σ} {found : Checkpoint}
    {tries : List (Try μ σ)} {reply : Reply}
    (h : Attempt.locked m op policy.expirationDelay (clock.add tick) w = (.contended found, v))
    (hpause : World.Meanwhile k announced v v')
    (hrest : IsTried m k policy op clock announced left (tick + policy.retryDelay.waitTicks) v'
      tries reply ending u) :
    IsTried m k policy op clock announced (left + 1) tick w
      (⟨tick, w, .contended found, v⟩ :: tries) reply ending u := by
  have hrest := hrest.of_meanwhile hpause
  refine ⟨?_, ?_, ?_, ?_, .again rfl hrest.ended, ?_⟩
  · exact List.forall_mem_cons.2 ⟨Try.isAttempt_of_locked m policy op clock h, hrest.attempts⟩
  · intro n x hx
    cases n with
    | zero =>
      cases hx
      simp
    | succ n =>
      rw [hrest.paced n x hx, Nat.succ_mul]
      omega
  · intro x hx
    cases hx
    exact .refl w
  · exact hrest.resumes.cons hrest.begins
  · intro hlocked
    obtain ⟨hfirst, hlater⟩ := List.forall_mem_cons.1 hlocked
    obtain ⟨hdropped, hacts⟩ := hrest.barred hlater
    exact ⟨hdropped, List.forall_mem_cons.2
      ⟨(Attempt.locked_of_locked m op policy.expirationDelay (clock.add tick) hfirst).2, hacts⟩⟩

end IsTried

theorem Undergoes.isTried {left tick ending : Nat} {w u : World μ σ} {tries : List (Try μ σ)}
    {reply : Reply} (h : Undergoes m k policy op clock announced left tick w tries reply ending u) :
    IsTried m k policy op clock announced left tick w tries reply ending u := by
  induction h with
  | dropped => exact .dropped _ _
  | settled h => exact .settled h
  | again h hpause _ ih => exact .again h hpause ih

end

namespace Bench

/-- On any medium under the lock, an operation that is given to an idle writer is over within the
tries that it may have, one pause apart, and what is done in each of them can be told from how it
ended: the record is read as often as the place of the contender says and the decision asked for
once behind the second read; behind the read that finds the contender nothing is done. -/
theorem retried_and_counted {m : Medium μ} (hlocking : m.locking = true) (k : Backing μ)
    (policy : LockPolicy) (op : Operation σ) (tl : Timeline) (w : World μ σ) :
    ∃ (tries : List (Try μ σ)) (reply : Reply) (last : Timeline) (u : World μ σ),
      run m k op ⟨tl, .new policy, w⟩ = ([reply], ⟨last, .new policy, u⟩) ∧
      IsTried m k policy op tl.start tl.writes policy.maxTries tl.tick w tries reply last.tick
        u := by
  obtain ⟨v, tries, reply, last, u, hpause, hundergoes, hrun⟩ :=
    run_undergoes m k policy op hlocking tl w
  exact ⟨tries, reply, last, u, hrun,
    (hundergoes.isTried m k policy op tl.start tl.writes).of_meanwhile hpause⟩

/-- Two tries, ten milliseconds apart. -/
def twoTries : LockPolicy := ⟨.ofMillis 10, 2, .ofMillis 900⟩

/-- A cell with a lock in it, which its holder removes after five milliseconds. -/
def lockedCell : Bench (Option String) Unit :=
  ⟨⟨.epoch, 0, [⟨5, some "id=a"⟩]⟩, .new twoTries, ⟨some "id=a&lock=b", (), .tallies⟩⟩

/-- One pause past a lock that goes away, the operation settles. -/
theorem retried_past_lock :
    (Medium.memory true).locking = true ∧
    (run (.memory true) .memory Service.keeping lockedCell).1
      = [.settled (Record.decode "id=a")] ∧
    (run (.memory true) .memory Service.keeping lockedCell).2.timeline.tick = 10 ∧
    ∃ (tries : List (Try (Option String) Unit)) (reply : Reply) (last : Timeline)
      (u : World (Option String) Unit),
      run (.memory true) .memory Service.keeping lockedCell
        = ([reply], ⟨last, .new twoTries, u⟩) ∧
      IsTried (.memory true) .memory twoTries Service.keeping .epoch lockedCell.timeline.writes 2 0
        lockedCell.world tries reply last.tick u :=
  ⟨rfl, by decide +kernel, by decide +kernel,
    retried_and_counted rfl .memory twoTries Service.keeping lockedCell.timeline lockedCell.world⟩

end Bench

end SharedSession
