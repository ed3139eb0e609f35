import SharedSession.Proofs.Names
import SharedSession.Proofs.Product.Request
import SharedSession.Proofs.Storage.Succession

set_option autoImplicit false

/-!
# No session comes back

Products of any number of hosts make whole attempts over one cell, in any order and at any moments;
that is what serving their requests comes to. What they leave there is a lawful log: no session
changes its date of creation, and none that is over comes back, whatever a product still has in its
cache. The first activity after the end begins a session from scratch.

Main statements: `Course.exists_run_start`, `Course.sound_run`, `Course.isOver_run`,
`Course.no_resurrection`.
-/

namespace SharedSession

theorem forall_mem_modify {α : Type} {P : α → Prop} {f : α → α} (hf : ∀ a, P a → P (f a))
    {l : List α} (h : ∀ a ∈ l, P a) (i : Nat) : ∀ a ∈ l.modify i f, P a := by
  intro a ha
  obtain ⟨j, hj, rfl⟩ := List.mem_iff_getElem.1 ha
  rw [List.getElem_modify]
  split
  · exact hf _ (h _ (List.getElem_mem _))
  · exact h _ (List.getElem_mem _)

/-! ## Courses -/

/-- What can happen to the products. -/
inductive Event where
  /-- a product is started over what is stored -/
  | start (key : String) (compute : Nat → Option String → Decision) (timeOut : Span)
  /-- a product's request is tried once; what is stored lives for `d` -/
  | attempt (product : Nat) (request : Request) (d : Span)
  /-- a product ends its own session because its request was dropped -/
  | giveUp (product : Nat)
  /-- a product forgets old contexts -/
  | forget (product : Nat)
  /-- a product dates its context anew -/
  | redate (product : Nat) (start : Timestamp)

/-- Whether only a proper product is started. -/
def Event.IsProper (timeOut : Span) : Event → Prop
  | .start key _ t => Record.IsProductKey key ∧ t = timeOut
  | _ => True

/-- A request that has settled. -/
structure Settlement where
  moment : Timestamp
  product : Nat
  request : Request
  result : Record
deriving DecidableEq

/-- The record that an operation has settled with, if it has. -/
def Progress.settled? {σ : Type} : Progress σ → Option Record
  | .done (.settled r) => some r
  | _ => none

/-- How far things have come: the cell with its log, the products and the names, and the requests
that have settled, latest first. -/
structure Course where
  world : World Logbook (List Product)
  settlements : List Settlement

namespace Course

/-- All that was ever in the cell, latest first. -/
def deposits (c : Course) : List Deposit := c.world.medium.deposits

/-- The record in the cell. -/
def seen (c : Course) : Record := c.world.medium.seen

/-- The products in the order of their start. -/
def products (c : Course) : List Product := c.world.own

/-- How many names have been taken. -/
def used (c : Course) : Nat := c.world.names.used

/-- The settled requests that could have begun a session. -/
def renewals (c : Course) : List Settlement :=
  c.settlements.filter fun s => s.request = .expandOrRenew

/-- Nobody has been there, and something may be stored. -/
def start (now : Timestamp) (cell : Option String) (names : Supply) : Course where
  world := ⟨⟨now, [⟨now, cell⟩]⟩, [], names⟩
  settlements := []

/-- Sets the clock. -/
def moveTo (now : Timestamp) (c : Course) : Course :=
  { c with world := { c.world with medium := { c.world.medium with clock := now } } }

/-- Changes the `i`-th product. -/
def modify (i : Nat) (f : Product → Product) (c : Course) : Course :=
  { c with world := { c.world with own := c.world.own.modify i f } }

/-- Makes a whole attempt of a product's request. -/
def attempt (locking : Bool) (now : Timestamp) (i : Nat) (q : Request) (d : Span) (c : Course) :
    Course :=
  match c.world.attempt (.logged locking) (q.operation.onIndex i) d now with
  | (some r, w) => ⟨w, ⟨now, i, q, r⟩ :: c.settlements⟩
  | (none, w) => ⟨w, c.settlements⟩

/-- Lets something happen at a moment. -/
def step (locking : Bool) (c : Course) (now : Timestamp) (e : Event) : Course :=
  let c := c.moveTo now
  match e with
  | .start key compute timeOut =>
    let (stored, w) := c.world.load (.logged locking)
    { c with world := { w with own := w.own ++ [.new key compute timeOut now stored] } }
  | .attempt i q d => c.attempt locking now i q d
  | .giveUp i => c.modify i (·.synchronize now ∅)
  | .forget i => c.modify i (·.clearOldHistory now)
  | .redate i start => c.modify i (·.resetHistory start)

/-- Lets things happen one after another. -/
def run (locking : Bool) (c : Course) (events : List (Timestamp × Event)) : Course :=
  events.foldl (fun c e => c.step locking e.1 e.2) c

variable {locking : Bool} {c : Course} {now : Timestamp} {i : Nat} {q : Request} {d : Span}

@[simp] theorem run_nil (locking : Bool) (c : Course) : c.run locking [] = c := rfl

@[simp] theorem run_cons (locking : Bool) (c : Course) (e : Timestamp × Event)
    (events : List (Timestamp × Event)) :
    c.run locking (e :: events) = (c.step locking e.1 e.2).run locking events := rfl

theorem run_append (locking : Bool) (c : Course) (past events : List (Timestamp × Event)) :
    c.run locking (past ++ events) = (c.run locking past).run locking events := by
  unfold run
  rw [List.foldl_append]

/-- An attempt is refused, or it settles with what the product answers about the record that is
seen. -/
theorem attempt_cases (locking : Bool) (c : Course) (now : Timestamp) (i : Nat) (q : Request)
    (d : Span) :
    c.attempt locking now i q d = c ∨
    ∃ token n answer own, c.used ≤ n ∧
      (q.operation.onIndex i).transform ⟨now, c.world.names.name n⟩ c.seen.withoutLock c.products
        = (answer, own) ∧
      c.attempt locking now i q d
        = ⟨⟨c.world.medium.leaveAll
              (Attempt.contents locking token c.seen (answer.resolve now d)),
            own.modify i (q.operation.settle now
              (Attempt.result locking c.seen (answer.resolve now d))),
            ⟨c.world.names.name, n + 1⟩⟩,
          ⟨now, i, q, Attempt.result locking c.seen (answer.resolve now d)⟩ :: c.settlements⟩ := by
  unfold attempt
  rcases World.attempt_logged locking (q.operation.onIndex i) d now c.world with
    h | ⟨token, n, answer, own, hn, htransform, -, h⟩
  · rw [h]
    exact .inl rfl
  · rw [h]
    refine .inr ⟨token, n, answer, own, hn, htransform, ?_⟩
    dsimp only
    rw [Operation.settle_onIndex]
    rfl

/-! ## Requests at their writer -/

theorem moveTo_of_clock (h : c.world.medium.clock = now) : c.moveTo now = c := by
  subst h
  rfl

/-- What a writer does with a request while it has tries left are attempts, the last of which may
settle it. -/
theorem exists_run_attempts (hclock : c.world.medium.clock = now) (policy : LockPolicy) (tick : Nat)
    (i : Nat) (q : Request) (isAwaited : Bool) (left : Nat) :
    ∃ (n : Nat) (progress : Progress (List Product)) (c' : Course),
      c.run true (List.replicate n (now, .attempt i q policy.expirationDelay)) = c' ∧
      Processor.attempts (.logged true) policy now tick (q.operation.onIndex i) isAwaited left
        c.world = (progress, c'.world) ∧
      c'.settlements = (progress.settled?.map (⟨now, i, q, ·⟩)).toList ++ c.settlements := by
  induction left with
  | zero => exact ⟨0, .done .dropped, c, rfl, rfl, rfl⟩
  | succ left ih =>
    have hstep : c.step true now (.attempt i q policy.expirationDelay)
        = c.attempt true now i q policy.expirationDelay := by
      rw [step, moveTo_of_clock hclock]
    rcases World.attempt_logged true (q.operation.onIndex i) policy.expirationDelay now c.world with
      hrefused | ⟨_, _, _, _, _, _, _, hsettled⟩
    · -- an attempt that is refused leaves everything as it is, so the rest begins where it began
      have hsame : c.attempt true now i q policy.expirationDelay = c := by
        rw [attempt, hrefused]
      rw [World.attempts_succ_eq policy tick isAwaited left rfl, hrefused]
      dsimp only
      split
      · obtain ⟨n, progress, c', hrun, hserved, hsettlements⟩ := ih
        refine ⟨n + 1, progress, c', ?_, hserved, hsettlements⟩
        rw [List.replicate_succ, run_cons, hstep, hsame, hrun]
      · refine ⟨1, _, c, ?_, rfl, rfl⟩
        rw [List.replicate_one, run_cons, hstep, hsame, run_nil]
    · obtain ⟨r, w, hattempt⟩ : ∃ r w, c.world.attempt (.logged true) (q.operation.onIndex i)
          policy.expirationDelay now = (some r, w) := ⟨_, _, hsettled⟩
      refine ⟨1, .done (.settled r), ⟨w, ⟨now, i, q, r⟩ :: c.settlements⟩, ?_, ?_, rfl⟩
      · rw [List.replicate_one, run_cons, hstep, attempt, hattempt, run_nil]
      · rw [World.attempts_succ_eq policy tick isAwaited left rfl, hattempt]

/-- Serving a request at one moment is a course of attempts: under the lock as many as are made
until the writer pauses or is done, and without it a single one. -/
theorem exists_run_start (hclock : c.world.medium.clock = now) (locking : Bool)
    (policy : LockPolicy) (tick : Nat) (i : Nat) (q : Request) (isAwaited : Bool) :
    ∃ (n : Nat) (progress : Progress (List Product)) (c' : Course),
      c.run locking (List.replicate n (now, .attempt i q policy.expirationDelay)) = c' ∧
      Processor.start (.logged locking) policy now tick (q.operation.onIndex i) isAwaited c.world
        = (progress, c'.world) ∧
      c'.settlements = (progress.settled?.map (⟨now, i, q, ·⟩)).toList ++ c.settlements := by
  cases locking with
  | true => exact exists_run_attempts hclock policy tick i q isAwaited policy.maxTries
  | false =>
    obtain ⟨r, w, hattempt, hserved⟩ : ∃ r w,
        c.world.attempt (.logged false) (q.operation.onIndex i) policy.expirationDelay now
          = (some r, w) ∧
        Processor.start (.logged false) policy now tick (q.operation.onIndex i) isAwaited c.world
          = (.done (.settled r), w) := World.start_eq_of_unlocked policy tick isAwaited rfl
    refine ⟨1, .done (.settled r), ⟨w, ⟨now, i, q, r⟩ :: c.settlements⟩, ?_, hserved, rfl⟩
    rw [List.replicate_one, run_cons, step, moveTo_of_clock hclock, attempt, hattempt, run_nil]

/-! ## The products -/

variable {timeOut : Span} {e : Event}

/-- What no request changes of a product is the same after an attempt. -/
theorem map_products_attempt {β : Type} {g : Product → β}
    (hask : ∀ o r p, g (q.operation.transform o r p).2 = g p)
    (htell : ∀ r p, g (q.operation.settle now r p) = g p) :
    (c.attempt locking now i q d).products.map g = c.products.map g := by
  rcases attempt_cases locking c now i q d with heq | ⟨token, n, answer, own, -, htransform, heq⟩
  · rw [heq]
  · have hown : own = ((q.operation.onIndex i).transform ⟨now, c.world.names.name n⟩
        c.seen.withoutLock c.products).2 := by rw [htransform]
    rw [heq]
    show (own.modify i _).map g = c.products.map g
    rw [map_modify_eq (htell _), hown, Operation.map_transform_onIndex _ _ _ (hask _ _)]

theorem forall_traits_attempt {P : Traits → Prop} (h : ∀ p ∈ c.products, P p.traits) :
    ∀ p ∈ (c.attempt locking now i q d).products, P p.traits := by
  have hsame : (c.attempt locking now i q d).products.map Product.traits
      = c.products.map Product.traits :=
    map_products_attempt (Request.traits_transform q) (Request.traits_settle q now)
  rw [← List.forall_mem_map, hsame, List.forall_mem_map]
  exact h

theorem forall_traits_step {P : Traits → Prop} (h : ∀ p ∈ c.products, P p.traits)
    (he : ∀ key compute t, e = .start key compute t → P ⟨key, compute, t⟩) (locking : Bool)
    (now : Timestamp) : ∀ p ∈ (c.step locking now e).products, P p.traits := by
  cases e with
  | start key compute t =>
    intro p hp
    rcases List.mem_append.1 hp with hp | hp
    · exact h p hp
    · obtain rfl := List.mem_singleton.1 hp
      exact he key compute t rfl
  | attempt i q d => exact forall_traits_attempt h
  | giveUp i =>
    refine forall_mem_modify (fun p hp => ?_) h i
    rw [Product.traits_synchronize]
    exact hp
  | forget i =>
    refine forall_mem_modify (fun p hp => ?_) h i
    exact hp
  | redate i start =>
    refine forall_mem_modify (fun p hp => ?_) h i
    exact hp

theorem proper_attempt (h : ∀ p ∈ c.products, p.IsProper timeOut) :
    ∀ p ∈ (c.attempt locking now i q d).products, p.IsProper timeOut := by
  have hkeys : ∀ p ∈ (c.attempt locking now i q d).products,
      Record.IsProductKey p.traits.key ∧ p.traits.timeOut = timeOut :=
    forall_traits_attempt (P := fun t => Record.IsProductKey t.key ∧ t.timeOut = timeOut)
      fun p hp => ⟨(h p hp).key, (h p hp).timeOut⟩
  exact fun p hp => ⟨(hkeys p hp).1, (hkeys p hp).2⟩

theorem proper_step (h : ∀ p ∈ c.products, p.IsProper timeOut) (he : e.IsProper timeOut)
    (locking : Bool) (now : Timestamp) :
    ∀ p ∈ (c.step locking now e).products, p.IsProper timeOut := by
  have hstart : ∀ key compute t, e = .start key compute t →
      Record.IsProductKey key ∧ t = timeOut := by
    rintro key compute t rfl
    exact he
  have hkeys := forall_traits_step (P := fun t => Record.IsProductKey t.key ∧ t.timeOut = timeOut)
    (fun p hp => ⟨(h p hp).key, (h p hp).timeOut⟩) hstart locking now
  exact fun p hp => ⟨(hkeys p hp).1, (hkeys p hp).2⟩

/-! ## The log -/

/-- What holds at every point of a course. -/
structure Sound (timeOut : Span) (names : Supply) (taken : Option String) (c : Course) : Prop where
  name : c.world.names.name = names.name
  used : names.used ≤ c.used
  proper : ∀ p ∈ c.products, p.IsProper timeOut
  known : ∀ x ∈ c.deposits, names.Knows taken c.used x.record.id?
  lawful : c.world.medium.IsLawful timeOut

variable {names : Supply} {taken : Option String} {n : Nat} {answer : Outcome}
  {own : List Product} {s : Record}

theorem sound_start (timeOut : Span) (now : Timestamp) (cell : Option String) (names : Supply) :
    (start now cell names).Sound timeOut names (Record.ofStored cell).id? where
  name := rfl
  used := Nat.le_refl _
  proper := by
    intro p hp
    cases hp
  known := by
    intro x hx
    obtain rfl := List.mem_singleton.1 hx
    exact .inr (.inl rfl)
  lawful := by
    refine ⟨.anew ?_, trivial⟩
    intro y hy
    cases hy

theorem Sound.moveTo (h : c.Sound timeOut names taken) (now : Timestamp) :
    (c.moveTo now).Sound timeOut names taken :=
  ⟨h.name, h.used, h.proper, h.known, h.lawful⟩

theorem Sound.known_seen (h : c.Sound timeOut names taken) :
    names.Knows taken c.used c.seen.id? := by
  rcases Logbook.seen_eq c.world.medium with ⟨-, hempty⟩ | ⟨x, past, hdeposits, hx⟩
  · unfold seen
    rw [hempty]
    exact .inl (Record.get?_empty _)
  · unfold seen
    rw [hx]
    apply h.known
    unfold deposits
    rw [hdeposits]
    exact List.mem_cons_self

/-- What a product wants stored may be stored, and its identifier is known then. -/
theorem Sound.admits (h : c.Sound timeOut names taken) (hclock : c.world.medium.clock = now)
    (hn : c.used ≤ n) (hfresh : names.NeverRepeats taken (n + 1))
    (htransform : (q.operation.onIndex i).transform ⟨now, c.world.names.name n⟩
      c.seen.withoutLock c.products = (answer, own))
    (hs : answer.resolve now d = .persist s) :
    c.world.medium.Admits timeOut s ∧ names.Knows taken (n + 1) s.id? := by
  have hfrom : names.used ≤ n := Nat.le_trans h.used hn
  have hlife : c.seen.withoutLock.life = c.seen.life := Record.life_withoutLock c.seen
  rcases Operation.transform_onIndex_cases htransform with ⟨rfl, -⟩ | ⟨p, hp, rfl, -⟩
  · cases hs
  · rw [h.name] at hs
    obtain ⟨hkey, htimeOut⟩ := h.proper p (List.mem_of_getElem? hp)
    rcases Request.stored_cases q ⟨now, names.name n⟩ c.seen.withoutLock p hkey hs with
      hnone | hnew | ⟨hactive, hid, hcreated⟩
    · exact ⟨.inl hnone, .inl hnone⟩
    · refine ⟨.inr (.inl ?_), .inr (.inr ⟨n, hfrom, Nat.lt_succ_self n, hnew⟩)⟩
      intro x hx
      rw [hnew]
      exact (h.known x hx).ne_name hfresh hfrom hn
    · have hsame : s.id? = c.seen.id? := hid.trans (congrArg Life.id hlife)
      refine ⟨.inr (.inr ⟨hsame, hcreated.trans (congrArg Life.created hlife), .inr ?_⟩), ?_⟩
      · rw [hclock, ← htimeOut]
        show c.seen.isActive now p.timeOut = true
        rw [← Record.isActive_of_life hlife]
        exact hactive
      · rw [hsame]
        exact h.known_seen.mono (Nat.le_succ_of_le hn)

theorem used_attempt (locking : Bool) (c : Course) (now : Timestamp) (i : Nat) (q : Request)
    (d : Span) : c.used ≤ (c.attempt locking now i q d).used := by
  rcases attempt_cases locking c now i q d with heq | ⟨token, n, answer, own, hn, -, heq⟩
  · simp only [heq, Nat.le_refl]
  · rw [heq]
    exact Nat.le_succ_of_le hn

theorem Sound.attempt (h : c.Sound timeOut names taken) (hclock : c.world.medium.clock = now)
    (hfresh : names.NeverRepeats taken (c.attempt locking now i q d).used) :
    (c.attempt locking now i q d).Sound timeOut names taken := by
  have hproper : ∀ p ∈ (c.attempt locking now i q d).products, p.IsProper timeOut :=
    proper_attempt h.proper
  rcases attempt_cases locking c now i q d with heq | ⟨token, n, answer, own, hn, htransform, heq⟩
  · rw [heq]
    exact h
  · rw [heq] at hfresh hproper ⊢
    have hadmits := fun s (hs : answer.resolve now d = .persist s) =>
      h.admits hclock hn hfresh htransform hs
    refine ⟨h.name, Nat.le_succ_of_le (Nat.le_trans h.used hn), hproper, ?_,
      h.lawful.leaveAll_contents locking token fun s hs => (hadmits s hs).1⟩
    intro x hx
    have hgrown : c.used ≤ n + 1 := Nat.le_succ_of_le hn
    rcases List.mem_append.1 hx with hx | hx
    · obtain ⟨content, hcontent, rfl⟩ := List.mem_map.1 hx
      show names.Knows taken (n + 1) (Record.ofStored content).id?
      rcases Logbook.id?_of_mem_contents hcontent with hid | hid | ⟨s, hs, hid⟩
      · exact .inl hid
      · rw [hid]
        exact h.known_seen.mono hgrown
      · rw [hid]
        exact (hadmits s hs).2
    · exact (h.known x hx).mono hgrown

theorem used_step (locking : Bool) (c : Course) (now : Timestamp) (e : Event) :
    c.used ≤ (c.step locking now e).used := by
  cases e with
  | attempt i q d => exact used_attempt locking (c.moveTo now) now i q d
  | _ => exact Nat.le_refl _

theorem sound_step (h : c.Sound timeOut names taken) (he : e.IsProper timeOut)
    (hfresh : names.NeverRepeats taken (c.step locking now e).used) :
    (c.step locking now e).Sound timeOut names taken := by
  have hproper := proper_step h.proper he locking now
  cases e with
  | attempt i q d => exact (h.moveTo now).attempt rfl hfresh
  | start key compute t => exact ⟨h.name, h.used, hproper, h.known, h.lawful⟩
  | giveUp i => exact ⟨h.name, h.used, hproper, h.known, h.lawful⟩
  | forget i => exact ⟨h.name, h.used, hproper, h.known, h.lawful⟩
  | redate i start => exact ⟨h.name, h.used, hproper, h.known, h.lawful⟩

theorem used_run (locking : Bool) (events : List (Timestamp × Event)) (c : Course) :
    c.used ≤ (c.run locking events).used := by
  induction events generalizing c with
  | nil => exact Nat.le_refl _
  | cons e events ih => exact Nat.le_trans (used_step locking c e.1 e.2) (ih _)

theorem sound_run (h : c.Sound timeOut names taken) (events : List (Timestamp × Event))
    (hevents : ∀ e ∈ events, e.2.IsProper timeOut)
    (hfresh : names.NeverRepeats taken (c.run locking events).used) :
    (c.run locking events).Sound timeOut names taken := by
  induction events generalizing c with
  | nil => exact h
  | cons e events ih =>
    have hfirst : (c.step locking e.1 e.2).Sound timeOut names taken :=
      sound_step h (hevents e List.mem_cons_self) (hfresh.mono (used_run locking events _))
    exact ih hfirst (fun e' he' => hevents e' (List.mem_cons_of_mem e he')) hfresh

/-! ## The end of a session -/

theorem suffix_renewals_step (locking : Bool) (c : Course) (now : Timestamp) (e : Event) :
    c.renewals <:+ (c.step locking now e).renewals := by
  cases e with
  | attempt i q d =>
    show (c.moveTo now).renewals <:+ ((c.moveTo now).attempt locking now i q d).renewals
    rcases attempt_cases locking (c.moveTo now) now i q d with
      heq | ⟨token, n, answer, own, -, -, heq⟩
    · simp only [heq, List.suffix_refl]
    · rw [heq]
      exact (List.suffix_cons _ _).filter _
  | _ => exact List.suffix_refl _

theorem suffix_renewals_run (locking : Bool) (events : List (Timestamp × Event)) (c : Course) :
    c.renewals <:+ (c.run locking events).renewals := by
  induction events generalizing c with
  | nil => exact List.suffix_refl _
  | cons e events ih => exact (suffix_renewals_step locking c e.1 e.2).trans (ih _)

/-- Nothing but activity brings a session about where there is none. -/
theorem isOver_attempt (h : ∀ p ∈ c.products, p.IsProper timeOut) {u : Timestamp} (hle : u ≤ now)
    (hover : c.seen.IsOver u timeOut)
    (hquiet : (c.attempt locking now i q d).renewals = c.renewals) :
    (c.attempt locking now i q d).seen.IsOver u timeOut := by
  rcases attempt_cases locking c now i q d with heq | ⟨token, n, answer, own, -, htransform, heq⟩
  · rw [heq]
    exact hover
  · rw [heq] at hquiet ⊢
    have hq : q ≠ .expandOrRenew := by
      rintro rfl
      have hlength := congrArg List.length hquiet
      simp [renewals] at hlength
    show Record.IsOver (Logbook.seen _) u timeOut
    rw [seen, Attempt.seen_leaveAll_contents]
    cases hresolved : answer.resolve now d with
    | persist s =>
      rcases Operation.transform_onIndex_cases htransform with ⟨rfl, -⟩ | ⟨p, hp, rfl, -⟩
      · cases hresolved
      · have hend : c.seen.withoutLock.IsOver now p.timeOut := by
          rw [(h p (List.mem_of_getElem? hp)).timeOut]
          exact (hover.mono hle).withoutLock
        exact absurd hresolved (Request.not_stored_of_over q ⟨now, _⟩ _ p hq hend s)
    | clear => exact Record.isOver_iff.2 (.inr Record.isCleared_empty)
    | unchanged => exact hover

theorem isOver_step (h : ∀ p ∈ c.products, p.IsProper timeOut) {u : Timestamp} (hle : u ≤ now)
    (hover : c.seen.IsOver u timeOut)
    (hquiet : (c.step locking now e).renewals = c.renewals) :
    (c.step locking now e).seen.IsOver u timeOut := by
  cases e with
  | attempt i q d => exact isOver_attempt (c := c.moveTo now) h hle hover hquiet
  | _ => exact hover

theorem isOver_run (h : ∀ p ∈ c.products, p.IsProper timeOut) {u : Timestamp}
    (hover : c.seen.IsOver u timeOut) (events : List (Timestamp × Event))
    (hevents : ∀ e ∈ events, e.2.IsProper timeOut) (hle : ∀ e ∈ events, u ≤ e.1)
    (hquiet : (c.run locking events).renewals = c.renewals) :
    (c.run locking events).seen.IsOver u timeOut := by
  induction events generalizing c with
  | nil => exact hover
  | cons e events ih =>
    have hhere : e ∈ e :: events := List.mem_cons_self
    have hfirst := suffix_renewals_step locking c e.1 e.2
    have hrest := suffix_renewals_run locking events (c.step locking e.1 e.2)
    have hsame : (c.step locking e.1 e.2).renewals = c.renewals := by
      apply (hfirst.eq_of_length _).symm
      apply Nat.le_antisymm hfirst.length_le
      rw [← hquiet]
      exact hrest.length_le
    apply ih (proper_step h (hevents e hhere) locking e.1)
      (isOver_step h (hle e hhere) hover hsame)
      (fun e' he' => hevents e' (List.mem_cons_of_mem e he'))
      (fun e' he' => hle e' (List.mem_cons_of_mem e he'))
    rw [hsame]
    exact hquiet

/-- The first activity after the end begins a session from scratch, with a name of its own. -/
theorem seen_attempt_of_isOver (h : c.Sound timeOut names taken)
    (hfresh : names.NeverRepeats taken (c.attempt locking now i .expandOrRenew d).used)
    (hover : c.seen.IsOver now timeOut)
    (hsettled : (c.attempt locking now i .expandOrRenew d).renewals ≠ c.renewals)
    {p : Product} (hp : c.products[i]? = some p) :
    ∃ n, c.used ≤ n ∧ n < (c.attempt locking now i .expandOrRenew d).used ∧
      (∀ x ∈ c.deposits, x.record.id? ≠ some (names.name n)) ∧
      (c.attempt locking now i .expandOrRenew d).seen
        = Record.begun p.key (p.compute p.asked.length none) now d (names.name n) := by
  obtain ⟨hkey, htimeOut⟩ := h.proper p (List.mem_of_getElem? hp)
  rcases attempt_cases locking c now i .expandOrRenew d with
    heq | ⟨token, n, answer, own, hn, htransform, heq⟩
  · exact absurd (congrArg renewals heq) hsettled
  · rw [Operation.transform_onIndex_of_some hp, h.name] at htransform
    cases htransform
    have hend : c.seen.withoutLock.IsOver now p.timeOut := by
      rw [htimeOut]
      exact hover.withoutLock
    obtain ⟨s, hs, hbegun⟩ := Request.renewed_of_over ⟨now, names.name n⟩ _ p hkey hend d
    rw [heq] at hfresh ⊢
    refine ⟨n, hn, Nat.lt_succ_self n, ?_, ?_⟩
    · intro x hx
      exact (h.known x hx).ne_name hfresh (Nat.le_trans h.used hn) hn
    · show Logbook.seen _ = _
      rw [seen, Attempt.seen_leaveAll_contents]
      exact (congrArg (Attempt.left c.seen) hs).trans hbegun

/-- Whatever happens after the end, the first activity that settles begins a session from scratch. -/
theorem seen_of_first_renewal (h : c.Sound timeOut names taken)
    (events : List (Timestamp × Event)) (hevents : ∀ e ∈ events, e.2.IsProper timeOut)
    (hfresh : names.NeverRepeats taken
      ((c.run locking events).step locking now (.attempt i .expandOrRenew d)).used)
    {u : Timestamp} (hover : c.seen.IsOver u timeOut) (hle : ∀ e ∈ events, u ≤ e.1)
    (hnow : u ≤ now) (hquiet : (c.run locking events).renewals = c.renewals)
    (hsettled : ((c.run locking events).step locking now
      (.attempt i .expandOrRenew d)).renewals ≠ (c.run locking events).renewals)
    {p : Product} (hp : (c.run locking events).products[i]? = some p) :
    ∃ n, (c.run locking events).used ≤ n ∧
      n < ((c.run locking events).step locking now (.attempt i .expandOrRenew d)).used ∧
      (∀ x ∈ (c.run locking events).deposits, x.record.id? ≠ some (names.name n)) ∧
      ((c.run locking events).step locking now (.attempt i .expandOrRenew d)).seen
        = Record.begun p.key (p.compute p.asked.length none) now d (names.name n) := by
  have hused := used_step locking (c.run locking events) now (.attempt i .expandOrRenew d)
  have hsound : (c.run locking events).Sound timeOut names taken :=
    sound_run h events hevents (hfresh.mono hused)
  have hend : (c.run locking events).seen.IsOver u timeOut :=
    isOver_run h.proper hover events hevents hle hquiet
  exact seen_attempt_of_isOver (hsound.moveTo now) hfresh (hend.mono hnow) hsettled hp

/-- In every course a session keeps its date of creation; a session that was covered by something
else, or was not active at some moment, is not active in anything that is left from that moment on;
and the first activity after its end leaves nothing but a session from scratch. -/
theorem no_resurrection (locking : Bool) (timeOut : Span) (moment : Timestamp)
    (cell : Option String) (names : Supply) (events : List (Timestamp × Event))
    (hevents : ∀ e ∈ events, e.2.IsProper timeOut) (c : Course)
    (hc : c = (start moment cell names).run locking events)
    (hfresh : names.NeverRepeats (Record.ofStored cell).id? c.used) :
    (∀ x ∈ c.deposits, ∀ y ∈ c.deposits, ∀ id,
      x.record.id? = some id → y.record.id? = some id →
        x.record.get? Record.createdKey = y.record.get? Record.createdKey) ∧
    (∀ later e earlier id u, c.deposits = later ++ e :: earlier →
      (∃ y ∈ e :: earlier, y.record.id? = some id) →
      (e.record.id? = some id → e.record.isActive u timeOut = false) →
      (∀ x ∈ later, u ≤ x.moment) →
        ∀ x ∈ later, x.record.id? = some id → ∀ v, u ≤ v →
          x.record.isActive v timeOut = false) ∧
    (∀ past between now i d c₁ c₂ u p,
      events = past ++ between ++ [(now, .attempt i .expandOrRenew d)] →
      c₁ = (start moment cell names).run locking past → c₂ = c₁.run locking between →
      c₁.seen.IsOver u timeOut → (∀ e ∈ between, u ≤ e.1) → u ≤ now →
      c₂.renewals = c₁.renewals → c.renewals ≠ c₂.renewals → c₂.products[i]? = some p →
        ∃ n, c₂.used ≤ n ∧ n < c.used ∧
          (∀ x ∈ c₂.deposits, x.record.id? ≠ some (names.name n)) ∧
          c.seen = Record.begun p.key (p.compute p.asked.length none) now d (names.name n)) := by
  have hsound : c.Sound timeOut names (Record.ofStored cell).id? := by
    rw [hc] at hfresh ⊢
    exact sound_run (sound_start timeOut moment cell names) events hevents hfresh
  refine ⟨?_, ?_, ?_⟩
  · intro x hx y hy id
    exact hsound.lawful.created_eq x hx y hy
  · intro later e earlier id u hdeposits hid hended hlater x hx hxid v hv
    have hlawful : IsLawful timeOut (later ++ e :: earlier) := by
      rw [← hdeposits]
      exact hsound.lawful
    have hdead : x.record.isActive u timeOut = false :=
      hlawful.inactive_of_ended hid hended hlater x hx hxid
    exact Record.isActive_eq_false_of_le hv hdead
  · intro past between now i d c₁ c₂ u p hsplit hc₁ hc₂ hover hbetween hnow hquiet hsettled hp
    have hlast : c = c₂.step locking now (.attempt i .expandOrRenew d) := by
      rw [hc, hsplit, run_append, run_append, ← hc₁, ← hc₂]
      rfl
    have hsub : ∀ e ∈ past ++ between, e.2.IsProper timeOut := by
      intro e he
      apply hevents
      rw [hsplit]
      exact List.mem_append_left _ he
    have hused₂ : c₂.used ≤ c.used := by
      rw [hlast]
      exact used_step locking c₂ now _
    have hused₁ : c₁.used ≤ c.used := by
      rw [hc₂] at hused₂
      exact Nat.le_trans (used_run locking between c₁) hused₂
    have hsound₁ : c₁.Sound timeOut names (Record.ofStored cell).id? := by
      have hfresh₁ := hfresh.mono hused₁
      rw [hc₁] at hfresh₁ ⊢
      exact sound_run (sound_start timeOut moment cell names) past
        (fun e he => hsub e (List.mem_append_left _ he)) hfresh₁
    subst hc₂ hlast
    exact seen_of_first_renewal hsound₁ between
      (fun e he => hsub e (List.mem_append_right _ he)) hfresh hover hbetween hnow hquiet hsettled hp

/-- A product that tracks begins a session. -/
def early : List (Timestamp × Event) :=
  [(.epoch, .start "a" (fun _ _ => ⟨true, "1"⟩) (.ofMillis 90)),
    (.epoch, .attempt 0 .expandOrRenew (.ofMillis 5))]

/-- It wants to prolong the session when that has run out. -/
def late : List (Timestamp × Event) := [(Timestamp.epoch.add 6, .attempt 0 .expand (.ofMillis 5))]

/-- Then it begins another. -/
def renewed : Course :=
  (start .epoch none .tallies).run true
    (early ++ late ++ [(Timestamp.epoch.add 7, .attempt 0 .expandOrRenew (.ofMillis 5))])

/-- How things stood before that. -/
def beforehand : Course := ((start .epoch none .tallies).run true early).run true late

theorem begun_renewed :
    renewed.seen = Record.ofList [("a", "1"), ("created", "7"), ("expire", "12"),
      ("id", "iiiiii")] ∧
    ∃ (p : Product) (n : Nat), beforehand.products[0]? = some p ∧ n < renewed.used ∧
      (∀ x ∈ beforehand.deposits, x.record.id? ≠ some (Supply.tallies.name n)) ∧
      renewed.seen = Record.begun p.key (p.compute p.asked.length none)
        (Timestamp.epoch.add 7) (.ofMillis 5) (Supply.tallies.name n) := by
  refine ⟨by decide +kernel, ?_⟩
  have hevents : ∀ e ∈ early ++ late ++
      [(Timestamp.epoch.add 7, .attempt 0 .expandOrRenew (.ofMillis 5))],
      e.2.IsProper (.ofMillis 90) := by
    have ha : Record.IsProductKey "a" := ⟨⟨by decide, by decide, by decide⟩, by decide, by decide⟩
    simp [early, late, Event.IsProper, ha]
  have hend : ((start .epoch none .tallies).run true early).seen.IsOver
      (Timestamp.epoch.add 6) (.ofMillis 90) := by
    unfold Record.IsOver
    decide +kernel
  have hthere : 0 < beforehand.products.length := by decide +kernel
  have hp : beforehand.products[0]? = some (beforehand.products[0]) :=
    List.getElem?_eq_getElem hthere
  obtain ⟨n, -, hn, hnew, hseen⟩ :=
    (no_resurrection true (.ofMillis 90) .epoch none .tallies _ hevents renewed rfl
      (by decide +kernel)).2.2 early late _ 0 _ _ beforehand _ _ rfl rfl rfl hend (by decide +kernel)
      (by decide +kernel) (by decide +kernel) (by decide +kernel) hp
  exact ⟨_, n, hp, hn, hnew, hseen⟩

end Course

end SharedSession
