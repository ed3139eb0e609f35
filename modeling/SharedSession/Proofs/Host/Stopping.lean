import SharedSession.Proofs.Host.Waiting
import SharedSession.Proofs.Lock.NoTrace

set_option autoImplicit false

/-!
# A tab that is stopped

A tab can be stopped between any two beats, and between any two tries of one operation: to `pass` a
beat is to let it happen, where serving a queue is making one try. Whatever happens at one go comes
down to that.

At no such moment does the medium hold a token of the tab, whoever else writes there. Once the tab
is stopped there is nothing in its queue and nothing gets there: it neither writes nor asks for a
decision nor tells anybody of one, and its products begin no session.

Main statements: `Browser.exists_passAll`, `Browser.IsTokenless.passAll`,
`Browser.IsAtRest.passAll`, `Browser.stopped_for_good`.
-/

namespace SharedSession

/-- What others write in a beat, or announce, is without these tokens. -/
def Beat.Spares (own : String → Prop) : Beat → Prop
  | .overwrite raw => (Record.ofStored raw).IsFreeOf own
  | .announce _ raw => (Record.ofStored raw).IsFreeOf own
  | _ => True

namespace Browser

variable {μ : Type}

/-! ## Try by try -/

/-- Lets the queue of a tab make a try. -/
def tryTab (m : Medium μ) (tab : Nat) (b : Browser μ) : Browser μ :=
  b.onTab tab fun t w =>
    let tried := t.processor.tryNext m b.now b.timeline.tick w
    ({ t with processor := tried.1 }, tried.2)

/-- Lets one small thing happen; serving a queue is making one try. -/
def pass (m : Medium μ) (k : Backing μ) (b : Browser μ) : Beat → Browser μ
  | .serve tab => b.tryTab m tab
  | e => b.follow m k e

/-- Lets small things happen one after another. -/
def passAll (m : Medium μ) (k : Backing μ) (b : Browser μ) (beats : List Beat) : Browser μ :=
  beats.foldl (pass m k) b

section

variable (m : Medium μ) (k : Backing μ)

theorem passAll_append (b : Browser μ) (beats more : List Beat) :
    b.passAll m k (beats ++ more) = (b.passAll m k beats).passAll m k more :=
  List.foldl_append

theorem pass_cases (b : Browser μ) (e : Beat) :
    (∃ tab, e = .serve tab ∧ b.pass m k e = b.tryTab m tab) ∨
      (∀ tab, e ≠ .serve tab) ∧ b.pass m k e = b.follow m k e := by
  cases e with
  | serve tab => exact .inl ⟨tab, rfl, rfl⟩
  | _ => exact .inr ⟨nofun, rfl⟩

theorem tryTab_of_some {b : Browser μ} {tab : Nat} {t : Tab} (h : b.tabs[tab]? = some t) :
    b.tryTab m tab = { b with
      tabs := b.tabs.set tab
        { t with processor := (t.processor.tryNext m b.now b.timeline.tick b.world).1 }
      world := (t.processor.tryNext m b.now b.timeline.tick b.world).2 } := onTab_of_some h _

theorem tryTab_of_none {b : Browser μ} {tab : Nat} (h : b.tabs[tab]? = none) :
    b.tryTab m tab = b := onTab_of_none h _

/-- Serving a job is making some tries. -/
theorem exists_tries (b : Browser μ) (tab : Nat) :
    ∃ tries : Nat, b.passAll m k (List.replicate tries (.serve tab)) = b.serveTab m tab := by
  cases ht : b.tabs[tab]? with
  | none =>
    have hserve : b.serveTab m tab = b := onTab_of_none ht _
    exact ⟨0, hserve.symm⟩
  | some t =>
    obtain ⟨hlt, hget⟩ := List.getElem?_eq_some_iff.1 ht
    -- the tries change nothing but the queue of the tab and the world
    suffices hreached : ∀ x, Relation.ReflTransGen
        (Processor.ByTry m b.now b.timeline.tick) (t.processor, b.world) x →
        ∃ tries : Nat, b.passAll m k (List.replicate tries (.serve tab))
          = { b with tabs := b.tabs.set tab { t with processor := x.1 }, world := x.2 } by
      have hserve : b.serveTab m tab = { b with
          tabs := b.tabs.set tab
            { t with processor := (t.processor.serveNext m b.now b.timeline.tick b.world).1 }
          world := (t.processor.serveNext m b.now b.timeline.tick b.world).2 } := onTab_of_some ht _
      rw [hserve]
      exact hreached _ (Processor.serveNext_tries m b.now b.timeline.tick t.processor b.world)
    intro x hx
    induction hx with
    | refl =>
      refine ⟨0, ?_⟩
      show b = { b with tabs := b.tabs.set tab t }
      rw [← hget, List.set_getElem_self]
    | @tail x y _ hstep ih =>
      obtain ⟨tries, htries⟩ := ih
      obtain rfl := hstep
      refine ⟨tries + 1, ?_⟩
      rw [List.replicate_succ', passAll_append, htries]
      have hset : (b.tabs.set tab { t with processor := x.1 })[tab]?
          = some { t with processor := x.1 } := List.getElem?_set_self hlt
      have htry := tryTab_of_some m
        (b := { b with tabs := b.tabs.set tab { t with processor := x.1 }, world := x.2 }) hset
      rw [List.set_set] at htry
      exact htry

/-- What happens at one go happens beat by beat, and its tries one by one. -/
theorem exists_passAll (b : Browser μ) (beats : List Beat) :
    ∃ finer : List Beat, b.passAll m k finer = b.followAll m k beats := by
  induction beats generalizing b with
  | nil => exact ⟨[], rfl⟩
  | cons e beats ih =>
    obtain ⟨finer, hfiner⟩ := ih (b.follow m k e)
    obtain ⟨first, hfirst⟩ : ∃ first : List Beat, b.passAll m k first = b.follow m k e := by
      rcases pass_cases m k b e with ⟨tab, rfl, -⟩ | ⟨-, hpass⟩
      · obtain ⟨tries, htries⟩ := exists_tries m k b tab
        exact ⟨_, htries⟩
      · exact ⟨[e], hpass⟩
    refine ⟨first ++ finer, ?_⟩
    rw [passAll_append, hfirst, hfiner]
    rfl

/-! ## What a tab does -/

/-- What a tab does in a beat: the acts of a try, and the read by which a product of it takes over
what is stored. -/
def deeds (m : Medium μ) (b : Browser μ) (n : Nat) : Beat → List (Act (List Product))
  | .serve tab =>
    if tab = n then
      match b.tabs[n]? with
      | some t =>
        (t.processor.tryNextActs m b.now b.timeline.tick b.world).map Prod.snd
      | none => []
    else []
  | .enter tab _ _ =>
    if tab = n ∧ n < b.tabs.length then [.call (m.loadCall b.world.medium)] else []
  | _ => []

/-- What a tab does in beats one after another. -/
def deedsAll (n : Nat) (b : Browser μ) : List Beat → List (Act (List Product))
  | [] => []
  | e :: beats => b.deeds m n e ++ deedsAll n (b.pass m k e) beats

/-- What changes the medium in a beat: the acts of a tab's queue, the read by which a product takes
over what is stored, or others. -/
inductive Alters (b : Browser μ) : Beat → Browser μ → Prop where
  | serve {tab : Nat} {b' : Browser μ} (acts : List (Job (List Product) × Act (List Product)))
      (hacts : acts.map Prod.snd = b.deeds m tab (.serve tab))
      (hleads : LeadAll m acts b.world.state b'.world.state) : Alters b (.serve tab) b'
  | enter {tab : Nat} {key : String} {compute : Nat → Option String → Decision} {b' : Browser μ}
      (hacts : b.deeds m tab (.enter tab key compute) = [.call (m.loadCall b.world.medium)])
      (hmedium : b'.world.medium = (m.load b.world.medium).2) :
      Alters b (.enter tab key compute) b'
  | foreign {b' : Browser μ}
      (hmedium : b'.world.medium
        = b.timeline.dueWrites.foldl (fun s f => k.overwrite f.raw s) b.world.medium) :
      Alters b .foreign b'
  | overwrite {raw : Option String} {b' : Browser μ}
      (hmedium : b'.world.medium = k.overwrite raw b.world.medium) : Alters b (.overwrite raw) b'
  /-- nobody does anything there -/
  | none {e : Beat} {b' : Browser μ} (hacts : ∀ n, b.deeds m n e = [])
      (hmedium : b'.world.medium = b.world.medium) : Alters b e b'

theorem alters_pass (b : Browser μ) (e : Beat) : b.Alters m k e (b.pass m k e) := by
  have hnone : ∀ b' : Browser μ, b'.world.medium = b.world.medium → (∀ n, b.deeds m n e = []) →
      b.Alters m k e b' := fun b' hmedium hacts => .none hacts hmedium
  cases e with
  | serve tab =>
    cases ht : b.tabs[tab]? with
    | none =>
      refine .serve [] ?_ ?_
      · simp [deeds, ht]
      · show LeadAll m [] b.world.state (b.tryTab m tab).world.state
        rw [tryTab_of_none m ht]
        exact .nil
    | some t =>
      refine .serve (t.processor.tryNextActs m b.now b.timeline.tick b.world) ?_ ?_
      · simp [deeds, ht]
      · show LeadAll m _ b.world.state (b.tryTab m tab).world.state
        rw [tryTab_of_some m ht]
        exact Processor.leadAll_tryNext m b.now b.timeline.tick t.processor b.world
  | enter tab key compute =>
    cases ht : b.tabs[tab]? with
    | none =>
      have hlength : b.tabs.length ≤ tab := List.getElem?_eq_none_iff.1 ht
      refine hnone _ ?_ fun n => if_neg ?_
      · show (b.follow m k (.enter tab key compute)).world.medium = _
        rw [follow_enter_of_none ht]
      · rintro ⟨rfl, hlt⟩
        omega
    | some t =>
      refine .enter (if_pos ⟨rfl, (List.getElem?_eq_some_iff.1 ht).1⟩) ?_
      show (b.follow m k (.enter tab key compute)).world.medium = _
      rw [follow_enter_of_some ht]
      rfl
  | foreign => exact .foreign rfl
  | overwrite raw => exact .overwrite rfl
  | drive tab =>
    refine hnone _ ?_ fun _ => rfl
    show (b.driveTab tab).world.medium = _
    unfold driveTab onTab
    split <;> rfl
  | submit product r =>
    refine hnone _ ?_ fun _ => rfl
    exact congrArg World.medium (sameButTabs_submit m k b product r).world
  | employ product =>
    refine hnone _ ?_ fun _ => rfl
    exact congrArg World.medium (sameButTabs_employ m k b product).world
  | _ => exact hnone _ rfl fun _ => rfl

/-! ## No token is left -/

/-- The texts that a tab has written. -/
def written (n : Nat) (b : Browser μ) (beats : List Beat) : List String :=
  (b.deedsAll m k n beats).filterMap fun
    | .call (.write text) => some text
    | _ => none

/-- A token that a tab has written into the medium. -/
def IsTokenOf (n : Nat) (b : Browser μ) (beats : List Beat) (token : String) : Prop :=
  ∃ text ∈ b.written m k n beats, (Record.decode text).lock? = some token

end

/-- None of these tokens is stored, and none will be by what others are to write. -/
structure IsTokenless (k : Backing μ) (own : String → Prop) (b : Browser μ) : Prop where
  medium : (k.shown b.world.medium).IsFreeOf own
  writes : ∀ f ∈ b.timeline.writes, (Record.ofStored f.raw).IsFreeOf own

section

variable {m : Medium μ} {k : Backing μ} {own : String → Prop} {b : Browser μ}

/-- What others are to write has been announced. -/
theorem writes_pass (m : Medium μ) (k : Backing μ) {f : ForeignWrite} {e : Beat}
    (h : f ∈ (b.pass m k e).timeline.writes) :
    f ∈ b.timeline.writes ∨ ∃ ahead, e = .announce ahead f.raw := by
  have hsame : (b.pass m k e).timeline = b.timeline → f ∈ b.timeline.writes := by
    intro htimeline
    rwa [htimeline] at h
  cases e with
  | serve tab => exact .inl (hsame (b.timeline_onTab tab _))
  | drive tab => exact .inl (hsame (b.timeline_onTab tab _))
  | foreign => exact .inl (List.mem_filter.1 h).1
  | enter tab key compute =>
    refine .inl (hsame ?_)
    show (b.follow m k (.enter tab key compute)).timeline = b.timeline
    cases ht : b.tabs[tab]? with
    | none => rw [follow_enter_of_none ht]
    | some t => rw [follow_enter_of_some ht]
  | submit product r => exact .inl (hsame (sameButTabs_submit m k b product r).timeline)
  | employ product => exact .inl (hsame (sameButTabs_employ m k b product).timeline)
  | announce ahead raw =>
    rcases List.mem_append.1 h with hmem | hmem
    · exact .inl hmem
    · obtain rfl := List.mem_singleton.1 hmem
      exact .inr ⟨ahead, rfl⟩
  | _ => exact .inl h

theorem isFreeOf_overwrites (h : m.IsShared k own) {writes : List ForeignWrite}
    (hwrites : ∀ f ∈ writes, (Record.ofStored f.raw).IsFreeOf own) {s : μ}
    (hs : (k.shown s).IsFreeOf own) :
    (k.shown (writes.foldl (fun s f => k.overwrite f.raw s) s)).IsFreeOf own := by
  induction writes generalizing s with
  | nil => exact hs
  | cons f writes ih =>
    refine ih (fun f' hf' => hwrites f' (List.mem_cons_of_mem f hf')) ?_
    rw [h.overwrite]
    exact hwrites f List.mem_cons_self

theorem IsTokenless.pass (hb : b.IsTokenless k own) (h : m.IsShared k own) {e : Beat}
    (he : e.Spares own) : (b.pass m k e).IsTokenless k own where
  medium := by
    have halters := alters_pass m k b e
    generalize hb' : b.pass m k e = b' at halters ⊢
    cases halters with
    | @serve tab _ acts _ _ =>
      rw [← hb']
      show (k.shown (b.tryTab m tab).world.medium).IsFreeOf own
      cases ht : b.tabs[tab]? with
      | none =>
        rw [tryTab_of_none m ht]
        exact hb.medium
      | some t =>
        rw [tryTab_of_some m ht]
        exact Processor.isFreeOf_tryNext h b.now b.timeline.tick t.processor hb.medium
    | enter _ hmedium =>
      rw [hmedium]
      exact h.isFreeOf_load (w := b.world) rfl hb.medium
    | foreign hmedium =>
      rw [hmedium]
      exact isFreeOf_overwrites h (fun f hf => hb.writes f (List.mem_filter.1 hf).1) hb.medium
    | overwrite hmedium =>
      rw [hmedium, h.overwrite]
      exact he
    | none _ hmedium =>
      rw [hmedium]
      exact hb.medium
  writes f hf := by
    rcases writes_pass m k hf with hmem | ⟨ahead, rfl⟩
    · exact hb.writes f hmem
    · exact he

/-- Between two beats, and between two tries, no token is left. -/
theorem IsTokenless.passAll (hb : b.IsTokenless k own) (h : m.IsShared k own) {beats : List Beat}
    (hbeats : ∀ e ∈ beats, e.Spares own) : (b.passAll m k beats).IsTokenless k own := by
  induction beats generalizing b with
  | nil => exact hb
  | cons e beats ih =>
    exact ih (hb.pass h (hbeats e List.mem_cons_self)) fun e' he' =>
      hbeats e' (List.mem_cons_of_mem e he')

end

end Browser

/-! ## A stopped tab -/

/-- A tab is stopped, and nothing is in its queue. -/
structure Tab.IsOver (t : Tab) : Prop where
  stopped : t.processor.isStopped = true
  queue : t.processor.queue = []
  pause : t.processor.pause = none

namespace Tab

variable {t : Tab}

theorem isOver_stop (t : Tab) : t.stop.IsOver := ⟨rfl, rfl, rfl⟩

/-- There is nothing in the queue to try. -/
theorem IsOver.tryNext {μ : Type} (h : t.IsOver) (m : Medium μ) (now : Timestamp) (tick : Nat)
    (w : World μ (List Product)) :
    t.processor.tryNext m now tick w = (t.processor, w) ∧
      t.processor.tryNextActs m now tick w = [] := by
  simp only [Processor.tryNext, Processor.tryNextActs, h.pause, h.queue, and_self]

theorem IsOver.operations (h : t.IsOver) : t.operations = [] := by
  unfold Tab.operations
  rw [Processor.operations_eq, h.pause, h.queue]
  rfl

/-- Nothing gets into the queue, whether somebody waits for it or not. -/
theorem IsOver.submit (h : t.IsOver) (product : Nat) (r : Request) (isAwaited : Bool) :
    (t.submit product r isAwaited).IsOver := by
  have hsubmit : t.processor.submit (r.operation.onIndex product) isAwaited
      = t.processor.reply isAwaited .dropped := if_pos h.stopped
  unfold Tab.submit
  rw [hsubmit]
  cases isAwaited with
  | true => exact ⟨h.stopped, h.queue, h.pause⟩
  | false => exact ⟨h.stopped, h.queue, h.pause⟩

theorem IsOver.flush (h : t.IsOver) : ({ t with processor := t.processor.flush } : Tab).IsOver := by
  have hflush : t.processor.flush = t.processor.reply true .flushed := if_pos h.stopped
  rw [hflush]
  exact ⟨h.stopped, h.queue, h.pause⟩

theorem IsOver.drive (h : t.IsOver) (now : Timestamp) (tick : Nat) (own : List Product) :
    (t.drive now tick own).1.IsOver := by
  have hsubmitted : ∀ (product : Nat) (rs : List Request) (t : Tab), t.IsOver →
      (rs.foldl (fun t r => t.submit product r false) t).IsOver := by
    intro product rs
    induction rs with
    | nil => exact fun t ht => ht
    | cons r rs ih => exact fun t ht => ih _ (ht.submit product r false)
  have hturned : ∀ (ds : List Driver) (s : Tab × List Product), s.1.IsOver →
      (ds.foldl (turnDriver now tick) s).1.IsOver := by
    intro ds
    induction ds with
    | nil => exact fun s hs => hs
    | cons d ds ih =>
      intro s hs
      have hone := hsubmitted d.product (d.turn s.1.isVisible tick).requests s.1 hs
      exact ih _ ⟨hone.stopped, hone.queue, hone.pause⟩
  exact hturned t.drivers _ ⟨h.stopped, h.queue, h.pause⟩

end Tab

namespace Browser

variable {μ : Type}

/-- The `n`-th tab is stopped. -/
def IsOverIn (b : Browser μ) (n : Nat) : Prop := ∃ t, b.tabs[n]? = some t ∧ t.IsOver

section

variable {m : Medium μ} {k : Backing μ} {b : Browser μ} {n : Nat}

theorem IsOverIn.modifyTab (h : b.IsOverIn n) (i : Nat) {f : Tab → Tab}
    (hf : ∀ t : Tab, t.IsOver → (f t).IsOver) : (b.modifyTab i f).IsOverIn n := by
  obtain ⟨t, ht, hover⟩ := h
  refine ⟨if i = n then f t else t, ?_, ?_⟩
  · show (b.tabs.modify i f)[n]? = _
    rw [List.getElem?_modify, ht]
    split <;> rfl
  · split
    · exact hf t hover
    · exact hover

theorem IsOverIn.onTab (h : b.IsOverIn n) (i : Nat)
    {f : Tab → World μ (List Product) → Tab × World μ (List Product)}
    (hf : ∀ (t : Tab) (w : World μ (List Product)), t.IsOver → (f t w).1.IsOver) :
    (b.onTab i f).IsOverIn n := by
  obtain ⟨t, ht, hover⟩ := h
  cases hi : b.tabs[i]? with
  | none =>
    rw [onTab_of_none hi]
    exact ⟨t, ht, hover⟩
  | some t' =>
    rw [onTab_of_some hi]
    by_cases hin : i = n
    · subst hin
      obtain rfl := Option.some.inj (ht.symm.trans hi)
      exact ⟨_, List.getElem?_set_self (List.getElem?_eq_some_iff.1 ht).1, hf t b.world hover⟩
    · exact ⟨t, by rw [List.getElem?_set_ne hin, ht], hover⟩

/-- Nothing brings a stopped tab back to life. -/
theorem IsOverIn.pass (h : b.IsOverIn n) (m : Medium μ) (k : Backing μ) (e : Beat) :
    (b.pass m k e).IsOverIn n := by
  cases e with
  | drive tab => exact h.onTab tab fun t w hover => hover.drive b.now b.timeline.tick w.own
  | serve tab =>
    refine h.onTab tab fun t w hover => ?_
    dsimp only
    rw [(hover.tryNext m b.now b.timeline.tick w).1]
    exact ⟨hover.stopped, hover.queue, hover.pause⟩
  | collect tab =>
    exact h.modifyTab tab fun t hover => ⟨hover.stopped, hover.queue, hover.pause⟩
  | openTab config =>
    obtain ⟨t, ht, hover⟩ := h
    refine ⟨t, ?_, hover⟩
    show (b.tabs ++ [Tab.new config b.now])[n]? = some t
    rw [List.getElem?_append_left (List.getElem?_eq_some_iff.1 ht).1, ht]
  | enter tab key compute =>
    show (b.follow m k (.enter tab key compute)).IsOverIn n
    cases hget : b.tabs[tab]? with
    | none => rwa [follow_enter_of_none hget]
    | some t =>
      rw [follow_enter_of_some hget]
      exact h
  | submit product r =>
    show (b.follow m k (.submit product r)).IsOverIn n
    cases howner : b.owners[product]? with
    | none => rwa [follow_submit_of_none howner]
    | some tab =>
      rw [follow_submit howner]
      exact h.modifyTab tab fun t hover => hover.submit product r true
  | employ product =>
    show (b.follow m k (.employ product)).IsOverIn n
    cases howner : b.owners[product]? with
    | none => rwa [follow_employ_of_none howner]
    | some tab =>
      rw [follow_employ howner]
      exact h.modifyTab tab fun t hover => ⟨hover.stopped, hover.queue, hover.pause⟩
  | notify tab count =>
    exact h.modifyTab tab fun t hover => ⟨hover.stopped, hover.queue, hover.pause⟩
  | look tab isVisible =>
    exact h.modifyTab tab fun t hover => ⟨hover.stopped, hover.queue, hover.pause⟩
  | mark tab => exact h.modifyTab tab fun t hover => hover.flush
  | stop tab => exact h.modifyTab tab fun t _ => t.isOver_stop
  | _ => exact h

/-- A stopped tab reads what is stored when a product joins it, and does nothing else. -/
theorem IsOverIn.isRead_of_mem_deeds (h : b.IsOverIn n) (m : Medium μ) (e : Beat)
    {act : Act (List Product)} (hact : act ∈ b.deeds m n e) : act.isRead = true := by
  obtain ⟨t, ht, hover⟩ := h
  cases e with
  | serve tab =>
    simp only [deeds, ht, (hover.tryNext m b.now b.timeline.tick b.world).2] at hact
    split at hact <;> cases hact
  | enter tab key compute =>
    simp only [deeds] at hact
    split at hact
    · obtain rfl := List.mem_singleton.1 hact
      rfl
    · cases hact
  | _ => cases hact

/-! ## Whose requests are in a queue -/

/-- A tab comes from what it was before a try like from what it was before any other beat. -/
theorem comes_pass {e : Beat} {t' : Tab} (h : (b.pass m k e).tabs[n]? = some t') :
    (∃ t, b.tabs[n]? = some t ∧ b.Comes e n t t') ∨ t'.drivers = [] ∧ t'.operations = [] := by
  rcases pass_cases m k b e with ⟨tab, rfl, hpass⟩ | ⟨-, hpass⟩
  · rw [hpass] at h
    obtain ⟨t, ht, ⟨-, rfl⟩ | rfl⟩ := tabs_onTab h
    · exact .inl ⟨t, ht, comes_of_drivers_eq rfl
        (Processor.operations_tryNext_subset m b.now b.timeline.tick t.processor b.world)⟩
    · exact .inl ⟨t', ht, comes_of_drivers_eq rfl (List.Subset.refl _)⟩
  · rw [hpass] at h
    exact comes_follow h

theorem owners_pass (m : Medium μ) (k : Backing μ) (b : Browser μ) (e : Beat) :
    b.owners <+: (b.pass m k e).owners := by
  rcases pass_cases m k b e with ⟨tab, rfl, hpass⟩ | ⟨-, hpass⟩
  · rw [hpass, tryTab, owners_onTab]
  · rw [hpass]
    exact owners_follow m k b e

/-- What is announced as begun changes only where a try is made, unless a product joins, which has
announced nothing. -/
theorem beginnings_pass (m : Medium μ) (k : Backing μ) (e : Beat) {Q : List (List Notice) → Prop}
    (hserve : ∀ (n : Nat) (t : Tab), b.tabs[n]? = some t → ∀ op ∈ t.operations,
      op.Keeps fun own => Q (own.map Product.beginnings))
    (h : Q (b.products.map Product.beginnings)) :
    (b.pass m k e).owners = b.owners ∧ Q ((b.pass m k e).products.map Product.beginnings) ∨
    ∃ tab product, (b.pass m k e).owners = b.owners ++ [tab] ∧
      (b.pass m k e).products = b.products ++ [product] ∧ product.beginnings = [] := by
  rcases pass_cases m k b e with ⟨tab, rfl, hpass⟩ | ⟨-, hpass⟩
  · rw [hpass]
    refine .inl ⟨b.owners_onTab tab _, ?_⟩
    cases ht : b.tabs[tab]? with
    | none =>
      rw [tryTab_of_none m ht]
      exact h
    | some t =>
      rw [tryTab_of_some m ht]
      exact Processor.own_tryNext m b.now b.timeline.tick (hserve tab t ht) h
  · rw [hpass]
    exact beginnings_follow m k e hserve h

theorem IsSound.pass (h : b.IsSound) (m : Medium μ) (k : Backing μ) (e : Beat) :
    (b.pass m k e).IsSound :=
  h.of_comes (owners_pass m k b e) (fun _ _ ht' => comes_pass ht')
    (beginnings_pass (Q := fun l => l.length = b.products.length) m k e h.keeps_length
      (List.length_map _))

/-- The requests of activity in a tab's queue are those of its own products. -/
def IsHomed (b : Browser μ) : Prop :=
  ∀ (n : Nat) (t : Tab), b.tabs[n]? = some t → ∀ op ∈ t.operations,
    ∃ (q : Request) (j : Nat), op = q.operation.onIndex j ∧
      (q = .expandOrRenew → b.owners[j]? = some n)

theorem isHomed_new (start : Timestamp) (medium : μ) (names : Supply) :
    (new start medium names).IsHomed := fun _ _ h => absurd h nofun

theorem IsHomed.pass (h : b.IsHomed) (hsound : b.IsSound) (m : Medium μ) (k : Backing μ)
    (e : Beat) : (b.pass m k e).IsHomed := by
  intro n t' ht' op hop
  have howned : ∀ {j : Nat}, b.owners[j]? = some n → (b.pass m k e).owners[j]? = some n :=
    fun hj => getElem?_mono (owners_pass m k b e) hj
  have hbefore : ∀ t, b.tabs[n]? = some t → op ∈ t.operations →
      ∃ (q : Request) (j : Nat), op = q.operation.onIndex j ∧
        (q = .expandOrRenew → (b.pass m k e).owners[j]? = some n) := by
    intro t ht hmem
    obtain ⟨q, j, hq, howner⟩ := h n t ht op hmem
    exact ⟨q, j, hq, fun hactivity => howned (howner hactivity)⟩
  have hcomes := comes_pass ht'
  cases e with
  | submit product r =>
    -- the request goes to the tab of its product
    change (b.follow m k (.submit product r)).tabs[n]? = some t' at ht'
    cases howner : b.owners[product]? with
    | none =>
      rw [follow_submit_of_none howner] at ht'
      exact hbefore t' ht' hop
    | some tab =>
      rw [follow_submit howner] at ht'
      obtain ⟨t, ht, ⟨rfl, rfl⟩ | rfl⟩ := tabs_modifyTab ht'
      · rcases List.mem_append.1 (t.operations_submit_subset product r true hop) with hmem | hmem
        · exact hbefore t ht hmem
        · exact ⟨r, product, List.mem_singleton.1 hmem, fun _ => howned howner⟩
      · exact hbefore t' ht hop
  | _ =>
    rcases hcomes with ⟨t, ht, hcomes⟩ | ⟨-, hnone⟩
    · rcases hcomes.operations op hop with hmem | ⟨q, j, hq, hcause⟩
      · exact hbefore t ht hmem
      · refine ⟨q, j, hq, fun hactivity => ?_⟩
        rcases hcause hactivity with hsubmit | ⟨d, hd, rfl, -⟩
        · cases hsubmit
        · exact howned (hsound.driven n t ht d hd)
    · rw [hnone] at hop
      cases hop

/-! ## Rest -/

/-- A tab is stopped, and its products have announced that these sessions began and no others; those
that join it begin none. -/
structure IsAtRest (n : Nat) (begun : Nat → List Notice) (b : Browser μ) : Prop where
  sound : b.IsSound
  homed : b.IsHomed
  ended : b.IsOverIn n
  kept : ∀ i, b.owners[i]? = some n →
    ∃ p, b.products[i]? = some p ∧ p.beginnings = begun i
  coming : ∀ i, b.products.length ≤ i → begun i = []

/-- No request of activity for a product of a stopped tab is left anywhere. -/
theorem IsAtRest.keeps_beginnings {begun : Nat → List Notice} (h : b.IsAtRest n begun) {i : Nat}
    (hi : b.owners[i]? = some n) {begins : List Notice} (j : Nat) (t : Tab)
    (ht : b.tabs[j]? = some t) (op : Operation (List Product)) (hop : op ∈ t.operations) :
    op.Keeps fun own => (own.map Product.beginnings)[i]? = some begins := by
  obtain ⟨q, l, rfl, howner⟩ := h.homed j t ht op hop
  refine q.keeps_beginnings l (Q := fun all => all[i]? = some begins) fun hactivity all x hall => ?_
  by_cases hli : l = i
  · -- the tab of the product is the one that is stopped, and its queue is empty
    subst hli
    obtain rfl := Option.some.inj ((howner hactivity).symm.trans hi)
    obtain ⟨t', ht', hover⟩ := h.ended
    obtain rfl := Option.some.inj (ht.symm.trans ht')
    rw [hover.operations] at hop
    cases hop
  · rw [List.getElem?_set_ne hli]
    exact hall

/-- What is in a list with one more at its end was there before, or is that one. -/
theorem getElem?_concat_cases {α : Type} {l : List α} {a x : α} {i : Nat}
    (h : (l ++ [a])[i]? = some x) : l[i]? = some x ∨ i = l.length := by
  rcases Nat.lt_or_ge i l.length with hlt | hge
  · rw [List.getElem?_append_left hlt] at h
    exact .inl h
  · obtain ⟨hbound, -⟩ := List.getElem?_eq_some_iff.1 h
    rw [List.length_append, List.length_singleton] at hbound
    exact .inr (Nat.le_antisymm (Nat.le_of_lt_succ hbound) hge)

/-- A product of a tab at rest announces nothing. -/
theorem IsAtRest.kept_of_owned {begun : Nat → List Notice} (h : b.IsAtRest n begun) (m : Medium μ)
    (k : Backing μ) (e : Beat) {i : Nat} (hi : b.owners[i]? = some n) :
    ∃ p, (b.pass m k e).products[i]? = some p ∧ p.beginnings = begun i := by
  obtain ⟨p, hp, hbegun⟩ := h.kept i hi
  have hannounced : (b.products.map Product.beginnings)[i]? = some p.beginnings := by
    rw [List.getElem?_map, hp]
    rfl
  rcases beginnings_pass (Q := fun l => l[i]? = some p.beginnings) m k e (h.keeps_beginnings hi)
    hannounced with ⟨-, hkept⟩ | ⟨tab, product, -, hproducts, -⟩
  · rw [List.getElem?_map] at hkept
    obtain ⟨q, hq, hsame⟩ := Option.map_eq_some_iff.1 hkept
    exact ⟨q, hq, hsame.trans hbegun⟩
  · rw [hproducts]
    exact ⟨p, getElem?_mono (List.prefix_append _ _) hp, hbegun⟩

/-- A product that joins a tab at rest is the last one, and has announced nothing. -/
theorem IsAtRest.kept_of_joined {begun : Nat → List Notice} (h : b.IsAtRest n begun) (m : Medium μ)
    (k : Backing μ) (e : Beat) {i : Nat} (hi : (b.pass m k e).owners[i]? = some n)
    (hnew : ¬ b.owners[i]? = some n) :
    ∃ p, (b.pass m k e).products[i]? = some p ∧ p.beginnings = begun i := by
  have hanything : ∀ (j : Nat) (t : Tab), b.tabs[j]? = some t → ∀ op ∈ t.operations,
      op.Keeps fun _ => True := fun _ _ _ _ _ =>
    ⟨fun _ _ _ _ => trivial, fun _ _ _ _ => trivial⟩
  rcases beginnings_pass (Q := fun _ => True) m k e hanything trivial with
    ⟨howners, -⟩ | ⟨tab, product, howners, hproducts, hnone⟩
  · rw [howners] at hi
    exact absurd hi hnew
  · rw [howners] at hi
    rcases getElem?_concat_cases hi with hold | rfl
    · exact absurd hold hnew
    · rw [h.sound.owned, hproducts, List.getElem?_concat_length]
      exact ⟨product, rfl, hnone.trans (h.coming _ (Nat.le_refl _)).symm⟩

theorem IsAtRest.pass {begun : Nat → List Notice} (h : b.IsAtRest n begun) (m : Medium μ)
    (k : Backing μ) (e : Beat) : (b.pass m k e).IsAtRest n begun where
  sound := h.sound.pass m k e
  homed := h.homed.pass h.sound m k e
  ended := h.ended.pass m k e
  kept i hi := by
    by_cases hold : b.owners[i]? = some n
    · exact h.kept_of_owned m k e hold
    · exact h.kept_of_joined m k e hi hold
  coming i hlater := by
    have hgrows := (owners_pass m k b e).length_le
    rw [h.sound.owned, (h.sound.pass m k e).owned] at hgrows
    exact h.coming i (Nat.le_trans hgrows hlater)

/-- A tab at rest stays at rest, and only reads. -/
theorem IsAtRest.passAll {begun : Nat → List Notice} (h : b.IsAtRest n begun) (m : Medium μ)
    (k : Backing μ) (beats : List Beat) :
    (b.passAll m k beats).IsAtRest n begun ∧
      ∀ act ∈ b.deedsAll m k n beats, act.isRead = true := by
  induction beats generalizing b with
  | nil => exact ⟨h, List.forall_mem_nil _⟩
  | cons e beats ih =>
    obtain ⟨hrest, hlater⟩ := ih (h.pass m k e)
    refine ⟨hrest, fun act hact => ?_⟩
    rcases List.mem_append.1 hact with hnow | hact
    · exact h.ended.isRead_of_mem_deeds m e hnow
    · exact hlater act hact

/-- What can happen keeps the numbers in order, and the requests of activity at home. -/
theorem isSound_passAll (m : Medium μ) (k : Backing μ) (start : Timestamp) (medium : μ)
    (names : Supply) (beats : List Beat) :
    ((new start medium names).passAll m k beats).IsSound ∧
      ((new start medium names).passAll m k beats).IsHomed := by
  suffices hkept : ∀ b : Browser μ, b.IsSound → b.IsHomed →
      (b.passAll m k beats).IsSound ∧ (b.passAll m k beats).IsHomed from
    hkept _ (isSound_new start medium names) (isHomed_new start medium names)
  induction beats with
  | nil => exact fun b hsound hhomed => ⟨hsound, hhomed⟩
  | cons e beats ih =>
    exact fun b hsound hhomed => ih _ (hsound.pass m k e) (hhomed.pass hsound m k e)

/-- What the products have announced as begun. -/
def begunBy (b : Browser μ) (i : Nat) : List Notice :=
  ((b.products[i]?).map Product.beginnings).getD []

/-- A tab that is stopped comes to rest. -/
theorem isAtRest_stop (hsound : b.IsSound) (hhomed : b.IsHomed) (m : Medium μ) (k : Backing μ)
    (hn : n < b.tabs.length) : (b.pass m k (.stop n)).IsAtRest n b.begunBy where
  sound := hsound.pass m k _
  homed := hhomed.pass hsound m k _
  ended := by
    refine ⟨b.tabs[n].stop, ?_, b.tabs[n].isOver_stop⟩
    show (b.tabs.modify n Tab.stop)[n]? = _
    rw [List.getElem?_modify_eq, List.getElem?_eq_getElem hn]
    rfl
  kept i hi := by
    obtain ⟨hlt, -⟩ := List.getElem?_eq_some_iff.1 hi
    obtain ⟨p, hp⟩ : ∃ p, b.products[i]? = some p :=
      ⟨_, List.getElem?_eq_getElem (hsound.owned ▸ hlt)⟩
    refine ⟨p, hp, ?_⟩
    rw [begunBy, hp]
    rfl
  coming i hi := by
    have hnone : b.products[i]? = none := List.getElem?_eq_none hi
    rw [begunBy, hnone]
    rfl

end

/-- Pages and products do what they like on any medium, and at any moment, between any two beats and
any two tries, a tab is stopped. If the calls of the medium succeed, and others write there at any
time, but none of the tokens that the tab has written, then at that moment none of these is stored.
However it goes on, a product that joins the tab reads what is stored, and the tab does nothing
else: it writes nothing, removes nothing, asks for no decision and tells nobody of one. Its products
have announced as begun what they had announced before, and those that join it nothing. -/
theorem stopped_for_good (m : Medium μ) (k : Backing μ) (start : Timestamp) (medium : μ)
    (names : Supply) :
    (∀ actions : List Action, ∃ beats, (new start medium names).passAll m k beats
      = actions.foldl (act m k) (new start medium names)) ∧
    (∀ (b : Browser μ) (e : Beat), b.Alters m k e (b.pass m k e)) ∧
    ∀ (past : List Beat) (n : Nat) (b stopped : Browser μ),
      b = (new start medium names).passAll m k past → n < b.tabs.length →
      stopped = b.pass m k (.stop n) →
      (∀ own, own = IsTokenOf m k n (new start medium names) past → m.IsShared k own →
        (k.shown medium).IsFreeOf own → (∀ e ∈ past, e.Spares own) →
        (k.shown stopped.world.medium).IsFreeOf own) ∧
      ∀ future : List Beat,
        (∀ act ∈ stopped.deedsAll m k n future, act.isRead = true) ∧
        ∀ i, (stopped.passAll m k future).owners[i]? = some n →
          ∃ p, (stopped.passAll m k future).products[i]? = some p ∧ p.beginnings = b.begunBy i := by
  refine ⟨fun actions => ?_, alters_pass m k, ?_⟩
  · obtain ⟨beats, hbeats⟩ := exists_recital (isSound_new start medium names) m k actions
    rw [← hbeats.followAll_eq]
    exact exists_passAll m k _ beats
  · rintro past n b stopped rfl hn rfl
    obtain ⟨hsound, hhomed⟩ := isSound_passAll m k start medium names past
    refine ⟨?_, fun future => ?_⟩
    · intro own _ hshared hfree hspares
      have hbefore : (new start medium names).IsTokenless k own :=
        ⟨hfree, List.forall_mem_nil _⟩
      exact (hbefore.passAll hshared hspares).medium
    · obtain ⟨hrest, hreads⟩ := (isAtRest_stop hsound hhomed m k hn).passAll m k future
      exact ⟨hreads, hrest.kept⟩

/-- A cell into which another puts its lock behind some of the calls. -/
def contested : Medium (List Bool × Option String) := .visited true "lock=other"

/-- The other comes behind the tenth call. -/
def crossed : Browser (List Bool × Option String) :=
  new .epoch (List.replicate 9 false ++ [true], none) .tallies

/-- A product begins a session. Then it is to prolong it, and behind that to end it; but the lock
that its tab writes is overwritten at once. -/
def crossing : List Beat :=
  [.openTab .default, .enter 0 "a" fun _ _ => .sampledIn, .submit 0 .expandOrRenew, .serve 0,
    .submit 0 .expandOrRenew, .submit 0 .expire, .serve 0]

/-- Where that leads to. -/
def paused : Browser (List Bool × Option String) := crossed.passAll contested .visited crossing

/-- The tab has written locks twice and pauses, and the wish to end the session stands behind
that. -/
theorem stopped_for_good_paused :
    paused.tabs.map (fun t => (t.processor.pause.isSome, t.processor.queue.length))
      = [(true, 1)] ∧
    (crossed.written contested .visited 0 crossing).map (fun text => (Record.decode text).lock?)
      = [some "i", some "i", none, some "iii"] ∧
    (Backing.visited.shown (paused.pass contested .visited (.stop 0)).world.medium).IsFreeOf
      (IsTokenOf contested .visited 0 crossed crossing) ∧
    ∀ future : List Beat,
      (∀ act ∈ (paused.pass contested .visited (.stop 0)).deedsAll contested .visited 0 future,
        act.isRead = true) ∧
      ∀ i, ((paused.pass contested .visited (.stop 0)).passAll contested .visited future).owners[i]?
          = some 0 →
        ∃ p, ((paused.pass contested .visited (.stop 0)).passAll contested .visited
            future).products[i]? = some p ∧ p.beginnings = paused.begunBy i := by
  have hpaused : paused.tabs.map (fun t => (t.processor.pause.isSome, t.processor.queue.length))
      = [(true, 1)] := by decide +kernel
  have hthere : 0 < paused.tabs.length := by
    have hlength := congrArg List.length hpaused
    rw [List.length_map] at hlength
    exact hlength ▸ Nat.one_pos
  have hwritten : (crossed.written contested .visited 0 crossing).map
      (fun text => (Record.decode text).lock?) = [some "i", some "i", none, some "iii"] := by
    decide +kernel
  have hlock : (Record.decode "lock=other").lock? = some "other" := by decide +kernel
  have hother : (Record.decode "lock=other").IsFreeOf
      (IsTokenOf contested .visited 0 crossed crossing) := by
    refine Record.isFreeOf_of_lock?_eq hlock ?_
    rintro ⟨text, htext, htoken⟩
    have hmem := List.mem_map_of_mem (f := fun text => (Record.decode text).lock?) htext
    rw [hwritten, htoken] at hmem
    revert hmem
    decide
  have hspares : ∀ own, ∀ e ∈ crossing, e.Spares own := by
    simp [crossing, Beat.Spares]
  have hstopped := (stopped_for_good contested .visited .epoch
    (List.replicate 9 false ++ [true], none) .tallies).2.2 crossing 0 paused _ rfl hthere rfl
  exact ⟨hpaused, hwritten, hstopped.1 _ rfl (Medium.isShared_visited true hother)
    (Record.isFreeOf_of_lock?_eq_none (Record.get?_empty _)) (hspares _), hstopped.2⟩

end Browser

end SharedSession
