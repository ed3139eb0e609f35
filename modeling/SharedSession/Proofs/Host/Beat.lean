import SharedSession.Host.Browser
import SharedSession.Proofs.Lock.OneByOne

set_option autoImplicit false

/-!
# The beats of a browser

What happens in a browser at one go consists of many small things: time goes on, drivers look at
their signals, a queue serves one job. A `Beat` is such a small thing. Whatever is done to a browser
comes down to beats, and most of them are routine: the rest are those that the action itself asks
for. So what every beat keeps is kept by every action, and a moment between two beats is as fine as
a moment can be told here.

Main statement: `Browser.unfolds_act`.
-/

namespace SharedSession

/-- Something small that happens in a browser. -/
inductive Beat where
  /-- the clock shows another tick -/
  | moveTo (tick : Nat)
  /-- the changes that others make now are made -/
  | foreign
  /-- the drivers of a tab do what is due -/
  | drive (tab : Nat)
  /-- the queue of a tab serves a job -/
  | serve (tab : Nat)
  /-- the replies of a tab's queue are taken -/
  | collect (tab : Nat)
  | openTab (config : Config)
  /-- a product takes over what is stored -/
  | enter (tab : Nat) (key : String) (compute : Nat → Option String → Decision)
  /-- a product's request joins the queue of its tab -/
  | submit (product : Nat) (r : Request)
  /-- a product's history begins anew -/
  | redate (product : Nat) (start : Timestamp)
  /-- a product gets its driver -/
  | employ (product : Nat)
  | notify (tab count : Nat)
  | look (tab : Nat) (isVisible : Bool)
  /-- a mark joins the queue of a tab -/
  | mark (tab : Nat)
  /-- a product ends its own session, because its wish to end the session was dropped -/
  | giveUp (product : Nat)
  | overwrite (raw : Option String)
  | announce (ahead : Nat) (raw : Option String)
  | stop (tab : Nat)

/-- Whether it happens of itself when time passes. -/
def Beat.IsRoutine : Beat → Prop
  | .moveTo _ | .foreign | .drive _ | .serve _ | .collect _ => True
  | _ => False

namespace Tab

variable {μ : Type}

/-- Lets the drivers do what is due. -/
def drive (now : Timestamp) (tick : Nat) (t : Tab) (own : List Product) : Tab × List Product :=
  t.drivers.foldl (turnDriver now tick) ({ t with drivers := [] }, own)

end Tab

namespace Browser

variable {μ : Type}

/-- Lets something happen in the `i`-th tab, with what is common to all. -/
def onTab (b : Browser μ) (i : Nat)
    (f : Tab → World μ (List Product) → Tab × World μ (List Product)) : Browser μ :=
  match b.tabs[i]? with
  | some t => { b with tabs := b.tabs.set i (f t b.world).1, world := (f t b.world).2 }
  | none => b

theorem onTab_of_some {b : Browser μ} {i : Nat} {t : Tab} (h : b.tabs[i]? = some t)
    (f : Tab → World μ (List Product) → Tab × World μ (List Product)) :
    b.onTab i f = { b with tabs := b.tabs.set i (f t b.world).1, world := (f t b.world).2 } := by
  unfold onTab
  rw [h]

theorem onTab_of_none {b : Browser μ} {i : Nat} (h : b.tabs[i]? = none)
    (f : Tab → World μ (List Product) → Tab × World μ (List Product)) : b.onTab i f = b := by
  unfold onTab
  rw [h]

@[simp] theorem owners_onTab (b : Browser μ) (i : Nat)
    (f : Tab → World μ (List Product) → Tab × World μ (List Product)) :
    (b.onTab i f).owners = b.owners := by
  unfold onTab
  split <;> rfl

theorem timeline_onTab (b : Browser μ) (i : Nat)
    (f : Tab → World μ (List Product) → Tab × World μ (List Product)) :
    (b.onTab i f).timeline = b.timeline := by
  unfold onTab
  split <;> rfl

/-- Lets the drivers of a tab do what is due. -/
def driveTab (tab : Nat) (b : Browser μ) : Browser μ :=
  b.onTab tab fun t w =>
    let driven := t.drive b.now b.timeline.tick w.own
    (driven.1, { w with own := driven.2 })

/-- Lets the queue of a tab serve a job. -/
def serveTab (m : Medium μ) (tab : Nat) (b : Browser μ) : Browser μ :=
  b.onTab tab fun t w =>
    let served := t.processor.serveNext m b.now b.timeline.tick w
    ({ t with processor := served.1 }, served.2)

/-- Lets one small thing happen. -/
def follow (m : Medium μ) (k : Backing μ) (b : Browser μ) : Beat → Browser μ
  | .moveTo tick => { b with timeline := b.timeline.moveTo tick }
  | .foreign =>
    let (timeline, medium) := b.timeline.applyWrites k b.world.medium
    { b with timeline, world := { b.world with medium := medium } }
  | .drive tab => b.driveTab tab
  | .serve tab => b.serveTab m tab
  | .collect tab => b.modifyTab tab fun t => { t with processor := t.processor.collect.2 }
  | .openTab config => b.openTab config
  | .enter tab key compute =>
    match b.tabs[tab]? with
    | some t =>
      let (stored, w) := b.world.load m
      let product := Product.new key compute t.config.timeOutDelay b.now stored
      { b with world := { w with own := w.own ++ [product] }, owners := b.owners ++ [tab] }
    | none => b
  | .submit product r =>
    match b.owners[product]? with
    | some tab => b.modifyTab tab fun t => t.submit product r true
    | none => b
  | .redate product start => b.modifyProduct product (·.resetHistory start)
  | .employ product =>
    match b.owners[product]? with
    | some tab => b.modifyTab tab fun t =>
      { t with drivers := t.drivers ++ (Driver.new? t.config product b.timeline.tick).toList }
    | none => b
  | .notify tab count => b.notifyActivity tab count
  | .look tab isVisible => b.setVisibility tab isVisible
  | .mark tab => b.modifyTab tab fun t => { t with processor := t.processor.flush }
  | .giveUp product => b.modifyProduct product (·.synchronize b.now ∅)
  | .overwrite raw => b.modifyMedium (k.overwrite raw)
  | .announce ahead raw => { b with timeline := b.timeline.announce ahead raw }
  | .stop tab => b.stop tab

/-- Lets small things happen one after another. -/
def followAll (m : Medium μ) (k : Backing μ) (b : Browser μ) (beats : List Beat) : Browser μ :=
  beats.foldl (follow m k) b

variable (m : Medium μ) (k : Backing μ)

theorem followAll_append (b : Browser μ) (beats more : List Beat) :
    b.followAll m k (beats ++ more) = (b.followAll m k beats).followAll m k more :=
  List.foldl_append

/-! ## What comes down to beats -/

/-- One browser comes from another by beats of a certain kind. -/
def Unfolds (ok : Beat → Prop) (b b' : Browser μ) : Prop :=
  ∃ beats : List Beat, (∀ e ∈ beats, ok e) ∧ b.followAll m k beats = b'

variable {m k} {ok : Beat → Prop} {b b' b'' : Browser μ}

theorem unfolds_refl (b : Browser μ) : b.Unfolds m k ok b := ⟨[], List.forall_mem_nil _, rfl⟩

theorem unfolds_follow {e : Beat} (h : ok e) : b.Unfolds m k ok (b.follow m k e) :=
  ⟨[e], List.forall_mem_singleton.2 h, rfl⟩

theorem unfolds_of_follow {e : Beat} (h : ok e) (hfollow : b.follow m k e = b') :
    b.Unfolds m k ok b' := by
  rw [← hfollow]
  exact unfolds_follow h

theorem Unfolds.trans (h : b.Unfolds m k ok b') (h' : b'.Unfolds m k ok b'') :
    b.Unfolds m k ok b'' := by
  obtain ⟨beats, hbeats, rfl⟩ := h
  obtain ⟨more, hmore, rfl⟩ := h'
  exact ⟨beats ++ more, List.forall_mem_append.2 ⟨hbeats, hmore⟩, b.followAll_append m k beats more⟩

theorem Unfolds.mono (h : b.Unfolds m k ok b') {ok' : Beat → Prop} (hok : ∀ e, ok e → ok' e) :
    b.Unfolds m k ok' b' := by
  obtain ⟨beats, hbeats, hfollow⟩ := h
  exact ⟨beats, fun e he => hok e (hbeats e he), hfollow⟩

/-! ## Time -/

section

variable {before after : List Tab} {t : Tab} {w : World μ (List Product)}

/-- Something happens in the tab that stands behind others. -/
theorem onTab_append (hw : b.world = w) (ht : b.tabs = before ++ t :: after)
    (f : Tab → World μ (List Product) → Tab × World μ (List Product)) :
    b.onTab before.length f
      = { b with tabs := before ++ (f t w).1 :: after, world := (f t w).2 } := by
  have hget : b.tabs[before.length]? = some t := by
    rw [ht, List.getElem?_append_right (Nat.le_refl _), Nat.sub_self, List.getElem?_cons_zero]
  rw [onTab_of_some hget, ht, hw, List.set_append_right _ _ (Nat.le_refl _), Nat.sub_self,
    List.set_cons_zero]

/-- To serve a tab's queue is to serve its jobs one by one. -/
theorem unfolds_serve (b : Browser μ) (before after : List Tab) (t : Tab)
    (w : World μ (List Product)) :
    { b with tabs := before ++ t :: after, world := w }.Unfolds m k Beat.IsRoutine
      { b with
        tabs := before ++
          { t with processor := (t.processor.serve m b.now b.timeline.tick w).1 } :: after
        world := (t.processor.serve m b.now b.timeline.tick w).2 } := by
  have hsteps := t.processor.serve_steps m b.now b.timeline.tick w
  generalize t.processor.serve m b.now b.timeline.tick w = x at hsteps
  induction hsteps with
  | refl => exact unfolds_refl _
  | @tail x y _ hstep ih =>
    refine ih.trans ?_
    have hfollow := onTab_append (b := { b with
        tabs := before ++ { t with processor := x.1 } :: after, world := x.2 }) rfl rfl fun t w =>
      ({ t with processor := (t.processor.serveNext m b.now b.timeline.tick w).1 },
        (t.processor.serveNext m b.now b.timeline.tick w).2)
    obtain rfl := hstep
    rw [← hfollow]
    exact unfolds_follow (e := .serve before.length) trivial

/-- The tabs do what is due one after another, first the drivers, then the queue. -/
theorem unfolds_turnTabs (b : Browser μ) (before after : List Tab) (w : World μ (List Product)) :
    { b with tabs := before ++ after, world := w }.Unfolds m k Beat.IsRoutine
      { b with
        tabs := before ++ (turnTabs m b.now b.timeline.tick after w).1
        world := (turnTabs m b.now b.timeline.tick after w).2 } := by
  induction after generalizing before w with
  | nil => exact unfolds_refl _
  | cons t after ih =>
    have hdriven := onTab_append (b := { b with tabs := before ++ t :: after, world := w }) rfl rfl
      fun t w => ((t.drive b.now b.timeline.tick w.own).1,
        { w with own := (t.drive b.now b.timeline.tick w.own).2 })
    have hdrive : { b with tabs := before ++ t :: after, world := w }.Unfolds m k Beat.IsRoutine
        { b with
          tabs := before ++ (t.drive b.now b.timeline.tick w.own).1 :: after
          world := { w with own := (t.drive b.now b.timeline.tick w.own).2 } } := by
      rw [← hdriven]
      exact unfolds_follow (e := .drive before.length) trivial
    have hserve := unfolds_serve (m := m) (k := k) b before after
      (t.drive b.now b.timeline.tick w.own).1
      { w with own := (t.drive b.now b.timeline.tick w.own).2 }
    have hrest := ih (before ++ [(t.turn m b.now b.timeline.tick w).1])
      (t.turn m b.now b.timeline.tick w).2
    rw [List.append_assoc, List.append_assoc] at hrest
    exact (hdrive.trans hserve).trans hrest

theorem unfolds_settle (b : Browser μ) : b.Unfolds m k Beat.IsRoutine (b.settle m k) := by
  have hforeign : b.Unfolds m k Beat.IsRoutine (b.follow m k .foreign) := unfolds_follow trivial
  exact hforeign.trans (unfolds_turnTabs (b.follow m k .foreign) [] b.tabs _)

theorem unfolds_jump (b : Browser μ) (tick : Nat) :
    b.Unfolds m k Beat.IsRoutine (b.jump m k tick) :=
  (unfolds_follow (e := .moveTo (max tick (b.timeline.tick + 1))) trivial).trans (unfolds_settle _)

theorem unfolds_passUntil (goal fuel : Nat) (b : Browser μ) :
    b.Unfolds m k Beat.IsRoutine (b.passUntil m k goal fuel) := by
  induction fuel generalizing b with
  | zero => exact unfolds_refl b
  | succ fuel ih =>
    unfold passUntil
    split
    · next tick _ =>
      split
      · exact (unfolds_jump b tick).trans (ih _)
      · exact unfolds_refl b
    · exact unfolds_refl b

theorem unfolds_advance (ms : Nat) (b : Browser μ) :
    b.Unfolds m k Beat.IsRoutine (b.advance m k ms) := by
  have hpassed := unfolds_passUntil (m := m) (k := k)
    (b.timeline.tick + (Span.ofMillis ms).waitTicks) (Span.ofMillis ms).waitTicks b
  have hmoved := hpassed.trans (unfolds_follow
    (e := .moveTo (b.timeline.tick + (Span.ofMillis ms).waitTicks)) trivial)
  exact hmoved.trans (unfolds_settle _)

theorem unfolds_waitFor (tab fuel : Nat) (b : Browser μ) :
    b.Unfolds m k Beat.IsRoutine (b.waitFor m k tab fuel) := by
  induction fuel generalizing b with
  | zero => exact unfolds_refl b
  | succ fuel ih =>
    unfold waitFor
    split
    · exact unfolds_refl b
    · split
      · next tick _ => exact (unfolds_jump b tick).trans (ih _)
      · exact unfolds_refl b

theorem unfolds_await (tab : Nat) (b : Browser μ) :
    b.Unfolds m k Beat.IsRoutine (b.await m k tab).2 := by
  obtain ⟨patience, hpatience⟩ : ∃ patience, (b.await m k tab).2
      = ((b.settle m k).waitFor m k tab patience).follow m k (.collect tab) := ⟨_, rfl⟩
  rw [hpatience]
  exact ((unfolds_settle b).trans (unfolds_waitFor tab patience _)).trans (unfolds_follow trivial)

/-- What happens of itself brings no product into another tab. -/
theorem owners_of_routine (h : b.Unfolds m k Beat.IsRoutine b') : b'.owners = b.owners := by
  have hone : ∀ (b : Browser μ) (e : Beat), e.IsRoutine → (b.follow m k e).owners = b.owners := by
    intro b e he
    cases e with
    | moveTo tick => rfl
    | foreign => rfl
    | drive tab => exact b.owners_onTab tab _
    | serve tab => exact b.owners_onTab tab _
    | collect tab => rfl
    | _ => exact he.elim
  obtain ⟨beats, hbeats, rfl⟩ := h
  induction beats generalizing b with
  | nil => rfl
  | cons e beats ih =>
    have hrest := ih (b := b.follow m k e) fun e' he' => hbeats e' (List.mem_cons_of_mem e he')
    exact hrest.trans (hone b e (hbeats e List.mem_cons_self))

end

/-! ## What pages and products do -/

/-- What an action consists of, besides what happens of itself: what it asks for, and nothing
else. -/
inductive Action.Includes (b : Browser μ) : Action → Beat → Prop where
  | routine {a : Action} {e : Beat} (h : e.IsRoutine) : Includes b a e
  | openTab (config : Config) : Includes b (.openTab config) (.openTab config)
  | enter (tab : Nat) (key : String) (compute : Nat → Option String → Decision) :
      Includes b (.start tab key compute) (.enter tab key compute)
  /-- a product that is started sees activity -/
  | begin (tab : Nat) (key : String) (compute : Nat → Option String → Decision) :
      Includes b (.start tab key compute) (.submit b.products.length .expandOrRenew)
  | redate (tab : Nat) (key : String) (compute : Nat → Option String → Decision)
      (start : Timestamp) : Includes b (.start tab key compute) (.redate b.products.length start)
  | employ (tab : Nat) (key : String) (compute : Nat → Option String → Decision) :
      Includes b (.start tab key compute) (.employ b.products.length)
  | notify (tab count : Nat) : Includes b (.activity tab count) (.notify tab count)
  | look (tab : Nat) (isVisible : Bool) :
      Includes b (.visibility tab isVisible) (.look tab isVisible)
  | mark (tab : Nat) : Includes b (.flush tab) (.mark tab)
  | expire (product : Nat) : Includes b (.expire product) (.submit product .expire)
  | giveUp (product : Nat) : Includes b (.expire product) (.giveUp product)
  | expandOrRenew (product : Nat) :
      Includes b (.expandOrRenew product) (.submit product .expandOrRenew)
  | overwrite (raw : Option String) : Includes b (.overwrite raw) (.overwrite raw)
  | announce (ahead : Nat) (raw : Option String) :
      Includes b (.announce ahead raw) (.announce ahead raw)
  | stop (tab : Nat) : Includes b (.stop tab) (.stop tab)

section

variable {a : Action}

theorem Unfolds.of_routine (h : b'.Unfolds m k Beat.IsRoutine b'') :
    b'.Unfolds m k (a.Includes b) b'' :=
  h.mono fun _ he => .routine he

theorem follow_enter_of_some {tab : Nat} {t : Tab} (h : b.tabs[tab]? = some t) (key : String)
    (compute : Nat → Option String → Decision) :
    b.follow m k (.enter tab key compute) = { b with
      world := { (b.world.load m).2 with
        own := b.products ++ [.new key compute t.config.timeOutDelay b.now (b.world.load m).1] }
      owners := b.owners ++ [tab] } := by
  simp only [follow, h]
  rfl

theorem follow_enter_of_none {tab : Nat} (h : b.tabs[tab]? = none) (key : String)
    (compute : Nat → Option String → Decision) : b.follow m k (.enter tab key compute) = b := by
  simp only [follow, h]

theorem follow_submit {product tab : Nat} (h : b.owners[product]? = some tab) (r : Request) :
    b.follow m k (.submit product r) = b.modifyTab tab fun t => t.submit product r true := by
  simp only [follow, h]

theorem follow_submit_of_none {product : Nat} (h : b.owners[product]? = none) (r : Request) :
    b.follow m k (.submit product r) = b := by
  simp only [follow, h]

theorem follow_employ_of_none {product : Nat} (h : b.owners[product]? = none) :
    b.follow m k (.employ product) = b := by
  simp only [follow, h]

theorem follow_employ {product tab : Nat} (h : b.owners[product]? = some tab) :
    b.follow m k (.employ product) = b.modifyTab tab fun t =>
      { t with drivers := t.drivers ++ (Driver.new? t.config product b.timeline.tick).toList } := by
  simp only [follow, h]

/-- Nothing has changed but tabs. -/
structure SameButTabs (b b' : Browser μ) : Prop where
  timeline : b'.timeline = b.timeline
  world : b'.world = b.world
  owners : b'.owners = b.owners

theorem sameButTabs_submit (m : Medium μ) (k : Backing μ) (b : Browser μ) (product : Nat)
    (r : Request) : b.SameButTabs (b.follow m k (.submit product r)) := by
  cases howner : b.owners[product]? with
  | none =>
    rw [follow_submit_of_none howner]
    exact ⟨rfl, rfl, rfl⟩
  | some tab =>
    rw [follow_submit howner]
    exact ⟨rfl, rfl, rfl⟩

theorem sameButTabs_employ (m : Medium μ) (k : Backing μ) (b : Browser μ) (product : Nat) :
    b.SameButTabs (b.follow m k (.employ product)) := by
  cases howner : b.owners[product]? with
  | none =>
    rw [follow_employ_of_none howner]
    exact ⟨rfl, rfl, rfl⟩
  | some tab =>
    rw [follow_employ howner]
    exact ⟨rfl, rfl, rfl⟩

theorem unfolds_request (product : Nat) (r : Request) (b : Browser μ) {ok : Beat → Prop}
    (hsubmit : ok (.submit product r)) (hroutine : ∀ e : Beat, e.IsRoutine → ok e) :
    b.Unfolds m k ok (b.request m k product r).2 := by
  have hfollow : b.Unfolds m k ok (b.follow m k (.submit product r)) := unfolds_follow hsubmit
  unfold request
  split
  · next tab htab =>
    rw [follow_submit htab] at hfollow
    exact hfollow.trans ((unfolds_await tab _).mono hroutine)
  · exact unfolds_refl b

/-- A request brings no product into another tab. -/
theorem owners_request (product : Nat) (r : Request) (b : Browser μ) :
    (b.request m k product r).2.owners = b.owners := by
  unfold request
  split
  · next tab htab =>
    have hawait := owners_of_routine
      (unfolds_await (m := m) (k := k) tab (b.modifyTab tab fun t => t.submit product r true))
    exact hawait
  · rfl

theorem unfolds_start (tab : Nat) (key : String) (compute : Nat → Option String → Decision)
    (b : Browser μ) (hlength : b.owners.length = b.products.length) :
    b.Unfolds m k (Action.Includes b (.start tab key compute)) (b.start m k tab key compute) := by
  cases ht : b.tabs[tab]? with
  | none =>
    unfold start
    rw [ht]
    exact unfolds_refl b
  | some t =>
    obtain ⟨b₁, hb₁⟩ : ∃ b₁, b.follow m k (.enter tab key compute) = b₁ := ⟨_, rfl⟩
    obtain ⟨b₂, hb₂⟩ : ∃ b₂, (b₁.request m k b.products.length .expandOrRenew).2 = b₂ := ⟨_, rfl⟩
    obtain ⟨b₃, hb₃⟩ : ∃ b₃, b₂.follow m k (.redate b.products.length t.origin) = b₃ := ⟨_, rfl⟩
    have henter := follow_enter_of_some (m := m) (k := k) ht key compute
    -- the product that comes last belongs to the tab, and so it stays
    have howner : b₃.owners[b.products.length]? = some tab := by
      have howners : b₁.owners = b.owners ++ [tab] := by rw [← hb₁, henter]
      have hsame : b₃.owners = b₁.owners := by
        rw [← hb₃, ← hb₂]
        exact owners_request _ _ b₁
      rw [hsame, howners, ← hlength, List.getElem?_concat_length]
    have hstart : b.start m k tab key compute = b₃.follow m k (.employ b.products.length) := by
      rw [follow_employ howner, ← hb₃, ← hb₂, ← hb₁, henter]
      unfold start
      rw [ht]
      rfl
    have hentered : b.Unfolds m k (Action.Includes b (.start tab key compute)) b₁ :=
      hb₁ ▸ unfolds_follow (.enter tab key compute)
    have hrequested : b₁.Unfolds m k (Action.Includes b (.start tab key compute)) b₂ :=
      hb₂ ▸ unfolds_request _ _ b₁ (.begin tab key compute) fun _ he => .routine he
    have hredated : b₂.Unfolds m k (Action.Includes b (.start tab key compute)) b₃ :=
      hb₃ ▸ unfolds_follow (.redate tab key compute t.origin)
    rw [hstart]
    exact ((hentered.trans hrequested).trans hredated).trans
      (unfolds_follow (.employ tab key compute))

/-- Every action comes down to beats that it includes. -/
theorem unfolds_act (a : Action) (b : Browser μ) (hlength : b.owners.length = b.products.length) :
    b.Unfolds m k (a.Includes b) (b.act m k a) := by
  suffices hperform : b.Unfolds m k (a.Includes b) (b.perform m k a) from
    hperform.trans (unfolds_settle _).of_routine
  cases a with
  | openTab config => exact unfolds_of_follow (.openTab config) rfl
  | start tab key compute => exact unfolds_start tab key compute b hlength
  | activity tab count => exact unfolds_of_follow (.notify tab count) rfl
  | visibility tab isVisible => exact unfolds_of_follow (.look tab isVisible) rfl
  | advance ms => exact (unfolds_advance ms b).of_routine
  | flush tab =>
    have hmark : b.Unfolds m k (Action.Includes b (.flush tab)) (b.follow m k (.mark tab)) :=
      unfolds_follow (.mark tab)
    exact hmark.trans (unfolds_await tab _).of_routine
  | expire product =>
    have hrequest : b.Unfolds m k (Action.Includes b (.expire product))
        (b.request m k product .expire).2 :=
      unfolds_request product .expire b (.expire product) fun _ he => .routine he
    have hdropped : b.Unfolds m k (Action.Includes b (.expire product))
        ((b.request m k product .expire).2.follow m k (.giveUp product)) :=
      hrequest.trans (unfolds_follow (.giveUp product))
    show b.Unfolds m k _ (b.expire m k product)
    unfold expire
    generalize b.request m k product .expire = answer at hrequest hdropped
    obtain ⟨replies, b'⟩ := answer
    cases replies with
    | nil => exact hdropped
    | cons reply replies =>
      cases reply with
      | settled result => exact hrequest
      | dropped => exact hdropped
      | flushed => exact hdropped
  | expandOrRenew product =>
    exact unfolds_request product .expandOrRenew b (.expandOrRenew product) fun _ he => .routine he
  | overwrite raw => exact unfolds_of_follow (.overwrite raw) rfl
  | announce ahead raw => exact unfolds_of_follow (.announce ahead raw) rfl
  | stop tab => exact unfolds_of_follow (.stop tab) rfl

end

end Browser

end SharedSession
