import SharedSession.Host.Driver
import SharedSession.Timeline

set_option autoImplicit false

/-!
# Tabs over one medium

A tab stands for one page of a browser: it has the queue through which all operations of its
products go, the signals of activity and visibility, and a driver for each product. A browser is
any number of tabs over one medium and one clock, together with what other writers will do to the
stored text.

At every tick everything that is ready happens, tab by tab: foreign changes, then what the drivers
ask for, then the queues. Between ticks nothing happens, so time goes straight to the next tick at
which something is due.
-/

namespace SharedSession

/-- A page and what its products share. -/
structure Tab where
  config : Config
  origin : Timestamp
  isVisible : Bool
  /-- the queue of the tab's products -/
  processor : Processor (List Product)
  /-- the drivers of the products, in the order of their start -/
  drivers : List Driver

namespace Tab

variable {μ : Type}

/-- A tab that is opened now. -/
def new (config : Config) (now : Timestamp) : Tab :=
  ⟨config, now, true, .new config.lockPolicy, []⟩

/-- Queues a product's request. -/
def submit (t : Tab) (product : Nat) (r : Request) (isAwaited : Bool) : Tab :=
  { t with processor := t.processor.submit (r.operation.onIndex product) isAwaited }

/-- Lets one driver do what is due. -/
def turnDriver (now : Timestamp) (tick : Nat) (s : Tab × List Product) (d : Driver) :
    Tab × List Product :=
  let turn := d.turn s.1.isVisible tick
  let t := turn.requests.foldl (fun t r => t.submit d.product r false) s.1
  ({ t with drivers := t.drivers ++ [turn.driver] },
    if turn.cleansUp then s.2.modify d.product (·.clearOldHistory now) else s.2)

/-- Lets the drivers do what is due, then serves the queue. -/
def turn (m : Medium μ) (now : Timestamp) (tick : Nat) (t : Tab) (w : World μ (List Product)) :
    Tab × World μ (List Product) :=
  let (t, own) := t.drivers.foldl (turnDriver now tick) ({ t with drivers := [] }, w.own)
  let (processor, w) := t.processor.serve m now tick { w with own := own }
  ({ t with processor := processor }, w)

/-- The next tick at which something is due in the tab. -/
def due? (t : Tab) : Option Nat :=
  t.drivers.foldl (fun d driver => Timeline.earlier d (some driver.due)) t.processor.due?

/-- Ends every timer, listener and queued operation of the tab. -/
def stop (t : Tab) : Tab := { t with processor := t.processor.stop, drivers := [] }

end Tab

/-- Tabs over one medium. -/
structure Browser (μ : Type) where
  /-- the clock and the changes that others will make -/
  timeline : Timeline
  /-- the medium, the products of all tabs in the order of their start, and the fresh names -/
  world : World μ (List Product)
  /-- the tabs in the order in which they were opened -/
  tabs : List Tab
  /-- for each product, the number of its tab -/
  owners : List Nat

namespace Browser

variable {μ : Type}

/-- A browser without tabs. -/
def new (start : Timestamp) (medium : μ) (names : Supply) : Browser μ :=
  ⟨⟨start, 0, []⟩, ⟨medium, [], names⟩, [], []⟩

/-- The present moment. -/
def now (b : Browser μ) : Timestamp := b.timeline.now

/-- The products of all tabs in the order of their start. -/
def products (b : Browser μ) : List Product := b.world.own

/-- Changes the `i`-th tab. -/
def modifyTab (b : Browser μ) (i : Nat) (f : Tab → Tab) : Browser μ :=
  { b with tabs := b.tabs.modify i f }

/-- Changes the `i`-th product. -/
def modifyProduct (b : Browser μ) (i : Nat) (f : Product → Product) : Browser μ :=
  { b with world := { b.world with own := b.world.own.modify i f } }

/-- Changes the state of the medium. -/
def modifyMedium (b : Browser μ) (f : μ → μ) : Browser μ :=
  { b with world := { b.world with medium := f b.world.medium } }

/-! ## Time -/

/-- Lets tabs do what is due, one after another. -/
def turnTabs (m : Medium μ) (now : Timestamp) (tick : Nat) :
    List Tab → World μ (List Product) → List Tab × World μ (List Product)
  | [], w => ([], w)
  | t :: ts, w =>
    let (t, w) := t.turn m now tick w
    let (ts, w) := turnTabs m now tick ts w
    (t :: ts, w)

/-- Does everything that is ready at the present tick. -/
def settle (m : Medium μ) (k : Backing μ) (b : Browser μ) : Browser μ :=
  let (timeline, medium) := b.timeline.applyWrites k b.world.medium
  let (tabs, world) :=
    turnTabs m timeline.now timeline.tick b.tabs { b.world with medium := medium }
  { b with timeline, world, tabs }

/-- The next tick at which something is due. -/
def due? (b : Browser μ) : Option Nat :=
  b.tabs.foldl (fun d t => Timeline.earlier d t.due?) b.timeline.due?

/-- Goes on to a tick, or to the next one if that has passed. -/
def jump (m : Medium μ) (k : Backing μ) (tick : Nat) (b : Browser μ) : Browser μ :=
  settle m k { b with timeline := b.timeline.moveTo (max tick (b.timeline.tick + 1)) }

/-- Lets time pass up to a tick. A jump takes one tick at least, which bounds their number. -/
def passUntil (m : Medium μ) (k : Backing μ) (goal : Nat) : Nat → Browser μ → Browser μ
  | 0, b => b
  | fuel + 1, b =>
    match b.due? with
    | some tick => if tick ≤ goal then passUntil m k goal fuel (b.jump m k tick) else b
    | none => b

/-- Waits for so many milliseconds, and does what is due up to their end. -/
def advance (m : Medium μ) (k : Backing μ) (ms : Nat) (b : Browser μ) : Browser μ :=
  let wait := (Span.ofMillis ms).waitTicks
  let goal := b.timeline.tick + wait
  let b := passUntil m k goal wait b
  settle m k { b with timeline := b.timeline.moveTo goal }

/-- The replies of a tab's queue that have not been collected. -/
def repliesOf (b : Browser μ) (tab : Nat) : List Reply :=
  match b.tabs[tab]? with
  | some t => t.processor.replies
  | none => []

/-- Lets time pass, in so many jumps at most, until a tab's queue has replied. -/
def waitFor (m : Medium μ) (k : Backing μ) (tab : Nat) : Nat → Browser μ → Browser μ
  | 0, b => b
  | fuel + 1, b =>
    if !(b.repliesOf tab).isEmpty then b
    else match b.due? with
      | some tick => waitFor m k tab fuel (b.jump m k tick)
      | none => b

/-- Waits for the reply to the last entry of a tab's queue. -/
def await (m : Medium μ) (k : Backing μ) (tab : Nat) (b : Browser μ) : List Reply × Browser μ :=
  let b := b.settle m k
  let patience := match b.tabs[tab]? with
    | some t => t.processor.patience
    | none => 0
  let b := waitFor m k tab patience b
  (b.repliesOf tab, b.modifyTab tab fun t => { t with processor := t.processor.collect.2 })

/-! ## What pages and products do -/

/-- Opens a tab. -/
def openTab (config : Config) (b : Browser μ) : Browser μ :=
  { b with tabs := b.tabs ++ [.new config b.now] }

/-- Has a product's request carried out. -/
def request (m : Medium μ) (k : Backing μ) (product : Nat) (r : Request) (b : Browser μ) :
    List Reply × Browser μ :=
  match b.owners[product]? with
  | some tab => await m k tab (b.modifyTab tab fun t => t.submit product r true)
  | none => ([], b)

/-- Starts a product in a tab: it takes over what is stored, carries out its first request, dates
its first context at the opening of the tab, and is driven from then on. -/
def start (m : Medium μ) (k : Backing μ) (tab : Nat) (key : String)
    (compute : Nat → Option String → Decision) (b : Browser μ) : Browser μ :=
  match b.tabs[tab]? with
  | none => b
  | some t =>
    let index := b.products.length
    let (stored, w) := b.world.load m
    let product := Product.new key compute t.config.timeOutDelay b.now stored
    let b := { b with world := { w with own := w.own ++ [product] }, owners := b.owners ++ [tab] }
    let (_, b) := b.request m k index .expandOrRenew
    let b := b.modifyProduct index (·.resetHistory t.origin)
    b.modifyTab tab fun t =>
      { t with drivers := t.drivers ++ (Driver.new? t.config index b.timeline.tick).toList }

/-- Ends the session at a product's wish. If the operation is dropped, the product still ends its
own. -/
def expire (m : Medium μ) (k : Backing μ) (product : Nat) (b : Browser μ) : Browser μ :=
  match b.request m k product .expire with
  | (.settled _ :: _, b) => b
  | (_, b) => b.modifyProduct product (·.synchronize b.now ∅)

/-- Waits until everything in a tab's queue has been served. -/
def flush (m : Medium μ) (k : Backing μ) (tab : Nat) (b : Browser μ) : Browser μ :=
  (await m k tab (b.modifyTab tab fun t => { t with processor := t.processor.flush })).2

/-- Signals activity in a tab. -/
def notifyActivity (tab count : Nat) (b : Browser μ) : Browser μ :=
  b.modifyTab tab fun t => { t with drivers := t.drivers.map (·.notify count) }

/-- Sets the visibility of a tab. -/
def setVisibility (tab : Nat) (isVisible : Bool) (b : Browser μ) : Browser μ :=
  b.modifyTab tab fun t =>
    { t with isVisible, drivers := t.drivers.map (·.noteVisibility) }

/-- Ends everything in a tab. -/
def stop (tab : Nat) (b : Browser μ) : Browser μ := b.modifyTab tab (·.stop)

/-- Something that happens in a browser. -/
inductive Action where
  | openTab (config : Config)
  | start (tab : Nat) (key : String) (compute : Nat → Option String → Decision)
  /-- a tab sees so many signals of activity -/
  | activity (tab count : Nat)
  | visibility (tab : Nat) (isVisible : Bool)
  | advance (ms : Nat)
  | flush (tab : Nat)
  | expire (product : Nat)
  | expandOrRenew (product : Nat)
  /-- another writer changes the stored text -/
  | overwrite (raw : Option String)
  /-- another writer will change the stored text so many milliseconds later -/
  | announce (ahead : Nat) (raw : Option String)
  | stop (tab : Nat)

/-- Lets something happen; what it makes ready is not done yet. -/
def perform (m : Medium μ) (k : Backing μ) (b : Browser μ) : Action → Browser μ
  | .openTab config => b.openTab config
  | .start tab key compute => b.start m k tab key compute
  | .activity tab count => b.notifyActivity tab count
  | .visibility tab isVisible => b.setVisibility tab isVisible
  | .advance ms => b.advance m k ms
  | .flush tab => b.flush m k tab
  | .expire product => b.expire m k product
  | .expandOrRenew product => (b.request m k product .expandOrRenew).2
  | .overwrite raw => b.modifyMedium (k.overwrite raw)
  | .announce ahead raw => { b with timeline := b.timeline.announce ahead raw }
  | .stop tab => b.stop tab

/-- Lets something happen and does everything that it makes ready. -/
def act (m : Medium μ) (k : Backing μ) (b : Browser μ) (a : Action) : Browser μ :=
  (b.perform m k a).settle m k

end Browser

end SharedSession
