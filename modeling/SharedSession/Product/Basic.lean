import SharedSession.Decision
import SharedSession.History
import SharedSession.Record.Basic

set_option autoImplicit false

/-!
# Products and their view of the session

Several products share one session. Each keeps a local copy, its cache, of the last session that it
saw and reconciles it with the shared record:

* a product *renews* when activity finds no session of its own: its decision is stored, and an
  identifier is made if it tracks;
* its session *expires* when the shared record no longer matches the cache, because it was removed,
  timed out or replaced; the cache is emptied then.

Both are announced to whoever listens. The history says which session context was current when.
-/

namespace SharedSession

/-- What a product knows about a session. -/
structure Context where
  /-- the session's identifier, absent when nobody tracks it -/
  id : Option String
  /-- the word stored under the product's key -/
  trackingType : Option String
deriving DecidableEq, Repr, Inhabited

/-- What a product announces, with the identifier of the session concerned. -/
inductive Notice where
  /-- activity began a session for the product -/
  | renewed (id : Option String)
  /-- the product's session is over -/
  | expired (id : Option String)
deriving DecidableEq, Repr

/-- Whether a notice is that of a renewal. -/
def Notice.isRenewal : Notice → Bool
  | .renewed _ => true
  | .expired _ => false

/-- A call for a product's decision. -/
structure Question where
  /-- the word found under the product's key -/
  prior : Option String
  moment : Timestamp
deriving DecidableEq

/-- A product and what it knows about the session. -/
structure Product where
  /-- the key under which the product stores its decision -/
  key : String
  /-- the decision at the `n`-th call, given the word found under the key -/
  compute : Nat → Option String → Decision
  timeOut : Span
  /-- the session that the product saw last, empty if it has none -/
  cache : Record
  /-- the contexts of its sessions by time -/
  history : History Context
  /-- whether its latest decision was to track -/
  isTracking : Bool
  /-- the calls for its decision, latest first -/
  asked : List Question
  /-- its announcements, latest first -/
  notices : List Notice

namespace Product

/-- A product that starts over a stored session, which it takes over if it is active. -/
def new (key : String) (compute : Nat → Option String → Decision) (timeOut : Span)
    (now : Timestamp) (stored : Record) : Product where
  key := key
  compute := compute
  timeOut := timeOut
  cache := stored.withoutLock.liveAt now timeOut
  history := .new timeOut
  isTracking := false
  asked := []
  notices := []

/-- The context that a record gives the product. -/
def contextOf (p : Product) (r : Record) : Context := ⟨r.id?, r.get? p.key⟩

/-- Whether the product has a session. -/
def hasSession (p : Product) : Bool := p.cache.contains p.key

/-- Whether a record holds another session than the cache, or another decision of the product. -/
def isOutdatedBy (p : Product) (r : Record) : Bool :=
  p.cache.id? != r.id? || p.cache.get? p.key != r.get? p.key

/-- Ends the product's session. -/
def expireCache (p : Product) (now : Timestamp) : Product :=
  { p with
    cache := ∅
    history := p.history.closeActive now
    notices := .expired p.cache.id? :: p.notices }

/-- Begins a session of the product. -/
def renewCache (p : Product) (now : Timestamp) (r : Record) : Product :=
  { p with
    cache := r
    history := p.history.add (p.contextOf r) now
    notices := .renewed r.id? :: p.notices }

/-- Takes note of a record: a product that has a session follows the record if it still holds that
session, and otherwise ends it. An inactive record holds none. -/
def synchronize (p : Product) (now : Timestamp) (r : Record) : Product :=
  let live := r.liveAt now p.timeOut
  if p.hasSession then
    if p.isOutdatedBy live then p.expireCache now else { p with cache := live }
  else p

/-- Asks for the product's decision. -/
def ask (p : Product) (now : Timestamp) (r : Record) : Decision × Product :=
  let prior := r.get? p.key
  let decision := p.compute p.asked.length prior
  (decision, { p with isTracking := decision.isTracked, asked := ⟨prior, now⟩ :: p.asked })

/-- The record with a product's decision; a tracked session that has no identifier gets one, and
with it its date of creation. -/
def record (key : String) (d : Decision) (now : Timestamp) (fresh : String) (r : Record) : Record :=
  let r := r.set key d.trackingType
  if d.isTracked && r.id?.isNone then
    (r.set Record.idKey fresh).set Record.createdKey now.render
  else r

/-- Begins the history anew with the current context, dated `start`. -/
def resetHistory (p : Product) (start : Timestamp) : Product :=
  { p with history := p.history.reset.add (p.contextOf p.cache) start }

/-- Forgets contexts that ended long ago. -/
def clearOldHistory (p : Product) (now : Timestamp) : Product :=
  { p with history := p.history.clearOld now }

/-- The context at a moment, or the current one if no moment is given. -/
def find? (p : Product) (moment : Option Timestamp) : Option Context := p.history.find? moment

end Product

end SharedSession
