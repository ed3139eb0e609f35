import SharedSession.Lock.Operation
import SharedSession.Product.Basic

set_option autoImplicit false

/-!
# What a product asks of the shared session

Four requests, each an operation whose own state is the product:

* `expandOrRenew`, upon activity: prolong the session, or begin one;
* `expand`, while the page is visible: prolong the session that the product has, and never begin
  one;
* `watch`, from time to time: remove a record that is no longer active;
* `expire`: end the session for everybody.
-/

namespace SharedSession

/-- A product's request. -/
inductive Request where
  | expandOrRenew
  | expand
  | watch
  | expire
deriving DecidableEq, Repr, Inhabited

namespace Product

/-- Follows the live record and stores the product's decision in it. -/
def renewTransform (o : Occasion) (r : Record) (p : Product) : Outcome × Product :=
  let live := r.liveAt o.now p.timeOut
  let (decision, q) := (p.synchronize o.now r).ask o.now live
  (.persist (record p.key decision o.now o.fresh live), q)

/-- A product that tracks but has no session begins one; any other follows the record. -/
def renewSettled (now : Timestamp) (r : Record) (p : Product) : Product :=
  if p.isTracking && !p.hasSession then p.renewCache now r else { p with cache := r }

/-- Stores the live record again if the product has a session. -/
def expandTransform (o : Occasion) (r : Record) (p : Product) : Outcome × Product :=
  if p.hasSession then (.persist (r.liveAt o.now p.timeOut), p.synchronize o.now r)
  else (.unchanged, p)

/-- Removes a record that is not active. -/
def watchTransform (o : Occasion) (r : Record) (p : Product) : Outcome × Product :=
  (if r.isActive o.now p.timeOut then .unchanged else .clear, p)

end Product

namespace Request

/-- The operation that carries a request out. -/
def operation : Request → Operation Product
  | .expandOrRenew => (Operation.ofTransform Product.renewTransform).onSettled Product.renewSettled
  | .expand => .ofTransform Product.expandTransform
  | .watch =>
    (Operation.ofTransform Product.watchTransform).onSettled fun now r p => p.synchronize now r
  | .expire =>
    (Operation.ofTransform fun _ _ p => (.clear, p)).onSettled fun now _ p => p.synchronize now ∅

end Request

namespace Operation

/-- The same operation on the `i`-th of several states. -/
def onIndex {σ : Type} (op : Operation σ) (i : Nat) : Operation (List σ) where
  transform o r ps :=
    match ps[i]? with
    | some p => let (outcome, p) := op.transform o r p; (outcome, ps.set i p)
    | none => (.unchanged, ps)
  callbacks := op.callbacks.map fun f now r ps => ps.modify i (f now r)

end Operation

end SharedSession
