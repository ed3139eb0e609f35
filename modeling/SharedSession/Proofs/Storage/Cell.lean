import SharedSession.Proofs.Record.Entries
import SharedSession.Proofs.Record.RoundTrip
import SharedSession.Storage.Medium

set_option autoImplicit false

/-!
# Records in a cell of memory

A cell of memory holds a text or nothing. `Record.stored` is what storing a record leaves in it and
`Record.ofStored` the record that a reader sees there; the one undoes the other, but for an entry
under the empty key.
-/

namespace SharedSession

namespace Record

/-- What storing a record leaves in a cell: nothing, if the record has no entries. -/
def stored (r : Record) : Option String := if r.isEmpty then none else some r.encode

/-- The record that a reader sees in a cell. -/
def ofStored (cell : Option String) : Record := Medium.recordOf (.ok cell)

@[simp] theorem ofStored_none : ofStored none = ∅ := rfl

/-- What was stored is seen, but for an entry under the empty key. -/
@[simp] theorem ofStored_stored (r : Record) : ofStored r.stored = r.erase "" := by
  unfold stored
  split
  · next h => rw [isEmpty_iff.1 h, ofStored_none, erase_empty]
  · exact decode_encode r

@[simp] theorem get?_ofStored_empty (cell : Option String) : (ofStored cell).get? "" = none := by
  cases cell with
  | none => exact get?_empty ""
  | some raw => exact get?_decode_empty raw

theorem get?_ofStored_stored (r : Record) {key : String} (h : key ≠ "") :
    (ofStored r.stored).get? key = r.get? key := by
  rw [ofStored_stored, get?_erase, if_neg (Ne.symm h)]

/-! ## The lock entry through storing -/

theorem lock?_ofStored_stored (r : Record) : (ofStored r.stored).lock? = r.lock? :=
  get?_ofStored_stored r lockKey_ne_empty

theorem lock?_ofStored_withLock (r : Record) (token : String) :
    (ofStored (r.withLock token).stored).lock? = some token := by
  rw [lock?_ofStored_stored, lock?_withLock]

/-- A record that was seen, stored with a token and seen again is the same but for the token. -/
theorem ofStored_stored_withLock {r : Record} (h : r.get? "" = none) (token : String) :
    ofStored (r.withLock token).stored = r.withLock token := by
  rw [ofStored_stored]
  refine erase_of_get?_eq_none ?_
  rw [withLock, get?_set, if_neg lockKey_ne_empty, h]

end Record

/-- The record that is really stored behind a medium. -/
def Backing.shown {μ : Type} (k : Backing μ) (s : μ) : Record := Record.ofStored (k.peek s)

end SharedSession
