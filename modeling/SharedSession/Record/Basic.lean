import Std.Data.ExtTreeMap
import SharedSession.Text.Decimal

set_option autoImplicit false

/-!
# The session record

A record holds the entries of one shared session: text under text keys, in ascending order of the
keys. Each product owns one key; the keys `id`, `created`, `expire` and `lock` are common to all of
them. An absent key means "unset", while an empty text is a value like any other.

The liveness rules stand here as well: a record is *cleared* when it holds nothing but bookkeeping,
and *active* while it is younger than the time-out and its deadline has not passed. A date that is
absent or unreadable ends nothing.
-/

namespace SharedSession

/-- The entries of a session, by key. -/
structure Record where
  /-- the entries in ascending order of their keys -/
  entries : Std.ExtTreeMap String String compare
deriving DecidableEq

namespace Record

/-! ## Entries -/

/-- The record without entries. -/
def empty : Record := ⟨∅⟩

instance : EmptyCollection Record := ⟨empty⟩

instance : Inhabited Record := ⟨empty⟩

/-- The value under a key. -/
def get? (r : Record) (key : String) : Option String := r.entries[key]?

/-- The record with a value put under a key. -/
def set (r : Record) (key value : String) : Record := ⟨r.entries.insert key value⟩

/-- The record without what stands under a key. -/
def erase (r : Record) (key : String) : Record := ⟨r.entries.erase key⟩

/-- Whether there is an entry under a key. -/
def contains (r : Record) (key : String) : Bool := r.entries.contains key

/-- The number of entries. -/
def size (r : Record) : Nat := r.entries.size

/-- Whether there are no entries. -/
def isEmpty (r : Record) : Bool := r.entries.isEmpty

/-- The keys in ascending order. -/
def keys (r : Record) : List String := r.entries.keys

/-- The entries in ascending order of their keys. -/
def toList (r : Record) : List (String × String) := r.entries.toList

/-- Puts entries into a record one after another. -/
def setAll (r : Record) (entries : List (String × String)) : Record :=
  entries.foldl (fun r e => r.set e.1 e.2) r

/-- The record with the given entries; of two under one key the later stays. -/
def ofList (entries : List (String × String)) : Record := empty.setAll entries

instance : Repr Record := ⟨fun r n => reprPrec r.toList n⟩

/-- Records with the same values are the same. -/
@[ext] theorem ext {r s : Record} (h : ∀ key, r.get? key = s.get? key) : r = s := by
  cases r with | mk a =>
  cases s with | mk b =>
  exact congrArg mk (Std.ExtTreeMap.ext_getElem? h)

@[simp, grind =] theorem get?_empty (key : String) : (∅ : Record).get? key = none :=
  Std.ExtTreeMap.getElem?_empty

@[grind =] theorem get?_set (r : Record) (k v key : String) :
    (r.set k v).get? key = if k = key then some v else r.get? key := by
  simp [get?, set, Std.ExtTreeMap.getElem?_insert]

@[grind =] theorem get?_erase (r : Record) (k key : String) :
    (r.erase k).get? key = if k = key then none else r.get? key := by
  simp [get?, erase, Std.ExtTreeMap.getElem?_erase]

@[grind =] theorem contains_eq (r : Record) (key : String) :
    r.contains key = (r.get? key).isSome :=
  Std.ExtTreeMap.contains_eq_isSome_getElem?

theorem isEmpty_iff {r : Record} : r.isEmpty ↔ r = ∅ := by
  cases r with | mk a =>
  simp only [isEmpty, Std.ExtTreeMap.isEmpty_iff]
  exact ⟨fun h => congrArg mk h, fun h => congrArg entries h⟩

@[simp] theorem setAll_nil (r : Record) : r.setAll [] = r := rfl

@[simp] theorem setAll_cons (r : Record) (e : String × String) (es : List (String × String)) :
    r.setAll (e :: es) = (r.set e.1 e.2).setAll es := rfl

theorem setAll_append (r : Record) (es fs : List (String × String)) :
    r.setAll (es ++ fs) = (r.setAll es).setAll fs := by
  simp [setAll, List.foldl_append]

/-! ## The common keys -/

/-- Key of the session's identifier, present when some product tracks the session. -/
def idKey : String := "id"

/-- Key of the moment at which the session was created. -/
def createdKey : String := "created"

/-- Key of the deadline for the next activity. -/
def expireKey : String := "expire"

/-- Key of the token of the writer that is at work. -/
def lockKey : String := "lock"

/-- The session's identifier. -/
def id? (r : Record) : Option String := r.get? idKey

/-- The token of the writer that is at work. -/
def lock? (r : Record) : Option String := r.get? lockKey

/-- The moment at which the session was created; unreadable text is no date. -/
def created? (r : Record) : Option Timestamp := (r.get? createdKey).bind Timestamp.read?

/-- The deadline for the next activity; unreadable text is no date. -/
def expire? (r : Record) : Option Timestamp := (r.get? expireKey).bind Timestamp.read?

/-- The record with a writer's token. -/
def withLock (r : Record) (token : String) : Record := r.set lockKey token

/-- The record without a writer's token. -/
def withoutLock (r : Record) : Record := r.erase lockKey

@[simp] theorem lock?_withLock (r : Record) (token : String) :
    (r.withLock token).lock? = some token := by
  simp [withLock, lock?, get?_set]

@[simp] theorem lock?_withoutLock (r : Record) : r.withoutLock.lock? = none := by
  simp [withoutLock, lock?, get?_erase]

theorem withoutLock_eq_self {r : Record} (h : r.lock? = none) : r.withoutLock = r := by
  ext1 key
  by_cases hk : lockKey = key
  · subst hk
    rw [lock?] at h
    simp [withoutLock, get?_erase, h]
  · simp [withoutLock, get?_erase, hk]

/-! ## Liveness -/

/-- Whether a key is mere bookkeeping, which describes no session on its own. -/
def isBookkeeping (key : String) : Bool := key == expireKey || key == lockKey

/-- Whether nothing but bookkeeping is left, so that there is no session to store. -/
def isCleared (r : Record) : Bool := r.keys.all isBookkeeping

/-- Moves the deadline to `d` after `now`. -/
def expand (r : Record) (now : Timestamp) (d : Span) : Record :=
  r.set expireKey (now.add d.millis).render

/-- Whether the session is younger than the time-out and its deadline is still to come. -/
def isActive (r : Record) (now : Timestamp) (timeOut : Span) : Bool :=
  (match r.created? with
    | some created => (now.sub created).millis < timeOut.millis
    | none => true)
  && (match r.expire? with
    | some expire => now < expire
    | none => true)

/-- The record as it is seen at `now`: an inactive session is no session. -/
def liveAt (r : Record) (now : Timestamp) (timeOut : Span) : Record :=
  if r.isActive now timeOut then r else ∅

theorem isCleared_iff {r : Record} :
    r.isCleared ↔ ∀ key, (r.get? key).isSome → isBookkeeping key := by
  simp only [isCleared, List.all_eq_true, keys, Std.ExtTreeMap.mem_keys,
    Std.ExtTreeMap.mem_iff_isSome_getElem?]
  rfl

@[simp] theorem isCleared_empty : (∅ : Record).isCleared := by
  simp [isCleared_iff]

/-- The new deadline replaces whatever stood there. -/
@[simp] theorem expire?_expand (r : Record) (now : Timestamp) (d : Span) :
    (r.expand now d).expire? = some (now.add d.millis) := by
  simp [expand, expire?, get?_set]

end Record

end SharedSession
