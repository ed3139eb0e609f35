import SharedSession.Record.Basic

set_option autoImplicit false

/-!
# Entries and bookkeeping

The lock and the deadline are entries like any other, so changing them leaves the rest of a record
alone. A record is cleared exactly if there is nothing under any other key.
-/

namespace SharedSession

namespace Record

theorem lockKey_ne_empty : lockKey ≠ "" := by decide

theorem erase_of_get?_eq_none {r : Record} {key : String} (h : r.get? key = none) :
    r.erase key = r := by
  ext1 k
  rw [get?_erase]
  split
  · next heq => rw [← heq, h]
  · rfl

@[simp] theorem erase_empty (key : String) : (∅ : Record).erase key = ∅ :=
  erase_of_get?_eq_none (get?_empty key)

@[simp] theorem erase_erase (r : Record) (key : String) : (r.erase key).erase key = r.erase key :=
  erase_of_get?_eq_none (by rw [get?_erase, if_pos rfl])

/-! ## The lock and the deadline -/

@[simp] theorem withoutLock_withLock (r : Record) (token : String) :
    (r.withLock token).withoutLock = r.withoutLock := by
  ext1 key
  simp only [withoutLock, withLock, get?_erase, get?_set]
  split <;> rfl

theorem erase_withLock {key : String} (h : lockKey ≠ key) (r : Record) (token : String) :
    (r.withLock token).erase key = (r.erase key).withLock token := by
  ext1 k
  simp only [withLock, get?_erase, get?_set]
  grind

theorem get?_withoutLock {r : Record} {key : String} (h : key ≠ lockKey) :
    r.withoutLock.get? key = r.get? key := by
  rw [withoutLock, get?_erase, if_neg (Ne.symm h)]

theorem get?_withLock {r : Record} {key : String} (h : key ≠ lockKey) (token : String) :
    (r.withLock token).get? key = r.get? key := by
  rw [withLock, get?_set, if_neg (Ne.symm h)]

theorem get?_expand {r : Record} {key : String} (h : key ≠ expireKey) (now : Timestamp) (d : Span) :
    (r.expand now d).get? key = r.get? key := by
  rw [expand, get?_set, if_neg (Ne.symm h)]

@[simp] theorem lock?_expand (r : Record) (now : Timestamp) (d : Span) :
    (r.expand now d).lock? = r.lock? :=
  get?_expand (by decide) now d

/-! ## Keys of their own -/

/-- A key that neither the protocol nor the codec does anything about. -/
structure IsPlainKey (key : String) : Prop where
  written : key ≠ ""
  notLock : key ≠ lockKey
  notExpire : key ≠ expireKey

theorem get?_of_cleared {r : Record} (h : r.isCleared = true) {key : String}
    (hexpire : key ≠ expireKey) (hlock : key ≠ lockKey) : r.get? key = none := by
  cases hget : r.get? key with
  | none => rfl
  | some value =>
    have hbook : isBookkeeping key = true := isCleared_iff.1 h key (by rw [hget]; rfl)
    unfold isBookkeeping at hbook
    rw [Bool.or_eq_true, beq_iff_eq, beq_iff_eq] at hbook
    rcases hbook with heq | heq
    · exact absurd heq hexpire
    · exact absurd heq hlock

theorem isCleared_eq_false {r : Record} {key value : String} (hkey : IsPlainKey key)
    (h : r.get? key = some value) : r.isCleared = false := by
  cases hcleared : r.isCleared with
  | false => rfl
  | true =>
    have hnone : r.get? key = none := get?_of_cleared hcleared hkey.notExpire hkey.notLock
    rw [h] at hnone
    cases hnone

/-- Nothing but the other keys decides. -/
theorem isCleared_congr {r s : Record}
    (h : ∀ key, key ≠ lockKey → key ≠ expireKey → r.get? key = s.get? key) :
    r.isCleared = s.isCleared := by
  have himp : ∀ a b : Record, (∀ key, key ≠ lockKey → key ≠ expireKey → a.get? key = b.get? key) →
      b.isCleared = true → a.isCleared = true := by
    intro a b hab hcleared
    refine isCleared_iff.2 fun key hkey => ?_
    unfold isBookkeeping
    by_cases hlock : key = lockKey
    · rw [hlock, beq_self_eq_true, Bool.or_true]
    by_cases hexpire : key = expireKey
    · rw [hexpire, beq_self_eq_true, Bool.true_or]
    rw [hab key hlock hexpire, get?_of_cleared hcleared hexpire hlock] at hkey
    cases hkey
  exact Bool.eq_iff_iff.2 ⟨himp s r fun key hlock hexpire => (h key hlock hexpire).symm, himp r s h⟩

@[simp] theorem isCleared_withLock (r : Record) (token : String) :
    (r.withLock token).isCleared = r.isCleared :=
  isCleared_congr fun _ hlock _ => get?_withLock hlock token

@[simp] theorem isCleared_withoutLock (r : Record) : r.withoutLock.isCleared = r.isCleared :=
  isCleared_congr fun _ hlock _ => get?_withoutLock hlock

@[simp] theorem isCleared_expand (r : Record) (now : Timestamp) (d : Span) :
    (r.expand now d).isCleared = r.isCleared :=
  isCleared_congr fun _ _ hexpire => get?_expand hexpire now d

end Record

end SharedSession
