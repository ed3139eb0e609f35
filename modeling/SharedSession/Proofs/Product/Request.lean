import SharedSession.Product.Request
import SharedSession.Proofs.Lock.Stage
import SharedSession.Proofs.Record.Liveness
import SharedSession.Proofs.Storage.Cell

set_option autoImplicit false

/-!
# What a request may store

A request never changes what a product is: its key, its decisions and its time-out. What it wants
stored is the record that it was given, if that is active, or a session that begins with it. Once
the record is over, only `expandOrRenew` stores anything, and that is a session from scratch.

Main statements: `Request.answers_transform`, `Request.stored_cases`, `Request.not_stored_of_over`,
`Request.renewed_of_over`.
-/

namespace SharedSession

namespace Record

/-- A key that a product may have for its own. -/
structure IsProductKey (key : String) : Prop extends IsPlainKey key where
  notId : key ≠ idKey
  notCreated : key ≠ createdKey

theorem isProductKey_iff {key : String} : IsProductKey key ↔
    (key ≠ "" ∧ key ≠ lockKey ∧ key ≠ expireKey) ∧ key ≠ idKey ∧ key ≠ createdKey :=
  ⟨fun h => ⟨⟨h.written, h.notLock, h.notExpire⟩, h.notId, h.notCreated⟩,
    fun ⟨⟨hwritten, hlock, hexpire⟩, hid, hcreated⟩ =>
      ⟨⟨hwritten, hlock, hexpire⟩, hid, hcreated⟩⟩

instance (key : String) : Decidable (IsProductKey key) := decidable_of_iff' _ isProductKey_iff

/-- A session that begins at `now`: nothing but the product's word and the deadline, and if the
session is tracked, an identifier and the date. -/
def begun (key : String) (decision : Decision) (now : Timestamp) (d : Span) (fresh : String) :
    Record :=
  let deadline := (now.add d.millis).render
  if decision.isTracked then
    ofList [(key, decision.trackingType), (expireKey, deadline), (idKey, fresh),
      (createdKey, now.render)]
  else ofList [(key, decision.trackingType), (expireKey, deadline)]

/-- What stands in a session that begins, key by key. -/
theorem get?_begun {key : String} (hkey : IsProductKey key) (decision : Decision)
    (now : Timestamp) (d : Span) (fresh k : String) :
    (begun key decision now d fresh).get? k =
      if k = key then some decision.trackingType
      else if k = expireKey then some (now.add d.millis).render
      else if k = idKey then if decision.isTracked then some fresh else none
      else if k = createdKey then if decision.isTracked then some now.render else none
      else none := by
  obtain ⟨⟨-, -, hexpire⟩, hid, hcreated⟩ := hkey
  have hne : expireKey ≠ idKey ∧ expireKey ≠ createdKey ∧ idKey ≠ createdKey := by decide
  unfold begun
  cases decision.isTracked with
  | true =>
    simp only [ofList, setAll_cons, setAll_nil, get?_set, reduceIte]
    have hempty : empty.get? k = none := get?_empty k
    grind
  | false =>
    simp only [ofList, setAll_cons, setAll_nil, get?_set, reduceIte, Bool.false_eq_true]
    have hempty : empty.get? k = none := get?_empty k
    grind

end Record

/-! ## What a product is -/

/-- What a product never changes of itself. -/
structure Traits where
  key : String
  compute : Nat → Option String → Decision
  timeOut : Span

namespace Product

/-- What the product never changes of itself. -/
def traits (p : Product) : Traits := ⟨p.key, p.compute, p.timeOut⟩

theorem synchronize_cases (p : Product) (now : Timestamp) (r : Record) :
    p.synchronize now r = p ∨ p.synchronize now r = p.expireCache now ∨
      p.synchronize now r = { p with cache := r.liveAt now p.timeOut } := by
  unfold synchronize
  dsimp only
  split
  · split
    · exact .inr (.inl rfl)
    · exact .inr (.inr rfl)
  · exact .inl rfl

@[simp] theorem traits_synchronize (p : Product) (now : Timestamp) (r : Record) :
    (p.synchronize now r).traits = p.traits := by
  rcases synchronize_cases p now r with h | h | h
  · rw [h]
  · rw [h]
    rfl
  · rw [h]
    rfl

@[simp] theorem asked_synchronize (p : Product) (now : Timestamp) (r : Record) :
    (p.synchronize now r).asked = p.asked := by
  rcases synchronize_cases p now r with h | h | h
  · rw [h]
  · rw [h]
    rfl
  · rw [h]

theorem isTracking_synchronize (p : Product) (now : Timestamp) (r : Record) :
    (p.synchronize now r).isTracking = p.isTracking := by
  rcases synchronize_cases p now r with h | h | h
  · rw [h]
  · rw [h]
    rfl
  · rw [h]

@[simp] theorem traits_renewSettled (p : Product) (now : Timestamp) (r : Record) :
    (renewSettled now r p).traits = p.traits := by
  unfold renewSettled
  split <;> rfl

theorem key_eq_of_traits {p q : Product} (h : q.traits = p.traits) : q.key = p.key :=
  congrArg Traits.key h

theorem compute_eq_of_traits {p q : Product} (h : q.traits = p.traits) : q.compute = p.compute :=
  congrArg Traits.compute h

theorem timeOut_eq_of_traits {p q : Product} (h : q.traits = p.traits) : q.timeOut = p.timeOut :=
  congrArg Traits.timeOut h

/-- A product with a key of its own and the time-out that all of them have. -/
structure IsProper (timeOut : Span) (p : Product) : Prop where
  key : Record.IsProductKey p.key
  timeOut : p.timeOut = timeOut

theorem IsProper.of_traits {timeOut : Span} {p q : Product} (h : p.IsProper timeOut)
    (htraits : q.traits = p.traits) : q.IsProper timeOut where
  key := by
    rw [key_eq_of_traits htraits]
    exact h.key
  timeOut := (timeOut_eq_of_traits htraits).trans h.timeOut

/-! ## The record with a decision -/

section

variable {key : String} (hkey : Record.IsProductKey key) (decision : Decision) (now : Timestamp)
  (fresh : String) (r : Record)

/-- A session that has an identifier keeps it with its date; a tracked one that has none gets both. -/
theorem record_cases :
    record key decision now fresh r = r.set key decision.trackingType ∨
    record key decision now fresh r
      = ((r.set key decision.trackingType).set Record.idKey fresh).set Record.createdKey
          now.render := by
  unfold record
  dsimp only
  split
  · exact .inr rfl
  · exact .inl rfl

/-- Whatever the key is, there is something under it then. -/
theorem isSome_get?_record : ((record key decision now fresh r).get? key).isSome = true := by
  rcases record_cases decision now fresh r with h | h
  · rw [h, Record.get?_set, if_pos rfl]
    rfl
  · rw [h, Record.get?_set]
    split
    · rfl
    · rw [Record.get?_set]
      split
      · rfl
      · rw [Record.get?_set, if_pos rfl]
        rfl

/-- There is a session in the record: the product's word. -/
theorem isCleared_record (hplain : Record.IsPlainKey key) :
    (record key decision now fresh r).isCleared = false := by
  obtain ⟨word, hword⟩ :=
    Option.isSome_iff_exists.1 (isSome_get?_record decision now fresh r)
  exact Record.isCleared_eq_false hplain hword

include hkey

/-- What stands in the record, key by key. -/
theorem get?_record (k : String) : (record key decision now fresh r).get? k
    = if k = key then some decision.trackingType
      else if decision.isTracked && r.id?.isNone then
        if k = Record.idKey then some fresh
        else if k = Record.createdKey then some now.render else r.get? k
      else r.get? k := by
  have hid : (r.set key decision.trackingType).id? = r.id? := by
    rw [Record.id?, Record.get?_set, if_neg hkey.notId]
    rfl
  have hnotId := hkey.notId
  have hnotCreated := hkey.notCreated
  have hne : Record.idKey ≠ Record.createdKey := by decide
  unfold record
  dsimp only
  rw [hid]
  split
  · simp only [Record.get?_set]
    grind
  · simp only [Record.get?_set, eq_comm]

theorem get?_record_key :
    (record key decision now fresh r).get? key = some decision.trackingType := by
  rw [get?_record hkey, if_pos rfl]

/-- The words of other products stay. -/
theorem get?_record_of_ne {k : String} (hk : Record.IsProductKey k) (hne : k ≠ key) :
    (record key decision now fresh r).get? k = r.get? k := by
  rw [get?_record hkey, if_neg hne, if_neg hk.notId, if_neg hk.notCreated, ite_self]

/-- An identifier is made if the session is to be tracked and has none. -/
theorem id?_record : (record key decision now fresh r).id?
    = if decision.isTracked && r.id?.isNone then some fresh else r.id? := by
  rw [Record.id?, get?_record hkey, if_neg hkey.notId.symm, if_pos rfl]
  rfl

/-- With an identifier its date is made, and without one the date stays. -/
theorem get?_record_dates : (record key decision now fresh r).id? = some fresh ∧
      (record key decision now fresh r).get? Record.createdKey = some now.render ∨
    (record key decision now fresh r).id? = r.id? ∧
      (record key decision now fresh r).get? Record.createdKey = r.get? Record.createdKey := by
  have hne : Record.createdKey ≠ Record.idKey := by decide
  rw [id?_record hkey, get?_record hkey, if_neg hkey.notCreated.symm, if_neg hne, if_pos rfl]
  split
  · exact .inl ⟨rfl, rfl⟩
  · exact .inr ⟨rfl, rfl⟩

/-- With nothing but bookkeeping in it, a record becomes a session that begins. -/
theorem record_of_cleared (hcleared : r.isCleared = true) (d : Span) :
    ((record key decision now fresh r).withoutLock.expand now d).erase ""
      = Record.begun key decision now d fresh := by
  have hid : (r.set key decision.trackingType).id? = none := by
    rw [Record.id?, Record.get?_set, if_neg hkey.notId]
    exact Record.get?_of_cleared hcleared (by decide) (by decide)
  ext1 k
  rw [Record.get?_begun hkey]
  have hk : k ≠ Record.expireKey → k ≠ Record.lockKey → r.get? k = none :=
    Record.get?_of_cleared hcleared
  obtain ⟨⟨hwritten, hnotLock, hnotExpire⟩, hnotId, hnotCreated⟩ := hkey
  have hkeys : Record.idKey ≠ "" ∧ Record.createdKey ≠ "" ∧ Record.expireKey ≠ "" ∧
      Record.idKey ≠ Record.lockKey ∧ Record.createdKey ≠ Record.lockKey ∧
      Record.expireKey ≠ Record.lockKey ∧ Record.idKey ≠ Record.expireKey ∧
      Record.createdKey ≠ Record.expireKey ∧ Record.idKey ≠ Record.createdKey := by decide
  unfold record
  dsimp only
  rw [hid]
  cases decision.isTracked with
  | true =>
    simp only [Option.isNone_none, Bool.and_true, reduceIte, Record.get?_erase, Record.expand,
      Record.withoutLock, Record.get?_set]
    grind
  | false =>
    simp only [Bool.false_and, Bool.false_eq_true, reduceIte, Record.get?_erase, Record.expand,
      Record.withoutLock, Record.get?_set]
    grind

end

end Product

/-! ## What is asked for -/

/-- What a request wants to become of the record when it is asked for, and what it makes of the
product. -/
inductive Request.Answers (o : Occasion) (r : Record) (p : Product) :
    Request → Outcome × Product → Prop where
  /-- activity has the live session stored with the product's decision about it -/
  | renewing : Answers o r p .expandOrRenew
      (.persist (Product.record p.key
          (p.compute p.asked.length ((r.liveAt o.now p.timeOut).get? p.key)) o.now o.fresh
          (r.liveAt o.now p.timeOut)),
        ((p.synchronize o.now r).ask o.now (r.liveAt o.now p.timeOut)).2)
  /-- a product that has a session has the live one stored again -/
  | prolonging (hsession : p.hasSession = true) :
      Answers o r p .expand (.persist (r.liveAt o.now p.timeOut), p.synchronize o.now r)
  | abstaining (hsession : p.hasSession = false) : Answers o r p .expand (.unchanged, p)
  | keeping (hactive : r.isActive o.now p.timeOut = true) : Answers o r p .watch (.unchanged, p)
  | removing (hdead : r.isActive o.now p.timeOut = false) : Answers o r p .watch (.clear, p)
  | ending : Answers o r p .expire (.clear, p)

namespace Request

variable (q : Request) (o : Occasion) (now : Timestamp) (r : Record) (p : Product) {d : Span}

/-- These are all the answers that there are: what holds of each of them holds of every request. -/
theorem answers_transform : Answers o r p q (q.operation.transform o r p) := by
  cases q with
  | expandOrRenew =>
    have htraits : (p.synchronize o.now r).traits = p.traits := Product.traits_synchronize p o.now r
    have hdecision : ((p.synchronize o.now r).ask o.now (r.liveAt o.now p.timeOut)).1
        = p.compute p.asked.length ((r.liveAt o.now p.timeOut).get? p.key) := by
      unfold Product.ask
      dsimp only
      rw [Product.compute_eq_of_traits htraits, Product.key_eq_of_traits htraits,
        Product.asked_synchronize]
    show Answers o r p .expandOrRenew (Product.renewTransform o r p)
    unfold Product.renewTransform
    dsimp only
    rw [hdecision]
    exact .renewing
  | expand =>
    show Answers o r p .expand (Product.expandTransform o r p)
    unfold Product.expandTransform
    split
    · next hsession => exact .prolonging hsession
    · next hsession => exact .abstaining (Bool.eq_false_iff.2 hsession)
  | watch =>
    show Answers o r p .watch (Product.watchTransform o r p)
    unfold Product.watchTransform
    split
    · next hactive => exact .keeping hactive
    · next hdead => exact .removing (Bool.eq_false_iff.2 hdead)
  | expire => exact .ending

@[simp] theorem traits_transform : (q.operation.transform o r p).2.traits = p.traits := by
  have hanswers := q.answers_transform o r p
  generalize q.operation.transform o r p = x at hanswers ⊢
  cases hanswers with
  | renewing => exact Product.traits_synchronize p o.now r
  | prolonging => exact Product.traits_synchronize p o.now r
  | _ => rfl

@[simp] theorem traits_settle : (q.operation.settle now r p).traits = p.traits := by
  cases q with
  | expandOrRenew => exact Product.traits_renewSettled p now r
  | expand => rfl
  | watch => exact Product.traits_synchronize p now r
  | expire => exact Product.traits_synchronize p now ∅

/-- What is to be stored goes on with the session that was given, and only while that is active.
Otherwise it has no identifier or a new one. -/
theorem stored_cases (hkey : Record.IsProductKey p.key) {s : Record}
    (h : (q.operation.transform o r p).1.resolve o.now d = .persist s) :
    s.id? = none ∨ s.id? = some o.fresh ∨
      r.isActive o.now p.timeOut = true ∧ s.id? = r.id? ∧
        s.get? Record.createdKey = r.get? Record.createdKey := by
  obtain ⟨t, ht, hcleared, rfl⟩ := Outcome.eq_of_resolve_persist h
  have hkept : ∀ k, k ≠ Record.expireKey → k ≠ Record.lockKey →
      (t.withoutLock.expand o.now d).get? k = t.get? k := by
    intro k hexpire hlock
    rw [Record.get?_expand hexpire, Record.get?_withoutLock hlock]
  have hid : (t.withoutLock.expand o.now d).id? = t.id? := hkept _ (by decide) (by decide)
  rw [hid, hkept _ (by decide) (by decide)]
  have hlive : (r.liveAt o.now p.timeOut).id? = none ∨
      r.isActive o.now p.timeOut = true ∧ r.liveAt o.now p.timeOut = r := by
    cases hactive : r.isActive o.now p.timeOut with
    | true => exact .inr ⟨rfl, Record.liveAt_of_active hactive⟩
    | false =>
      rw [Record.liveAt_of_inactive hactive]
      exact .inl (Record.get?_empty _)
  have hanswers := q.answers_transform o r p
  generalize q.operation.transform o r p = x at hanswers ht
  cases hanswers with
  | renewing =>
    cases ht
    rcases Product.get?_record_dates hkey _ o.now o.fresh (r.liveAt o.now p.timeOut) with
      ⟨hfresh, -⟩ | ⟨hsame, hdate⟩
    · exact .inr (.inl hfresh)
    · rcases hlive with hnone | ⟨hactive, heq⟩
      · exact .inl (hsame.trans hnone)
      · rw [heq] at hsame hdate
        rw [heq]
        exact .inr (.inr ⟨hactive, hsame, hdate⟩)
  | prolonging =>
    cases ht
    rcases hlive with hnone | ⟨hactive, heq⟩
    · exact .inl hnone
    · rw [heq]
      exact .inr (.inr ⟨hactive, rfl, rfl⟩)
  | _ => cases ht

/-- Once the session is over, prolonging it stores nothing. -/
theorem not_stored_of_over (hq : q ≠ .expandOrRenew) (hover : r.IsOver o.now p.timeOut)
    (s : Record) : (q.operation.transform o r p).1.resolve o.now d ≠ .persist s := by
  intro h
  obtain ⟨t, ht, hcleared, -⟩ := Outcome.eq_of_resolve_persist h
  have hanswers := q.answers_transform o r p
  generalize q.operation.transform o r p = x at hanswers ht
  cases hanswers with
  | renewing => exact hq rfl
  | prolonging =>
    cases ht
    unfold Record.IsOver at hover
    rw [hover] at hcleared
    cases hcleared
  | _ => cases ht

/-- What is to be stored upon activity is the live session with the decision about it. -/
theorem renew_answer : (expandOrRenew.operation.transform o r p).1
    = .persist (Product.record p.key
        (p.compute p.asked.length ((r.liveAt o.now p.timeOut).get? p.key)) o.now o.fresh
        (r.liveAt o.now p.timeOut)) := by
  have hanswers := expandOrRenew.answers_transform o r p
  generalize expandOrRenew.operation.transform o r p = x at hanswers ⊢
  cases hanswers
  rfl

/-- Activity begins a session from scratch then. -/
theorem renewed_of_over (hkey : Record.IsProductKey p.key) (hover : r.IsOver o.now p.timeOut)
    (d : Span) :
    ∃ s, (expandOrRenew.operation.transform o r p).1.resolve o.now d = .persist s ∧
      s.erase "" = Record.begun p.key (p.compute p.asked.length none) o.now d o.fresh := by
  have hnone : (r.liveAt o.now p.timeOut).get? p.key = none :=
    Record.get?_of_cleared hover hkey.notExpire hkey.notLock
  rw [renew_answer, hnone, Outcome.resolve_persist_of_not_cleared _ _
    (Product.isCleared_record _ _ _ _ hkey.toIsPlainKey)]
  exact ⟨_, rfl, Product.record_of_cleared hkey _ _ _ _ hover d⟩

end Request

namespace Operation

variable {σ : Type} {op : Operation σ} {i : Nat} {ps : List σ}

theorem transform_onIndex_of_some {p : σ} (h : ps[i]? = some p) (o : Occasion) (r : Record) :
    (op.onIndex i).transform o r ps
      = ((op.transform o r p).1, ps.set i (op.transform o r p).2) := by
  unfold onIndex
  dsimp only
  rw [h]

theorem transform_onIndex_of_none (h : ps[i]? = none) (o : Occasion) (r : Record) :
    (op.onIndex i).transform o r ps = (.unchanged, ps) := by
  unfold onIndex
  dsimp only
  rw [h]

theorem transform_onIndex_cases {o : Occasion} {r : Record} {answer : Outcome} {own : List σ}
    (h : (op.onIndex i).transform o r ps = (answer, own)) :
    answer = .unchanged ∧ own = ps ∨
    ∃ p, ps[i]? = some p ∧ answer = (op.transform o r p).1 ∧
      own = ps.set i (op.transform o r p).2 := by
  cases hp : ps[i]? with
  | none =>
    rw [transform_onIndex_of_none hp] at h
    cases h
    exact .inl ⟨rfl, rfl⟩
  | some p =>
    rw [transform_onIndex_of_some hp] at h
    cases h
    exact .inr ⟨p, rfl, rfl, rfl⟩

theorem settle_onIndex (now : Timestamp) (r : Record) :
    (op.onIndex i).settle now r ps = ps.modify i (op.settle now r) := by
  unfold settle onIndex
  dsimp only
  rw [List.foldl_map]
  generalize op.callbacks = fs
  induction fs generalizing ps with
  | nil => exact (List.modify_id i ps).symm
  | cons f fs ih => exact ih.trans (List.modify_modify_eq _ _ i ps)

end Operation

/-! ## One product among others -/

/-- What a change leaves alone in each element is the same for the list of the elements. -/
theorem map_modify_eq {α β : Type} {f : α → α} {g : α → β} (h : ∀ a, g (f a) = g a) (l : List α)
    (i : Nat) : (l.modify i f).map g = l.map g := by
  apply List.ext_getElem?
  intro k
  rw [List.getElem?_map, List.getElem?_map, List.getElem?_modify]
  cases l[k]? with
  | none => rfl
  | some a =>
    show some (g (if i = k then f a else a)) = some (g a)
    split
    · rw [h]
    · rfl

namespace Operation

variable {σ : Type} (op : Operation σ) (k j : Nat) (ps : List σ)

/-- A transform changes at most the state that it is for. -/
theorem getElem?_transform_onIndex (o : Occasion) (r : Record) :
    ((op.onIndex k).transform o r ps).2[j]?
      = ps[j]?.map fun p => if k = j then (op.transform o r p).2 else p := by
  cases hp : ps[k]? with
  | none =>
    rw [transform_onIndex_of_none hp]
    by_cases hkj : k = j
    · rw [← hkj, hp]
      rfl
    · simp only [if_neg hkj, Option.map_id']
  | some p =>
    rw [transform_onIndex_of_some hp]
    by_cases hkj : k = j
    · subst hkj
      rw [List.getElem?_set_self (List.getElem?_eq_some_iff.1 hp).1, hp, Option.map_some,
        if_pos rfl]
    · simp only [List.getElem?_set_ne hkj, if_neg hkj, Option.map_id']

theorem getElem?_settle_onIndex (now : Timestamp) (r : Record) :
    ((op.onIndex k).settle now r ps)[j]?
      = ps[j]?.map fun p => if k = j then op.settle now r p else p := by
  rw [settle_onIndex, List.getElem?_modify]
  rfl

theorem map_transform_onIndex {β : Type} {g : σ → β} {o : Occasion} {r : Record}
    (h : ∀ p, g (op.transform o r p).2 = g p) :
    ((op.onIndex k).transform o r ps).2.map g = ps.map g := by
  apply List.ext_getElem?
  intro j
  rw [List.getElem?_map, List.getElem?_map, getElem?_transform_onIndex, Option.map_map]
  congr 1
  funext p
  show g (if k = j then (op.transform o r p).2 else p) = g p
  split
  · exact h p
  · rfl

theorem map_settle_onIndex {β : Type} {g : σ → β} {now : Timestamp} {r : Record}
    (h : ∀ p, g (op.settle now r p) = g p) :
    ((op.onIndex k).settle now r ps).map g = ps.map g := by
  rw [settle_onIndex]
  exact map_modify_eq h ps k

end Operation

end SharedSession
