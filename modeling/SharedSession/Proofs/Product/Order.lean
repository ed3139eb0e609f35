import SharedSession.Proofs.Lock.Sequence
import SharedSession.Proofs.Product.Agenda

set_option autoImplicit false

/-!
# Products in any order

When several products are active at one moment, each of them decides about the session that it finds
and leaves it to the next one. It does not matter in which order they do so: every product finds its
own word as it was at first, since the others leave it alone, and whoever comes first among those
that track gives the session its identifier. So the record that is left is made of the live session
and the decisions about it, and only which name the identifier is depends on the order.

What carries the argument is that the first of them leaves a record that is active, so that the
others go on with it. This takes a deadline and a time-out that are still to come at that moment.

Main statements: `Traits.renew_decidedBy`, `IsCourse.decidedBy`, `Service.decided_in_any_order`.
-/

namespace SharedSession

/-! ## Decisions about one session -/

namespace Traits

/-- The decision of products of a kind about a record. -/
def decision (t : Traits) (r : Record) : Decision := t.compute 0 (r.get? t.key)

/-- A kind of products with a key of their own, a common time-out, and decisions that depend on
nothing but what is stored under the key. -/
structure IsRegular (timeOut : Span) (t : Traits) : Prop where
  key : Record.IsProductKey t.key
  timeOut : t.timeOut = timeOut
  compute : ∀ n, t.compute n = t.compute 0

/-- What is left when a product has been active while a session was live. -/
def renew (t : Traits) (now : Timestamp) (d : Span) (fresh : String) (live : Record) : Record :=
  ((Product.record t.key (t.decision live) now fresh live).withoutLock.expand now d).erase ""

end Traits

namespace Record

/-- The words that products decide upon. -/
def words (ts : List Traits) (live : Record) : List (String × String) :=
  ts.map fun t => (t.key, (t.decision live).trackingType)

/-- Whether a session gets an identifier: it has none, and some product tracks it. -/
def getsNamed (ts : List Traits) (live : Record) : Bool :=
  live.id?.isNone && ts.any fun t => (t.decision live).isTracked

/-- A live session with the decisions of products about it. A session that has no identifier gets
one, and with it its date of creation, if some product tracks it. -/
def decidedBy (ts : List Traits) (now : Timestamp) (fresh : String) (live : Record) : Record :=
  let r := live.setAll (words ts live)
  if getsNamed ts live then (r.set idKey fresh).set createdKey now.render else r

variable {ts us : List Traits} {t : Traits} {now : Timestamp} {d timeOut : Span}
  {id fresh : String} {live r : Record}

@[simp] theorem decidedBy_nil (now : Timestamp) (fresh : String) (live : Record) :
    decidedBy [] now fresh live = live := by
  unfold decidedBy getsNamed
  rw [List.any_nil, Bool.and_false]
  rfl

/-- What stands in the record, key by key. -/
theorem get?_decidedBy (ts : List Traits) (now : Timestamp) (fresh : String) (live : Record)
    (k : String) : (decidedBy ts now fresh live).get? k
      = if getsNamed ts live then
          if k = idKey then some fresh
          else if k = createdKey then some now.render else (live.setAll (words ts live)).get? k
        else (live.setAll (words ts live)).get? k := by
  have hne : idKey ≠ createdKey := by decide
  unfold decidedBy
  dsimp only
  split
  · simp only [get?_set]
    grind
  · rfl

/-- What no product decides upon stays. -/
theorem get?_setAll_words {k : String} (h : ∀ t ∈ ts, t.key ≠ k) :
    (live.setAll (words ts live)).get? k = live.get? k := by
  apply get?_setAll_of_forall_ne
  intro e he
  obtain ⟨t, ht, rfl⟩ := List.mem_map.1 he
  exact h t ht

theorem get?_decidedBy_of_ne {k : String} (h : ∀ t ∈ ts, t.key ≠ k) (hid : k ≠ idKey)
    (hcreated : k ≠ createdKey) : (decidedBy ts now fresh live).get? k = live.get? k := by
  rw [get?_decidedBy, if_neg hid, if_neg hcreated, ite_self, get?_setAll_words h]

theorem id?_decidedBy (h : ∀ t ∈ ts, IsProductKey t.key) :
    (decidedBy ts now fresh live).id? = if getsNamed ts live then some fresh else live.id? := by
  rw [id?, get?_decidedBy, if_pos rfl, get?_setAll_words fun t ht => (h t ht).notId, id?]

/-- The order of the products does not matter. -/
theorem decidedBy_perm (hperm : ts.Perm us) (hdistinct : (ts.map Traits.key).Nodup)
    (now : Timestamp) (fresh : String) (live : Record) :
    decidedBy ts now fresh live = decidedBy us now fresh live := by
  have hwords : live.setAll (words ts live) = live.setAll (words us live) := by
    refine setAll_perm (hperm.map _) ?_ live
    exact List.pairwise_map.2 (List.pairwise_map.1 hdistinct)
  have hnamed : getsNamed ts live = getsNamed us live := by
    rw [getsNamed, getsNamed, hperm.any_eq]
  rw [decidedBy, decidedBy, hwords, hnamed]

/-- Which name the identifier is shows nowhere else. -/
theorem erase_decidedBy (ts : List Traits) (now : Timestamp) (d : Span) (fresh fresh' : String)
    (live : Record) : ((decidedBy ts now fresh live).expand now d).erase idKey
      = ((decidedBy ts now fresh' live).expand now d).erase idKey := by
  ext1 k
  simp only [get?_erase, expand, get?_set, get?_decidedBy]
  grind

end Record

/-! ## One product after another -/

/-- A session about which products decide at a moment: it is live, and so is whatever they leave,
because neither a deadline nor a time-out that starts then is over at once. -/
structure Record.IsRenewable (live : Record) (now : Timestamp) (d timeOut : Span) : Prop where
  active : live.isActive now timeOut = true
  free : live.lock? = none
  plain : live.get? "" = none
  now_lt : now.millis < 9223372036854775807
  deadline : 1 ≤ d.millis
  timeOut : 1 ≤ timeOut.millis

section

variable {done : List Traits} {t : Traits} {now : Timestamp} {d timeOut : Span}
  {id fresh : String} {live r : Record}

namespace Record

/-- What the products leave is active. -/
theorem IsRenewable.isActive_decidedBy (h : live.IsRenewable now d timeOut)
    (hdone : ∀ t ∈ done, IsProductKey t.key) :
    ((decidedBy done now id live).expand now d).isActive now timeOut = true := by
  have hexpire : ((decidedBy done now id live).expand now d).expire? = some (now.add d.millis) := by
    rw [expire?, expand, get?_set, if_pos rfl]
    exact Timestamp.read?_render _
  have hdeadline : now < now.add d.millis := by
    have hnow := h.now_lt
    have hd := h.deadline
    rw [Timestamp.lt_iff, Timestamp.millis_add]
    omega
  have hcreated : ((decidedBy done now id live).expand now d).created? = some now ∨
      ((decidedBy done now id live).expand now d).created? = live.created? := by
    have hne : createdKey ≠ idKey := by decide
    rw [created?, get?_expand (by decide), get?_decidedBy, if_neg hne, if_pos rfl,
      get?_setAll_words fun t ht => (hdone t ht).notCreated]
    split
    · exact .inl (Timestamp.read?_render now)
    · exact .inr rfl
  unfold isActive
  rw [hexpire, Bool.and_eq_true]
  refine ⟨?_, decide_eq_true hdeadline⟩
  rcases hcreated with hnew | hold
  · rw [hnew]
    apply decide_eq_true
    have htimeOut := h.timeOut
    rw [Timestamp.millis_sub]
    omega
  · rw [hold]
    have hactive := h.active
    rw [isActive, Bool.and_eq_true] at hactive
    exact hactive.1

end Record

/-- A product that comes next decides like the others, about the same session. It makes an
identifier if nobody has before. -/
theorem Traits.renew_decidedBy (hlive : live.IsRenewable now d timeOut)
    (hkey : Record.IsProductKey t.key) (hdone : ∀ s ∈ done, Record.IsProductKey s.key)
    (hnew : ∀ s ∈ done, s.key ≠ t.key)
    (hr : ∀ k, k ≠ Record.expireKey → r.get? k = (Record.decidedBy done now id live).get? k) :
    t.renew now d fresh r = (Record.decidedBy (done ++ [t]) now
      (if Record.getsNamed done live then id else fresh) live).expand now d := by
  have hprior : r.get? t.key = live.get? t.key := by
    rw [hr _ hkey.notExpire, Record.get?_decidedBy_of_ne hnew hkey.notId hkey.notCreated]
  have hdecision : t.decision r = t.decision live := by
    rw [decision, decision, hprior]
  have hid : r.id? = if Record.getsNamed done live then some id else live.id? := by
    rw [Record.id?, hr _ (by decide)]
    exact Record.id?_decidedBy hdone
  have hnamed : Record.getsNamed (done ++ [t]) live
      = (Record.getsNamed done live || live.id?.isNone && (t.decision live).isTracked) := by
    simp only [Record.getsNamed, List.any_append, List.any_cons, List.any_nil, Bool.or_false,
      Bool.and_or_distrib_left]
  have hwords : live.setAll (Record.words (done ++ [t]) live)
      = (live.setAll (Record.words done live)).set t.key (t.decision live).trackingType := by
    simp only [Record.words, List.map_append, Record.setAll_append]
    rfl
  have hkeys : Record.idKey ≠ Record.expireKey ∧ Record.createdKey ≠ Record.expireKey ∧
      Record.idKey ≠ Record.createdKey ∧ Record.idKey ≠ "" ∧ Record.createdKey ≠ "" ∧
      Record.expireKey ≠ "" ∧ Record.idKey ≠ Record.lockKey ∧ Record.createdKey ≠ Record.lockKey ∧
      Record.expireKey ≠ Record.lockKey := by decide
  have hplain : (live.setAll (Record.words done live)).get? "" = none := by
    rw [Record.get?_setAll_words fun s hs => (hdone s hs).written, hlive.plain]
  have hfree : (live.setAll (Record.words done live)).get? Record.lockKey = none := by
    rw [Record.get?_setAll_words fun s hs => (hdone s hs).notLock]
    exact hlive.free
  ext1 k
  have hrecord := Product.get?_record hkey (t.decision live) now fresh r k
  have hrk := hr k
  rw [Record.get?_decidedBy] at hrk
  rw [hid] at hrecord
  obtain ⟨⟨hwritten, hnotLock, hnotExpire⟩, hnotId, hnotCreated⟩ := hkey
  unfold renew
  simp only [Record.expand, Record.withoutLock, Record.get?_erase, Record.get?_set,
    Record.get?_decidedBy, hdecision, hnamed, hwords]
  cases hgets : Record.getsNamed done live with
  | true =>
    simp only [hgets, reduceIte, Option.isNone_some, Bool.and_false, Bool.false_eq_true,
      Bool.true_or] at hrecord hrk ⊢
    grind
  | false =>
    simp only [hgets, reduceIte, Bool.false_eq_true, Bool.false_or] at hrecord hrk ⊢
    grind

/-! ## What is left when a product has been active -/

/-- Activity of a product is a decision about the live session. -/
theorem IsServed.medium_of_renewal {draws : Nat} {x : Served (List Product)}
    {u v : World Record (List Product)} (h : IsServed d draws x u v) {i : Nat}
    (hop : x.op = Request.expandOrRenew.operation.onIndex i)
    (ht : (traitsOf u.own)[i]? = some t) (hregular : t.IsRegular timeOut) :
    v.medium = t.renew x.occasion.now d x.occasion.fresh
      (u.medium.liveAt x.occasion.now timeOut) := by
  obtain ⟨p, hp, rfl⟩ := Option.map_eq_some_iff.1 (List.getElem?_map.symm.trans ht)
  have hanswer : x.answer = .persist (Product.record p.key
      (p.traits.decision (u.medium.liveAt x.occasion.now timeOut)) x.occasion.now x.occasion.fresh
      (u.medium.liveAt x.occasion.now timeOut)) := by
    unfold Consultation.answer
    rw [hop, h.own_eq, h.given_eq, Operation.transform_onIndex_of_some hp, Request.renew_answer]
    have htimeOut : p.timeOut = timeOut := hregular.timeOut
    have hcompute : p.compute p.asked.length = p.compute 0 := hregular.compute _
    rw [htimeOut, hcompute]
    rfl
  have hplain : Record.IsPlainKey p.key := hregular.key.toIsPlainKey
  rw [h.eq_world]
  show x.answer.result x.occasion.now d x.given = _
  rw [hanswer, Outcome.result, Product.isCleared_record _ _ _ _ hplain]
  rfl

/-- It changes no product. -/
theorem IsServed.traitsOf_own {draws : Nat} {x : Served (List Product)}
    {u v : World Record (List Product)} (h : IsServed d draws x u v) {q : Request} {i : Nat}
    (hop : x.op = q.operation.onIndex i) : traitsOf v.own = traitsOf u.own := by
  rw [h.eq_world]
  show traitsOf (x.op.settle x.occasion.now x.final (x.op.transform x.occasion x.given x.own).2) = _
  rw [hop, Request.traitsOf_settle, Request.traitsOf_transform, h.own_eq]

/-- A product that is active goes on with the decisions of those that were active before. -/
theorem IsServed.decides {draws : Nat} {x : Served (List Product)}
    {u v : World Record (List Product)} (hlive : live.IsRenewable now d timeOut)
    (h : IsServed d draws x u v) {i : Nat}
    (hop : x.op = Request.expandOrRenew.operation.onIndex i) (hnow : x.occasion.now = now)
    (ht : (traitsOf u.own)[i]? = some t) (hregular : t.IsRegular timeOut)
    (hdone : ∀ s ∈ done, Record.IsProductKey s.key) (hnew : ∀ s ∈ done, s.key ≠ t.key)
    (hu : ∀ k, k ≠ Record.expireKey →
      (u.medium.liveAt now timeOut).get? k = (Record.decidedBy done now id live).get? k) :
    ∃ id', (id' = id ∨ id' = u.names.lastOf draws 0) ∧
      v.medium = (Record.decidedBy (done ++ [t]) now id' live).expand now d := by
  have hmedium := h.medium_of_renewal hop ht hregular
  rw [hnow, Traits.renew_decidedBy hlive hregular.key hdone hnew hu] at hmedium
  refine ⟨_, ?_, hmedium⟩
  split
  · exact .inl rfl
  · exact .inr h.fresh_eq

/-- The products with these numbers. -/
def Traits.select (products : List Traits) (order : List Nat) : List Traits :=
  order.filterMap (products[·]?)

/-- Products with these numbers are active one after another, all at one moment. -/
def AreActive (now : Timestamp) (order : List Nat) (xs : List (Served (List Product))) : Prop :=
  xs.map (fun x => (x.op, x.occasion.now))
    = order.map fun i => (Request.expandOrRenew.operation.onIndex i, now)

/-- So do all of them, one after another. -/
theorem IsCourse.decidedBy {draws : Nat} {products : List Traits} {order : List Nat}
    {xs : List (Served (List Product))} {u v : World Record (List Product)}
    (hlive : live.IsRenewable now d timeOut) (h : IsCourse d draws u xs v)
    (hactive : AreActive now order xs) (hsome : order ≠ []) (hown : traitsOf u.own = products)
    (hproducts : ∀ t ∈ products, t.IsRegular timeOut) (hrange : ∀ i ∈ order, i < products.length)
    (hdone : ∀ t ∈ done, Record.IsProductKey t.key)
    (hdistinct : ((done ++ Traits.select products order).map Traits.key).Nodup)
    (hu : ∀ k, k ≠ Record.expireKey →
      (u.medium.liveAt now timeOut).get? k = (Record.decidedBy done now id live).get? k) :
    ∃ id', (id' = id ∨ ∃ n < order.length, id' = u.names.lastOf draws n) ∧
      v.medium
        = (Record.decidedBy (done ++ Traits.select products order) now id' live).expand now d := by
  induction h generalizing order done id with
  | nil => exact absurd (List.map_eq_nil_iff.1 hactive.symm) hsome
  | @cons x xs u v w first rest ih =>
    cases order with
    | nil => exact absurd rfl hsome
    | cons i order =>
      obtain ⟨hx, hxs⟩ := List.cons.inj hactive
      obtain ⟨hop, hnow⟩ := Prod.mk.inj hx
      obtain ⟨hi, hrest⟩ := List.forall_mem_cons.1 hrange
      have ht : products[i]? = some products[i] := List.getElem?_eq_getElem hi
      have hregular := hproducts _ (List.mem_of_getElem? ht)
      have hselect : done ++ Traits.select products (i :: order)
          = done ++ [products[i]] ++ Traits.select products order := by
        rw [Traits.select, List.filterMap_cons_some ht, List.append_assoc]
        rfl
      rw [hselect] at hdistinct ⊢
      have hnew : ∀ s ∈ done, s.key ≠ products[i].key := by
        rw [List.append_assoc, List.map_append] at hdistinct
        obtain ⟨-, -, hne⟩ := List.nodup_append.1 hdistinct
        exact fun s hs => hne _ (List.mem_map_of_mem hs) _ (List.mem_map_of_mem List.mem_cons_self)
      obtain ⟨id₁, hid₁, hv⟩ := first.decides hlive hop hnow (hown ▸ ht) hregular hdone hnew hu
      have hdone' : ∀ t ∈ done ++ [products[i]], Record.IsProductKey t.key := by
        intro t ht
        rcases List.mem_append.1 ht with hold | hnew
        · exact hdone t hold
        · obtain rfl := List.mem_singleton.1 hnew
          exact hregular.key
      have hid₁' : id₁ = id ∨ ∃ n < (i :: order).length, id₁ = u.names.lastOf draws n :=
        hid₁.imp_right fun hfresh => ⟨0, Nat.succ_pos _, hfresh⟩
      by_cases hend : order = []
      · subst hend
        obtain rfl : xs = [] := List.map_eq_nil_iff.1 hxs
        cases rest
        exact ⟨id₁, hid₁', by rw [hv, Traits.select, List.filterMap_nil, List.append_nil]⟩
      · -- what the first one has left is active, so the next one goes on with it
        have hu' : ∀ k, k ≠ Record.expireKey → (v.medium.liveAt now timeOut).get? k
            = (Record.decidedBy (done ++ [products[i]]) now id₁ live).get? k := by
          intro k hk
          rw [hv, Record.liveAt_of_active (hlive.isActive_decidedBy hdone'),
            Record.get?_expand hk]
        obtain ⟨id', hid', hw⟩ := ih hxs hend ((first.traitsOf_own hop).trans hown) hrest hdone'
          hdistinct hu'
        refine ⟨id', ?_, hw⟩
        rcases hid' with rfl | ⟨n, hn, rfl⟩
        · exact hid₁'
        · refine .inr ⟨n + 1, Nat.succ_lt_succ hn, ?_⟩
          rw [first.eq_world, Supply.lastOf_skip]

end

namespace Traits

theorem select_range (products : List Traits) :
    select products (List.range products.length) = products := by
  induction products with
  | nil => rfl
  | cons t products ih =>
    rw [select, List.length_cons, List.range_succ_eq_map, List.filterMap_cons_some (by rfl),
      List.filterMap_map]
    exact congrArg (t :: ·) ih

/-- All products in another order. -/
theorem select_perm (products : List Traits) {order : List Nat}
    (h : order.Perm (List.range products.length)) : (select products order).Perm products := by
  have hselect := h.filterMap (products[·]?)
  rwa [← select, ← select, select_range] at hselect

end Traits

/-! ## Whole runs -/

namespace Service

variable {μ : Type} {m : Medium μ} {view : μ → Record} {policy : LockPolicy}

/-- Each of so many products is to be active once, in some order, all at one moment. -/
def IsRound (now : Timestamp) (count : Nat) (batches : List (Batch (List Product))) : Prop :=
  ∃ order : List Nat, order.Perm (List.range count) ∧
    (batches.flatMap Batch.commissions).map (fun c => (c.op, c.now))
      = order.map fun i => (Request.expandOrRenew.operation.onIndex i, now)

/-- The record that is left when a writer has served all that was submitted. -/
def recordAfter (m : Medium μ) (view : μ → Record) (policy : LockPolicy)
    (batches : List (Batch (List Product))) (w : World μ (List Product)) : Record :=
  view ((start policy w).run m (batches.flatMap Batch.turns)).world.medium

theorem recordAfter_eq (hm : m.IsReliable view) (htries : 1 ≤ policy.maxTries)
    (hexpiration : 1 ≤ policy.expirationDelay.millis) {now : Timestamp}
    (hnow : now.millis < 9223372036854775807) {timeOut : Span} (htimeOut : 1 ≤ timeOut.millis)
    {products : List Traits} (hsome : products ≠ [])
    (hproducts : ∀ t ∈ products, t.IsRegular timeOut)
    (hdistinct : (products.map Traits.key).Nodup) {w : World μ (List Product)}
    (hown : traitsOf w.own = products) (hfree : (view w.medium).lock? = none)
    {batches : List (Batch (List Product))} (hround : IsRound now products.length batches) :
    ∃ n < products.length, recordAfter m view policy batches w
      = (Record.decidedBy products now (w.names.lastOf m.draws n)
          ((view w.medium).liveAt now timeOut)).expand now policy.expirationDelay := by
  obtain ⟨order, horder, hbatches⟩ := hround
  obtain ⟨xs, hcommissions, hdid⟩ := exists_did_run hm htries hfree batches
  have hselect := Traits.select_perm products horder
  have hactive : AreActive now order xs := by
    unfold AreActive
    rw [← hbatches, ← hcommissions, List.map_map]
    rfl
  have hlive : ((view w.medium).liveAt now timeOut).IsRenewable now policy.expirationDelay
      timeOut := by
    refine ⟨Record.isActive_liveAt _ _ _, ?_, ?_, hnow, hexpiration, htimeOut⟩
    · rcases (view w.medium).liveAt_cases now timeOut with h | h
      · rw [h, hfree]
      · rw [h]
        exact Record.get?_empty _
    · rcases (view w.medium).liveAt_cases now timeOut with h | h
      · rw [h, hm.get?_view_empty]
      · rw [h]
        exact Record.get?_empty _
  have hrange : ∀ i ∈ order, i < products.length :=
    fun i hi => List.mem_range.1 (horder.mem_iff.1 hi)
  have hlength : order.length = products.length := by
    rw [horder.length_eq, List.length_range]
  have hpos : 0 < products.length := List.length_pos_iff.2 hsome
  have hfirst : ∀ k, k ≠ Record.expireKey → ((view w.medium).liveAt now timeOut).get? k
      = (Record.decidedBy [] now (w.names.lastOf m.draws 0)
          ((view w.medium).liveAt now timeOut)).get? k := by
    intro k _
    rw [Record.decidedBy_nil]
  obtain ⟨id, hid, hmedium⟩ := hdid.isCourse.decidedBy hlive hactive
    (List.length_pos_iff.1 (hlength ▸ hpos)) hown hproducts hrange (List.forall_mem_nil _)
    ((hselect.map Traits.key).nodup_iff.2 hdistinct) hfirst
  have hdrawn : ∃ n < products.length, id = w.names.lastOf m.draws n := by
    rcases hid with rfl | ⟨n, hn, rfl⟩
    · exact ⟨0, hpos, rfl⟩
    · exact ⟨n, hlength ▸ hn, rfl⟩
  obtain ⟨n, hn, rfl⟩ := hdrawn
  refine ⟨n, hn, ?_⟩
  rw [← Record.decidedBy_perm hselect ((hselect.map Traits.key).nodup_iff.2 hdistinct)]
  exact hmedium

/-- The order of the products does not matter. Products of one writer with different keys, a common
time-out and decisions that depend on nothing but their words are active at one moment, each once,
while nobody else writes and no lock is there.

What is left is the live session with the decision of each product about its own word in it, and
with a new deadline. It gets an identifier, and with it this moment as its date, exactly if it had
none and some product tracks it; the identifier is a name that was drawn for one of the products.

In another order and with other caches the same record is left, but for which name it is. -/
theorem decided_in_any_order (hm : m.IsReliable view) (htries : 1 ≤ policy.maxTries)
    (hexpiration : 1 ≤ policy.expirationDelay.millis) (now : Timestamp)
    (hnow : now.millis < 9223372036854775807) (timeOut : Span) (htimeOut : 1 ≤ timeOut.millis)
    (products : List Traits) (hsome : products ≠ [])
    (hproducts : ∀ t ∈ products, t.IsRegular timeOut)
    (hdistinct : (products.map Traits.key).Nodup) (w w' : World μ (List Product))
    (hown : traitsOf w.own = products) (hown' : traitsOf w'.own = products)
    (hsame : view w'.medium = view w.medium) (hfree : (view w.medium).lock? = none)
    (batches batches' : List (Batch (List Product)))
    (hround : IsRound now products.length batches)
    (hround' : IsRound now products.length batches') :
    (∃ n < products.length, recordAfter m view policy batches w
      = (Record.decidedBy products now (w.names.lastOf m.draws n)
          ((view w.medium).liveAt now timeOut)).expand now policy.expirationDelay) ∧
    (recordAfter m view policy batches w).erase Record.idKey
      = (recordAfter m view policy batches' w').erase Record.idKey := by
  obtain ⟨n, hn, hrecord⟩ := recordAfter_eq hm htries hexpiration hnow htimeOut hsome hproducts
    hdistinct hown hfree hround
  obtain ⟨n', -, hrecord'⟩ := recordAfter_eq hm htries hexpiration hnow htimeOut hsome hproducts
    hdistinct hown' (hsame ▸ hfree) hround'
  refine ⟨⟨n, hn, hrecord⟩, ?_⟩
  rw [hrecord, hrecord', hsame]
  exact Record.erase_decidedBy products now _ _ _ _

/-- A host with a product that tracks every session and one that goes on as it did before, over a
session that has no identifier. -/
def activeHost (caches : Record) : World (Option String) (List Product) where
  medium := some "b=0&created=0&expire=10&w=2"
  own :=
    [.new "a" (fun _ _ => .sampledIn) (.ofMillis 900) .epoch caches,
      .new "b" (fun _ prior => if prior = some "1" then .sampledIn else .sampledOut) (.ofMillis 900)
        .epoch caches]
  names := .tallies

/-- Both products are active, the first one first, in one batch. -/
def forwards : List (Batch (List Product)) :=
  [⟨[(Request.expandOrRenew.operation.onIndex 0, true),
    (Request.expandOrRenew.operation.onIndex 1, false)], Timestamp.epoch.add 5, 5⟩]

/-- Both products are active, the second one first, in batches of their own. -/
def backwards : List (Batch (List Product)) :=
  [⟨[(Request.expandOrRenew.operation.onIndex 1, false)], Timestamp.epoch.add 5, 5⟩,
    ⟨[(Request.expandOrRenew.operation.onIndex 0, true)], Timestamp.epoch.add 5, 6⟩]

theorem decided_forwards_and_backwards :
    (∃ n < 2, recordAfter (.memory true) Record.ofStored singleTry forwards (activeHost ∅)
      = (Record.decidedBy (traitsOf (activeHost ∅).own) (Timestamp.epoch.add 5)
          (Supply.tallies.lastOf 2 n) (Record.ofStored (activeHost ∅).medium)).expand
            (Timestamp.epoch.add 5) (.ofMillis 900)) ∧
    (recordAfter (.memory true) Record.ofStored singleTry forwards
        (activeHost ∅)).erase Record.idKey
      = (recordAfter (.memory true) Record.ofStored singleTry backwards
          (activeHost (Record.ofList [("b", "1"), ("id", "x")]))).erase Record.idKey := by
  have hproducts : ∀ t ∈ traitsOf (activeHost ∅).own, t.IsRegular (.ofMillis 900) := by
    intro t ht
    rcases List.mem_pair.1 ht with rfl | rfl
    · exact ⟨by decide, rfl, fun _ => rfl⟩
    · exact ⟨by decide, rfl, fun _ => rfl⟩
  have hactive : (Record.ofStored (activeHost ∅).medium).isActive (Timestamp.epoch.add 5)
      (.ofMillis 900) = true := by decide +kernel
  obtain ⟨⟨n, hn, hrecord⟩, hsame⟩ := decided_in_any_order (Medium.memory_isReliable true)
    (show 1 ≤ singleTry.maxTries by decide) (by decide) (Timestamp.epoch.add 5) (by decide)
    (.ofMillis 900) (by decide) (traitsOf (activeHost ∅).own) (List.cons_ne_nil _ _) hproducts
    (by decide) (activeHost ∅) (activeHost (Record.ofList [("b", "1"), ("id", "x")])) rfl rfl rfl
    (by decide +kernel) forwards backwards ⟨[0, 1], by decide, rfl⟩ ⟨[1, 0], by decide, rfl⟩
  rw [Record.liveAt_of_active hactive] at hrecord
  exact ⟨⟨n, hn, hrecord⟩, hsame⟩

end Service

end SharedSession
