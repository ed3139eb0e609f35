import SharedSession.Proofs.Product.Agenda

set_option autoImplicit false

/-!
# What products announce

Whatever a product learns, it announces one thing at most: that its session is over, when the record
does not hold it any more, or that a session begins, when its own activity has settled without one.
Only in the latter case does it take the record for its cache without comparing it with what it has.

Main statements: `Product.Learns`, `Contest.Passage.contact`, `Contest.Contact.learns`,
`Gathering.contact_incur`.
-/

namespace SharedSession

/-- The session that a notice is about. -/
def Notice.id? : Notice → Option String
  | .renewed id => id
  | .expired id => id

namespace Product

theorem hasSession_eq (p : Product) : p.hasSession = (p.cache.get? p.key).isSome :=
  Record.contains_eq p.cache p.key

/-- What becomes of a product that learns something. If its activity has settled, then with a record
of a certain kind. -/
inductive Learns (P : Record → Prop) (p q : Product) : Prop where
  /-- it announces nothing, and its session is the same as before -/
  | quietly (hnotices : q.notices = p.notices) (hid : q.cache.id? = p.cache.id?)
      (hsession : q.hasSession = p.hasSession)
  /-- it goes on, with what its activity has settled with -/
  | following {r : Record} (hr : P r) (hnotices : q.notices = p.notices) (hcache : q.cache = r)
      (hbefore : p.isTracking = false ∨ p.hasSession = true)
  /-- it begins a session, with what its activity has settled with -/
  | renewing {r : Record} (hr : P r) (hnotices : q.notices = .renewed r.id? :: p.notices)
      (hcache : q.cache = r) (hbefore : p.hasSession = false)
  /-- it had a session and announces its end, and its cache is empty -/
  | expiring (hnotices : q.notices = .expired p.cache.id? :: p.notices)
      (hbefore : p.hasSession = true) (hafter : q.cache = ∅)

variable {P : Record → Prop} {p q : Product}

theorem learns_refl (P : Record → Prop) (p : Product) : p.Learns P p := .quietly rfl rfl rfl

/-- What neither announces anything nor touches the cache makes no difference. -/
theorem Learns.of_cache_eq (h : p.Learns P q) {q' : Product} (hkey : q'.key = q.key)
    (hcache : q'.cache = q.cache) (hnotices : q'.notices = q.notices) : p.Learns P q' := by
  have hsession : q'.hasSession = q.hasSession := by
    rw [hasSession_eq, hasSession_eq, hkey, hcache]
  cases h with
  | quietly hsame hid hbefore =>
    exact .quietly (hnotices.trans hsame) (by rw [hcache, hid]) (hsession.trans hbefore)
  | following hr hsame hafter hbefore =>
    exact .following hr (hnotices.trans hsame) (hcache.trans hafter) hbefore
  | renewing hr hnew hafter hbefore =>
    exact .renewing hr (hnotices.trans hnew) (hcache.trans hafter) hbefore
  | expiring hnew hbefore hafter =>
    exact .expiring (hnotices.trans hnew) hbefore (hcache.trans hafter)

/-- A session is followed as long as it is the same, and ends otherwise. -/
theorem learns_synchronize (P : Record → Prop) (p : Product) (now : Timestamp) (r : Record) :
    p.Learns P (p.synchronize now r) := by
  unfold synchronize
  dsimp only
  split
  · next hsession =>
    split
    · exact .expiring rfl hsession rfl
    · next hsame =>
      -- the record holds the identifier and the word that the cache does
      simp only [isOutdatedBy, Bool.or_eq_true, bne_iff_ne, not_or, not_not] at hsame
      refine .quietly rfl hsame.1.symm ?_
      rw [hasSession_eq, hasSession_eq, hsame.2]
  · exact learns_refl P p

theorem learns_renewSettled {r : Record} (hr : P r) (now : Timestamp) :
    p.Learns P (renewSettled now r p) := by
  unfold renewSettled
  split
  · next hbegins =>
    rw [Bool.and_eq_true, Bool.not_eq_true'] at hbegins
    exact .renewing hr rfl rfl hbegins.2
  · next hgoes =>
    refine .following hr rfl rfl ?_
    rw [Bool.and_eq_true, Bool.not_eq_true', not_and, Bool.not_eq_false] at hgoes
    cases htracking : p.isTracking with
    | false => exact .inl rfl
    | true => exact .inr (hgoes htracking)

end Product

namespace Request

variable (q : Request) (o : Occasion) (now : Timestamp) (r : Record) (p : Product)

theorem learns_transform (P : Record → Prop) :
    p.Learns P (q.operation.transform o r p).2 := by
  have hanswers := q.answers_transform o r p
  generalize q.operation.transform o r p = x at hanswers ⊢
  cases hanswers with
  | renewing => exact (p.learns_synchronize P o.now r).of_cache_eq rfl rfl rfl
  | prolonging => exact p.learns_synchronize P o.now r
  | _ => exact p.learns_refl P

theorem learns_settle {P : Record → Prop} (hr : q = .expandOrRenew → P r) :
    p.Learns P (q.operation.settle now r p) := by
  cases q with
  | expandOrRenew => exact Product.learns_renewSettled (hr rfl) now
  | expand => exact p.learns_refl P
  | watch => exact p.learns_synchronize P now r
  | expire => exact p.learns_synchronize P now ∅

/-- Who decides to leave the record as it is stays as it is, and has neither seen activity nor is to
end the session. -/
theorem transform_of_unchanged (h : (q.operation.transform o r p).1 = .unchanged) :
    (q.operation.transform o r p).2 = p ∧ q ≠ .expandOrRenew ∧ q ≠ .expire := by
  have hanswers := q.answers_transform o r p
  generalize q.operation.transform o r p = x at hanswers h ⊢
  cases hanswers with
  | abstaining => exact ⟨rfl, nofun, nofun⟩
  | keeping => exact ⟨rfl, nofun, nofun⟩
  | _ => cases h

/-- Who announces an end when it is asked has found it in the record. -/
theorem synchronize_of_transform {id : Option String}
    (h : (q.operation.transform o r p).2.notices = .expired id :: p.notices) :
    (p.synchronize o.now r).notices = .expired id :: p.notices := by
  have hanswers := q.answers_transform o r p
  generalize q.operation.transform o r p = x at hanswers h
  cases hanswers with
  | renewing => exact h
  | prolonging => exact h
  | _ => exact absurd h.symm (List.cons_ne_self _ _)

/-- So has who announces it when it is told, if the wish to end the session settles with nothing. -/
theorem synchronize_of_settle {id : Option String} (hexpire : q = .expire → r = ∅)
    (h : (q.operation.settle now r p).notices = .expired id :: p.notices) :
    (p.synchronize now r).notices = .expired id :: p.notices := by
  cases q with
  | expandOrRenew =>
    change (Product.renewSettled now r p).notices = _ at h
    unfold Product.renewSettled at h
    split at h
    · cases (List.cons.inj h).1
    · exact absurd h.symm (List.cons_ne_self _ _)
  | expand => exact absurd h.symm (List.cons_ne_self _ _)
  | watch => exact h
  | expire =>
    obtain rfl := hexpire rfl
    exact h

theorem transform_onIndex_of_unchanged {q : Request} {k : Nat} {o : Occasion} {r : Record}
    {ps own : List Product} (h : (q.operation.onIndex k).transform o r ps = (.unchanged, own)) :
    own = ps := by
  cases hp : ps[k]? with
  | none =>
    rw [Operation.transform_onIndex_of_none hp] at h
    exact (Prod.mk.inj h).2.symm
  | some p =>
    rw [Operation.transform_onIndex_of_some hp] at h
    obtain ⟨hanswer, rfl⟩ := Prod.mk.inj h
    obtain ⟨hlt, rfl⟩ := List.getElem?_eq_some_iff.1 hp
    rw [(q.transform_of_unchanged o r _ hanswer).1]
    exact List.set_getElem_self hlt

/-- Activity wants a record stored, with the product's word, and never anything else. -/
theorem exists_resolve_of_renewal (hkey : Record.IsPlainKey p.key) (now : Timestamp) (d : Span) :
    ∃ s, (expandOrRenew.operation.transform o r p).1.resolve now d = .persist s ∧
      (s.get? p.key).isSome := by
  refine ⟨_, Outcome.resolve_persist_of_not_cleared now d
    (Product.isCleared_record _ _ _ _ hkey), ?_⟩
  rw [Record.get?_expand hkey.notExpire, Record.get?_withoutLock hkey.notLock]
  exact Product.isSome_get?_record _ _ _ _

end Request

/-! ## Sessions that begin -/

namespace Product

/-- The sessions that the product announced as begun, latest first. -/
def beginnings (p : Product) : List Notice := p.notices.filter Notice.isRenewal

@[simp] theorem beginnings_synchronize (p : Product) (now : Timestamp) (r : Record) :
    (p.synchronize now r).beginnings = p.beginnings := by
  rcases synchronize_cases p now r with h | h | h
  · rw [h]
  · rw [h]
    rfl
  · rw [h]
    rfl

/-- To be asked begins nothing. -/
theorem beginnings_transform (q : Request) (o : Occasion) (r : Record) (p : Product) :
    (q.operation.transform o r p).2.beginnings = p.beginnings := by
  have hanswers := q.answers_transform o r p
  generalize q.operation.transform o r p = x at hanswers ⊢
  cases hanswers with
  | renewing => exact beginnings_synchronize p o.now r
  | prolonging => exact beginnings_synchronize p o.now r
  | _ => rfl

/-- Only the request of activity begins something when it settles. -/
theorem beginnings_settle {q : Request} (hq : q ≠ .expandOrRenew) (now : Timestamp) (r : Record)
    (p : Product) : (q.operation.settle now r p).beginnings = p.beginnings := by
  cases q with
  | expandOrRenew => exact absurd rfl hq
  | expand => rfl
  | watch => exact beginnings_synchronize p now r
  | expire => exact beginnings_synchronize p now ∅

end Product

/-! ## Calls -/

/-- The record that the operation settles with at the next call. -/
def Stage.settling? : Stage → Option Record
  | .clearing => some ∅
  | .releasing r => some r
  | _ => none

theorem Stage.Bears.settling {P : Record → Prop} {seen : Record} {s : Stage}
    (h : s.Bears (Outcome.Stores P) seen) : ∀ r ∈ s.settling?, P r := by
  intro r hr
  cases s with
  | clearing => exact h.elim
  | releasing r' =>
    cases hr
    exact h
  | _ => cases hr

namespace Contest

/-- What a call does to the product whose request it is for: from what the product was to what it is,
and to what is in the cell then. -/
inductive Contact (q : Request) (now : Timestamp) (fresh : String) (cell : Option String)
    (s : Stage) (p : Product) : Product → Option String → Prop where
  /-- its decision is asked for -/
  | asked : Contact q now fresh cell s p
      (q.operation.transform ⟨now, fresh⟩ (Record.ofStored cell).withoutLock p).2 cell
  /-- it is told what its request has settled with -/
  | told {r : Record} (hr : r ∈ s.settling?) :
      Contact q now fresh cell s p (q.operation.settle now r p) r.stored
  /-- it wants nothing done, and is told so at once -/
  | spared
      (hanswer : (q.operation.transform ⟨now, fresh⟩ (Record.ofStored cell).withoutLock p).1
        = .unchanged) :
      Contact q now fresh cell s p
        (q.operation.settle now (Record.ofStored cell).withoutLock p) cell

namespace Passage

variable {locking : Bool} {d : Span} {now : Timestamp} {fresh : String}
  {cell cell' : Option String} {x x' : List Product} {s s' : Stage} {j k : Nat} {p : Product}
  {q : Request} {P : Record → Prop}

/-- A call leaves a product as it is, or it is for the product's own request. -/
theorem contact (hp : x[j]? = some p)
    (h : Passage locking (q.operation.onIndex k) d now fresh cell x s s' x' cell') :
    ∃ p', x'[j]? = some p' ∧ (p' = p ∨ k = j ∧ Contact q now fresh cell s p p' cell') := by
  have hstays : ∃ p', x[j]? = some p' ∧ (p' = p ∨ k = j ∧ Contact q now fresh cell s p p' cell') :=
    ⟨p, hp, .inl rfl⟩
  have hasks : ∀ {answer : Outcome} {x' : List Product},
      (q.operation.onIndex k).transform ⟨now, fresh⟩ (Record.ofStored cell).withoutLock x
        = (answer, x') →
      ∃ p', x'[j]? = some p' ∧ (p' = p ∨ k = j ∧ Contact q now fresh cell s p p' cell) := by
    intro answer x' hanswer
    have hget := q.operation.getElem?_transform_onIndex k j x ⟨now, fresh⟩
      (Record.ofStored cell).withoutLock
    rw [hanswer, hp, Option.map_some] at hget
    refine ⟨_, hget, ?_⟩
    split
    · next hkj => exact .inr ⟨hkj, .asked⟩
    · exact .inl rfl
  have htold : ∀ r : Record, (k = j → Contact q now fresh cell s p (q.operation.settle now r p) cell') →
      ∃ p', ((q.operation.onIndex k).settle now r x)[j]? = some p' ∧
        (p' = p ∨ k = j ∧ Contact q now fresh cell s p p' cell') := by
    intro r hr
    have hget := q.operation.getElem?_settle_onIndex k j x now r
    rw [hp, Option.map_some] at hget
    refine ⟨_, hget, ?_⟩
    split
    · next hkj => exact .inr ⟨hkj, hr hkj⟩
    · exact .inl rfl
  cases h with
  | consulted _ hanswer => exact hasks hanswer
  | cleared => exact htold ∅ fun _ => .told (r := ∅) rfl
  | @released r => exact htold r fun _ => .told rfl
  | storing _ hanswer hresolve => exact hasks hanswer
  | removing _ hanswer hresolve => exact hasks hanswer
  | kept _ hanswer hresolve =>
    obtain rfl := Outcome.eq_unchanged_of_resolve hresolve
    obtain rfl := Request.transform_onIndex_of_unchanged hanswer
    refine htold _ fun hkj => .spared ?_
    rw [Operation.transform_onIndex_of_some (hkj ▸ hp)] at hanswer
    exact congrArg Prod.fst hanswer
  | _ => exact hstays

end Passage

/-- A product learns one thing at most from a call. -/
theorem Contact.learns {q : Request} {now : Timestamp} {fresh : String} {cell cell' : Option String}
    {s : Stage} {p p' : Product} {P : Record → Prop} (h : Contact q now fresh cell s p p' cell')
    (hsettling : q = .expandOrRenew → ∀ r ∈ s.settling?, P r) :
    p'.traits = p.traits ∧ p.Learns P p' := by
  cases h with
  | asked => exact ⟨q.traits_transform _ _ p, q.learns_transform _ _ p P⟩
  | @told r hr =>
    exact ⟨q.traits_settle now r p, q.learns_settle now r p fun hq => hsettling hq r hr⟩
  | spared hanswer =>
    refine ⟨q.traits_settle now _ p, q.learns_settle now _ p fun hq => ?_⟩
    exact absurd hq (q.transform_of_unchanged _ _ p hanswer).2.1

end Contest

/-! ## Whatever happens -/

namespace Gathering

open Contest

variable {κ : Type} [DecidableEq κ] {c : Contest κ (List Product)} {i : κ} {j : Nat} {p : Product}
  {P : Record → Prop}

/-- Whatever happens leaves a product as it is, or makes it give up, or is a call for a request of
its own. -/
theorem contact_incur (g : Gathering κ) (hp : (c.writers i).own[j]? = some p) (e : Incident κ) :
    ∃ p', ((g.incur c e).writers i).own[j]? = some p' ∧
      (p' = p ∨ (∃ now, e = .giveUp i j now ∧ p' = p.synchronize now ∅) ∨
        ∃ now q, e = .move (.call i now) ∧ c.request? g.agenda i = some (j, q) ∧
          Contact q now c.names.next c.cell (c.writers i).stage p p' (g.incur c e).cell) := by
  cases e with
  | move m =>
    cases m with
    | call k now =>
      by_cases hik : i = k
      · subst hik
        show ∃ p', ((c.callOn g.locking g.work i now).writers i).own[j]? = some p' ∧ _
        cases hcurrent : c.current? g.work i with
        | none =>
          rw [callOn_of_idle hcurrent]
          exact ⟨p, hp, .inl rfl⟩
        | some op =>
          have hpassage := passage_callOn hcurrent g.locking now
          rw [work, current?_ofRequests] at hcurrent
          obtain ⟨⟨k, q⟩, hrequest, rfl⟩ := Option.map_eq_some_iff.1 hcurrent
          obtain ⟨p', hp', rfl | ⟨rfl, hcontact⟩⟩ := hpassage.contact hp
          · exact ⟨p', hp', .inl rfl⟩
          · exact ⟨p', hp', .inr (.inr ⟨now, q, rfl, hrequest, hcontact⟩)⟩
      · refine ⟨p, ?_, .inl rfl⟩
        show ((c.callOn g.locking g.work k now).writers i).own[j]? = some p
        rwa [writers_callOn_of_ne g.locking g.work c k now hik]
    | overwrite raw => exact ⟨p, hp, .inl rfl⟩
  | giveUp k l now =>
    refine ⟨_, (c.getElem?_amend k l _ i j).trans (by rw [hp, Option.map_some]), ?_⟩
    split
    · next hsame => exact .inr (.inl ⟨now, by rw [hsame.1, hsame.2], rfl⟩)
    · exact .inl rfl

/-- A product learns one thing at most from whatever happens. -/
theorem learns_incur (g : Gathering κ) (hp : (c.writers i).own[j]? = some p)
    (hsettling : c.request? g.agenda i = some (j, .expandOrRenew) →
      ∀ r ∈ (c.writers i).stage.settling?, P r) (e : Incident κ) :
    ∃ p', ((g.incur c e).writers i).own[j]? = some p' ∧ p'.traits = p.traits ∧ p.Learns P p' := by
  obtain ⟨p', hp', rfl | ⟨now, -, rfl⟩ | ⟨now, q, -, hrequest, hcontact⟩⟩ := g.contact_incur hp e
  · exact ⟨p', hp', rfl, p'.learns_refl P⟩
  · exact ⟨_, hp', p.traits_synchronize now ∅, p.learns_synchronize P now ∅⟩
  · refine ⟨p', hp', hcontact.learns ?_⟩
    rintro rfl
    exact hsettling hrequest

end Gathering

end SharedSession
