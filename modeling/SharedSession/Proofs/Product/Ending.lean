import SharedSession.Proofs.Product.Notices
import SharedSession.Proofs.Storage.Succession

set_option autoImplicit false

/-!
# A session that has ended for good

A product that has announced the end of a session announces neither its end nor its renewal again,
if the session is over at that moment wherever it could come back from: it is not live in the cell,
nobody has it in hand to store it, and no session to come gets its identifier. Then nobody will find
it live any more, and what nobody finds live nobody stores.

A call announces an end only where the session is over in the cell, unless it finds another word of
the product there. But a product that gives up ends its session while it is live in the cell for
everybody else: its next activity begins the session anew, and the end of that is announced like the
first one.

Main statements: `Contest.Contact.exists_synchronize`, `Gathering.IsOver.incur`,
`Gathering.ended_for_good`, `Gathering.ended_twice`.
-/

namespace SharedSession

/-! ## Records without a session -/

namespace Record

/-- The session is not live in the record at a moment, nor at any later one. -/
def IsSpent (id : String) (u : Timestamp) (timeOut : Span) (r : Record) : Prop :=
  r.id? = some id → r.isActive u timeOut = false

variable {id : String} {u now : Timestamp} {timeOut : Span} {r s : Record}

theorem isSpent_of_id?_ne (h : r.id? ≠ some id) : r.IsSpent id u timeOut :=
  fun heq => absurd heq h

theorem id?_empty_ne (id : String) : (∅ : Record).id? ≠ some id := by
  rw [id?, get?_empty]
  exact (Option.some_ne_none id).symm

theorem isSpent_empty : (∅ : Record).IsSpent id u timeOut :=
  isSpent_of_id?_ne (id?_empty_ne id)

theorem IsSpent.of_life (h : r.IsSpent id u timeOut) (hlife : s.life = r.life) :
    s.IsSpent id u timeOut := by
  intro hid
  rw [isActive_of_life hlife]
  exact h ((congrArg Life.id hlife).symm.trans hid)

theorem IsSpent.mono (h : r.IsSpent id u timeOut) (hle : u ≤ now) : r.IsSpent id now timeOut :=
  fun hid => isActive_eq_false_of_le hle (h hid)

theorem isLasting_isSpent (id : String) (u : Timestamp) (timeOut : Span) :
    IsLasting (IsSpent id u timeOut) where
  withLock r token h := h.of_life (life_withLock r token)
  withoutLock r h := h.of_life (life_withoutLock r)
  stored r h := h.of_life (life_ofStored_stored r)

theorem isLasting_id?_ne (id : String) : IsLasting fun r => r.id? ≠ some id where
  withLock r token h := by rwa [id?, get?_withLock (by decide)]
  withoutLock r h := by rwa [id?, get?_withoutLock (by decide)]
  stored r h := by rwa [id?, get?_ofStored_stored r (by decide)]

end Record

/-- Nobody stores a session that is not live in the record that is found. -/
theorem Request.id?_ne_of_resolve {id : String} {q : Request} {o : Occasion} {r s : Record}
    {p : Product} (hkey : Record.IsProductKey p.key) (hfresh : o.fresh ≠ id)
    (hspent : r.IsSpent id o.now p.timeOut) {now : Timestamp} {d : Span}
    (h : (q.operation.transform o r p).1.resolve now d = .persist s) : s.id? ≠ some id := by
  obtain ⟨t, ht, hcleared, rfl⟩ := Outcome.eq_of_resolve_persist h
  have hid : ∀ now, (t.withoutLock.expand now d).id? = t.id? := by
    intro now
    rw [Record.id?, Record.get?_expand (by decide), Record.get?_withoutLock (by decide)]
    rfl
  have hnow : (q.operation.transform o r p).1.resolve o.now d
      = .persist (t.withoutLock.expand o.now d) := by
    rw [ht]
    exact Outcome.resolve_persist_of_not_cleared o.now d hcleared
  have hcases := q.stored_cases o r p hkey hnow
  rw [hid] at hcases ⊢
  rcases hcases with hnone | hnew | ⟨hactive, hsame, -⟩
  · rw [hnone]
    exact (Option.some_ne_none id).symm
  · rw [hnew]
    exact fun heq => hfresh (Option.some.inj heq)
  · rw [hsame]
    intro heq
    rw [hspent heq] at hactive
    cases hactive

/-! ## Announcements of an end -/

namespace Product

variable {id : String} {now : Timestamp} {r s : Record} {p q : Product}

/-- A product does not find its session in a record: it is not live there, or the product's word is
another one. -/
def Misses (p : Product) (id : String) (now : Timestamp) (r : Record) : Prop :=
  r.IsSpent id now p.timeOut ∨ r.id? = some id ∧ r.get? p.key ≠ p.cache.get? p.key

theorem Misses.congr (h : p.Misses id now r) (hlife : s.life = r.life)
    (hword : s.get? p.key = r.get? p.key) : p.Misses id now s := by
  refine h.imp (·.of_life hlife) ?_
  rintro ⟨hid, hne⟩
  exact ⟨(congrArg Life.id hlife).trans hid, hword ▸ hne⟩

/-- Who announces the end of a session has missed it in the record. -/
theorem misses_of_synchronize
    (h : (p.synchronize now r).notices = .expired (some id) :: p.notices) : p.Misses id now r := by
  unfold synchronize at h
  dsimp only at h
  split at h
  · split at h
    · next houtdated =>
      have hid : p.cache.id? = some id := Notice.expired.inj (List.cons.inj h).1
      cases hactive : r.isActive now p.timeOut with
      | false => exact .inl fun _ => hactive
      | true =>
        rw [Record.liveAt_of_active hactive] at houtdated
        simp only [isOutdatedBy, Bool.or_eq_true, bne_iff_ne, hid] at houtdated
        rcases houtdated with hother | hother
        · exact .inl (Record.isSpent_of_id?_ne hother.symm)
        · by_cases hsame : r.id? = some id
          · exact .inr ⟨hsame, hother.symm⟩
          · exact .inl (Record.isSpent_of_id?_ne hsame)
    · exact absurd h.symm (List.cons_ne_self _ _)
  · exact absurd h.symm (List.cons_ne_self _ _)

end Product

namespace Contest

variable {q : Request} {now : Timestamp} {fresh : String} {cell cell' : Option String} {s : Stage}
  {p p' : Product}

/-- Who announces an end in a call has found it in what the call leaves in the cell, whatever the
lock is there. -/
theorem Contact.exists_synchronize (h : Contact q now fresh cell s p p' cell')
    (hkey : Record.IsProductKey p.key) (hexpire : q = .expire → ∀ r, s ≠ .releasing r)
    {id : Option String} (hended : p'.notices = .expired id :: p.notices) :
    ∃ r, (p.synchronize now r).notices = .expired id :: p.notices ∧
      (Record.ofStored cell').life = r.life ∧
      (Record.ofStored cell').get? p.key = r.get? p.key := by
  have hlife : (Record.ofStored cell).life = (Record.ofStored cell).withoutLock.life :=
    (Record.life_withoutLock _).symm
  have hword : (Record.ofStored cell).get? p.key = (Record.ofStored cell).withoutLock.get? p.key :=
    (Record.get?_withoutLock hkey.notLock).symm
  cases h with
  | asked =>
    have hsynchronized := q.synchronize_of_transform ⟨now, fresh⟩ _ p hended
    exact ⟨_, hsynchronized, hlife, hword⟩
  | @told r hr =>
    have hempty : q = .expire → r = ∅ := by
      intro hq
      cases s with
      | clearing => exact (Option.some.inj hr).symm
      | releasing r' => exact absurd rfl (hexpire hq r')
      | _ => cases hr
    exact ⟨r, q.synchronize_of_settle now r p hempty hended, Record.life_ofStored_stored r,
      Record.get?_ofStored_stored r hkey.written⟩
  | spared hanswer =>
    refine ⟨_, q.synchronize_of_settle now _ p (fun hq => ?_) hended, hlife, hword⟩
    exact absurd hq (q.transform_of_unchanged _ _ p hanswer).2.2

end Contest

/-! ## What happens after the end -/

/-- What becomes of a product that announces nothing about a session, which it does not have. -/
structure Product.Spares (id : String) (p q : Product) : Prop where
  notices : ∃ newer, q.notices = newer ++ p.notices ∧ ∀ n ∈ newer, n.id? ≠ some id
  cache : q.cache.id? ≠ some id

namespace Product

variable {id : String} {P : Record → Prop} {p q r : Product}

theorem spares_refl (h : p.cache.id? ≠ some id) : p.Spares id p := ⟨⟨[], rfl, nofun⟩, h⟩

theorem Spares.trans (h : p.Spares id q) (h' : q.Spares id r) : p.Spares id r := by
  obtain ⟨newer, hq, hnewer⟩ := h.notices
  obtain ⟨newest, hr, hnewest⟩ := h'.notices
  refine ⟨⟨newest ++ newer, by rw [hr, hq, List.append_assoc], ?_⟩, h'.cache⟩
  intro n hn
  rcases List.mem_append.1 hn with hn | hn
  · exact hnewest n hn
  · exact hnewer n hn

/-- Who does not have the session and does not settle with it announces nothing about it. -/
theorem Learns.spares (h : p.Learns (fun r => r.id? ≠ some id) q) (hcache : p.cache.id? ≠ some id) :
    p.Spares id q := by
  have hone : ∀ {n : Notice}, n.id? ≠ some id → ∀ m ∈ [n], m.id? ≠ some id := by
    intro n hn m hm
    rwa [List.mem_singleton.1 hm]
  cases h with
  | quietly hnotices hid hsession => exact ⟨⟨[], hnotices, nofun⟩, hid ▸ hcache⟩
  | following hr hnotices hafter hbefore => exact ⟨⟨[], hnotices, nofun⟩, hafter ▸ hr⟩
  | renewing hr hnotices hafter hbefore => exact ⟨⟨[_], hnotices, hone hr⟩, hafter ▸ hr⟩
  | expiring hnotices hbefore hafter =>
    exact ⟨⟨[_], hnotices, hone hcache⟩, hafter ▸ Record.id?_empty_ne id⟩

/-- Who announces an end has nothing in its cache. -/
theorem Learns.cache_of_expired (h : p.Learns P q) {id : Option String}
    (hended : q.notices = .expired id :: p.notices) : q.cache = ∅ := by
  cases h with
  | quietly hnotices => exact absurd (hended.symm.trans hnotices) (List.cons_ne_self _ _)
  | following hr hnotices => exact absurd (hended.symm.trans hnotices) (List.cons_ne_self _ _)
  | renewing hr hnotices => cases hended.symm.trans hnotices
  | expiring hnotices hbefore hafter => exact hafter

end Product

/-- Calls come from a moment on, and what is put into the cell from outside is without the session
that is over by then. -/
def Incident.Spares {κ : Type} (id : String) (u : Timestamp) (timeOut : Span) : Incident κ → Prop
  | .move (.call _ now) => u ≤ now
  | .move (.overwrite raw) => (Record.ofStored raw).IsSpent id u timeOut
  | .giveUp _ _ _ => True

namespace Gathering

open Contest

variable {κ : Type}

/-- A session is over wherever a product could get it from again: it is not live in the cell from a
moment on, no writer is about to store it, the product's own activity does not settle with it, and
no session to come gets its identifier. -/
structure IsOver (g : Gathering κ) (i : κ) (j : Nat) (id : String) (u : Timestamp) (timeOut : Span)
    (c : Contest κ (List Product)) : Prop where
  cell : c.seen.IsSpent id u timeOut
  hands : ∀ k, (c.writers k).stage.InHand (Record.IsSpent id u timeOut) c.seen
  own : g.Carries i (j, .expandOrRenew) (Outcome.Stores fun r => r.id? ≠ some id) c
  unnamed : c.names.Avoids id

section

variable [DecidableEq κ] {g : Gathering κ} {i : κ} {j : Nat} {id : String} {u : Timestamp}
  {timeOut : Span} {c : Contest κ (List Product)} {p : Product} {e : Incident κ}

/-- Products stay proper, whatever happens. -/
theorem proper_incur (g : Gathering κ) (h : ∀ k, ∀ q ∈ (c.writers k).own, q.IsProper timeOut)
    (e : Incident κ) : ∀ k, ∀ q ∈ ((g.incur c e).writers k).own, q.IsProper timeOut := by
  intro k q hq
  have htraits : q.traits ∈ traitsOf ((g.incur c e).writers k).own := List.mem_map_of_mem hq
  rw [g.traitsOf_incur c e k] at htraits
  obtain ⟨p, hp, heq⟩ := List.mem_map.1 htraits
  exact (h k p hp).of_traits heq.symm

/-- The wish to end the session stores nothing, whatever happens. -/
theorem ends_incur (h : g.Carries i (j, .expire) (· = .clear) c) (hrightful : c.Rightful)
    (hp : (c.writers i).own[j]? = some p) (htokens : (g.incur c e).tokens.Nodup)
    (hforeign : IsForeign i (g.incur c e) [e]) :
    g.Carries i (j, .expire) (· = .clear) (g.incur c e) := by
  refine h.incur ⟨nofun, nofun, nofun⟩ nofun hrightful htokens hforeign ?_
  intro now _ answer own hanswer now' d
  rw [Operation.transform_onIndex_of_some hp] at hanswer
  cases hanswer
  rfl

/-- What holds of the writers and of one product all the time. -/
structure IsOrderly (g : Gathering κ) (i : κ) (j : Nat) (timeOut : Span)
    (c : Contest κ (List Product)) : Prop where
  rightful : c.Rightful
  proper : ∀ k, ∀ q ∈ (c.writers k).own, q.IsProper timeOut
  there : ∃ p, (c.writers i).own[j]? = some p
  /-- the wish to end the session stores nothing -/
  ends : g.Carries i (j, .expire) (· = .clear) c

theorem IsOrderly.incur (h : g.IsOrderly i j timeOut c) (e : Incident κ)
    (htokens : (g.incur c e).tokens.Nodup) (hforeign : IsForeign i (g.incur c e) [e]) :
    g.IsOrderly i j timeOut (g.incur c e) := by
  obtain ⟨p, hp⟩ := h.there
  obtain ⟨p', hp', -⟩ := g.learns_incur (P := fun _ => True) hp (fun _ _ _ => trivial) e
  exact ⟨g.rightful_incur h.rightful e, g.proper_incur h.proper e, ⟨p', hp'⟩,
    ends_incur h.ends h.rightful hp htokens hforeign⟩

theorem IsOrderly.incurAll {incidents : List (Incident κ)} (h : g.IsOrderly i j timeOut c)
    (htokens : (g.incurAll c incidents).tokens.Nodup)
    (hforeign : IsForeign i (g.incurAll c incidents) incidents) :
    g.IsOrderly i j timeOut (g.incurAll c incidents) := by
  induction incidents generalizing c with
  | nil => exact h
  | cons e incidents ih =>
    have hlater := g.suffix_journal_incurAll (g.incur c e) incidents
    have hstep := h.incur e (nodup_tokens_of_suffix hlater htokens) (hforeign.head hlater)
    exact ih hstep htokens hforeign.tail

theorem avoids_incur (g : Gathering κ) (h : c.names.Avoids id) (e : Incident κ) :
    (g.incur c e).names.Avoids id := by
  cases e with
  | move m =>
    cases m with
    | call k now =>
      show (c.callOn g.locking g.work k now).names.Avoids id
      rcases names_callOn g.locking g.work c k now with hsame | hdrawn
      · rwa [hsame]
      · rw [hdrawn]
        exact h.draw
    | overwrite raw => exact h
  | giveUp k l now => exact h

theorem avoids_incurAll (g : Gathering κ) (h : c.names.Avoids id) (incidents : List (Incident κ)) :
    (g.incurAll c incidents).names.Avoids id := by
  induction incidents generalizing c with
  | nil => exact h
  | cons e incidents ih => exact ih (g.avoids_incur h e)

omit [DecidableEq κ] in
/-- While a session is over, no product decides to store it. -/
theorem IsOver.id?_ne_of_resolve (h : g.IsOver i j id u timeOut c) (hp : p.IsProper timeOut)
    {q : Request} {now now' : Timestamp} (hle : u ≤ now) {d : Span} {s : Record}
    (hs : (q.operation.transform ⟨now, c.names.next⟩ c.seen.withoutLock p).1.resolve now' d
      = .persist s) : s.id? ≠ some id := by
  refine Request.id?_ne_of_resolve hp.key (h.unnamed _ (Nat.le_refl _)) ?_ hs
  rw [hp.timeOut]
  exact ((Record.isLasting_isSpent id u timeOut).withoutLock _ h.cell).mono hle

/-- So nobody gets it in hand. -/
theorem IsOver.sustains_callOn (h : g.IsOver i j id u timeOut c)
    (horderly : g.IsOrderly i j timeOut c) (htokens : c.tokens.Nodup) {k : κ} {now : Timestamp}
    (hle : u ≤ now) :
    (c.callOn g.locking g.work k now).Sustains (Record.IsSpent id u timeOut) := by
  have hbefore : c.Sustains (Record.IsSpent id u timeOut) :=
    ⟨horderly.rightful, h.cell, h.hands⟩
  refine hbefore.callOn (Record.isLasting_isSpent id u timeOut) htokens ?_
  intro op hcurrent _ answer own hanswer now' d
  rw [work, current?_ofRequests] at hcurrent
  obtain ⟨⟨l, q⟩, -, rfl⟩ := Option.map_eq_some_iff.1 hcurrent
  rcases Operation.transform_onIndex_cases hanswer with ⟨rfl, -⟩ | ⟨p, hp, rfl, -⟩
  · trivial
  · cases hresolve : (q.operation.transform ⟨now, c.names.next⟩ c.seen.withoutLock p).1.resolve
      now' d with
    | persist s =>
      have hproper := horderly.proper k p (List.mem_of_getElem? hp)
      have hne := h.id?_ne_of_resolve hproper hle hresolve
      exact Record.isSpent_of_id?_ne hne
    | clear => exact Record.isSpent_empty
    | unchanged => trivial

/-- A session that is over stays over, whatever happens. -/
theorem IsOver.incur (h : g.IsOver i j id u timeOut c) (horderly : g.IsOrderly i j timeOut c)
    (htokens : (g.incur c e).tokens.Nodup) (hforeign : ∀ k, IsForeign k (g.incur c e) [e])
    (hspares : e.Spares id u timeOut) : g.IsOver i j id u timeOut (g.incur c e) := by
  have hown : g.Carries i (j, .expandOrRenew) (Outcome.Stores fun r => r.id? ≠ some id)
      (g.incur c e) := by
    refine h.own.incur (Record.isLasting_id?_ne id) not_false horderly.rightful htokens
      (hforeign i) ?_
    rintro now rfl answer own hanswer now' d
    obtain ⟨p, hp⟩ := horderly.there
    have hproper := horderly.proper i p (List.mem_of_getElem? hp)
    rw [Operation.transform_onIndex_of_some hp] at hanswer
    cases hanswer
    obtain ⟨s, hs, -⟩ := Request.exists_resolve_of_renewal ⟨now, c.names.next⟩
      c.seen.withoutLock p hproper.key.toIsPlainKey now' d
    rw [hs]
    exact h.id?_ne_of_resolve hproper hspares hs
  have hearlier := g.suffix_journal_incur c e
  suffices hsustains : (g.incur c e).Sustains (Record.IsSpent id u timeOut) from
    ⟨hsustains.cell, hsustains.hands, hown, g.avoids_incur h.unnamed e⟩
  cases e with
  | move m =>
    cases m with
    | call k now =>
      exact h.sustains_callOn horderly (nodup_tokens_of_suffix hearlier htokens) hspares
    | overwrite raw =>
      refine ⟨g.rightful_incur horderly.rightful _, hspares, fun k => (h.hands k).frame ?_⟩
      exact ((hforeign k).of_subset (List.Subset.refl _) hearlier).lock?_ne horderly.rightful
  | giveUp k l now =>
    refine ⟨g.rightful_incur horderly.rightful _, h.cell, fun k' => ?_⟩
    show ((c.amend k l _).writers k').stage.InHand _ c.seen
    rw [(c.writers_amend k l _ k').2.1]
    exact h.hands k'

/-- Whatever happens while a session is over, a product that does not have it announces nothing
about it. -/
theorem IsOver.spares_incurAll {incidents : List (Incident κ)} (h : g.IsOver i j id u timeOut c)
    (horderly : g.IsOrderly i j timeOut c) (hp : (c.writers i).own[j]? = some p)
    (hcache : p.cache.id? ≠ some id) (htokens : (g.incurAll c incidents).tokens.Nodup)
    (hforeign : ∀ k, IsForeign k (g.incurAll c incidents) incidents)
    (hspares : ∀ e ∈ incidents, e.Spares id u timeOut) :
    ∃ q, ((g.incurAll c incidents).writers i).own[j]? = some q ∧ p.Spares id q := by
  induction incidents generalizing c p with
  | nil => exact ⟨p, hp, Product.spares_refl hcache⟩
  | cons e incidents ih =>
    have hlater := g.suffix_journal_incurAll (g.incur c e) incidents
    have htokens' : (g.incur c e).tokens.Nodup := nodup_tokens_of_suffix hlater htokens
    have hsettling : c.request? g.agenda i = some (j, .expandOrRenew) →
        ∀ r ∈ (c.writers i).stage.settling?, r.id? ≠ some id :=
      fun hrequest => (h.own hrequest).settling
    obtain ⟨p', hp', -, hlearns⟩ := g.learns_incur hp hsettling e
    have hfirst : p.Spares id p' := hlearns.spares hcache
    have hforeign' : ∀ k, IsForeign k (g.incur c e) [e] :=
      fun k => (hforeign k).head hlater
    have h' : g.IsOver i j id u timeOut (g.incur c e) :=
      h.incur horderly htokens' hforeign' (hspares e List.mem_cons_self)
    obtain ⟨q, hq, hrest⟩ := ih h' (horderly.incur e htokens' (hforeign' i)) hp' hfirst.cache
      htokens (fun k => (hforeign k).tail) fun f hf => hspares f (List.mem_cons_of_mem e hf)
    exact ⟨q, hq, hfirst.trans hrest⟩

/-- The end that a call announces is found in the cell. -/
theorem exists_synchronize (hends : g.Carries i (j, .expire) (· = .clear) c)
    (hp : (c.writers i).own[j]? = some p) (hkey : Record.IsProductKey p.key) {p' : Product}
    (hp' : ((g.incur c e).writers i).own[j]? = some p') {id : Option String}
    (hended : p'.notices = .expired id :: p.notices) :
    (∃ now, e = .giveUp i j now) ∨ ∃ now r, e = .move (.call i now) ∧
      (p.synchronize now r).notices = .expired id :: p.notices ∧
      (g.incur c e).seen.life = r.life ∧ (g.incur c e).seen.get? p.key = r.get? p.key := by
  obtain ⟨p'', hp'', hcases⟩ := g.contact_incur hp e
  obtain rfl := Option.some.inj (hp'.symm.trans hp'')
  rcases hcases with rfl | ⟨now, rfl, -⟩ | ⟨now, q, rfl, hrequest, hcontact⟩
  · exact absurd hended.symm (List.cons_ne_self _ _)
  · exact .inl ⟨now, rfl⟩
  · have hexpire : q = .expire → ∀ r, (c.writers i).stage ≠ .releasing r := by
      rintro rfl r hstage
      have hstored := hends hrequest
      rw [hstage] at hstored
      cases hstored
    obtain ⟨r, hr, hlife, hword⟩ := hcontact.exists_synchronize hkey hexpire hended
    exact .inr ⟨now, r, rfl, hr, hlife, hword⟩

theorem IsOrderly.misses_of_expired (h : g.IsOrderly i j timeOut c)
    (hp : (c.writers i).own[j]? = some p) {k : κ} {now : Timestamp} {p' : Product}
    (hp' : ((g.incur c (.move (.call k now))).writers i).own[j]? = some p')
    (hended : p'.notices = .expired (some id) :: p.notices) :
    p.Misses id now (g.incur c (.move (.call k now))).seen := by
  have hkey := (h.proper i p (List.mem_of_getElem? hp)).key
  rcases exists_synchronize h.ends hp hkey hp' hended with
    ⟨_, hgiveUp⟩ | ⟨now', r, hcall, hr, hlife, hword⟩
  · cases hgiveUp
  · cases hcall
    exact (Product.misses_of_synchronize hr).congr hlife hword

theorem isOrderly_amid {incidents : List (Incident κ)}
    (hproper : ∀ k, ∀ q ∈ g.products k, q.IsProper timeOut)
    (hp : ((g.amid incidents).writers i).own[j]? = some p)
    (htokens : (g.amid incidents).tokens.Nodup)
    (hforeign : IsForeign i (g.amid incidents) incidents) :
    g.IsOrderly i j timeOut (g.amid incidents) := by
  obtain ⟨p₀, hp₀, -⟩ := exists_of_traitsOf_eq (g.traitsOf_incurAll g.first incidents i) hp
  have hfirst : g.IsOrderly i j timeOut g.first :=
    ⟨rightful_start _ _ _ _, hproper, ⟨p₀, hp₀⟩, carries_first⟩
  exact hfirst.incurAll htokens hforeign

end

section

variable [DecidableEq κ]

/-- A session ends once. Writers carry out requests of their products, call by call and in any
order; texts are put into the cell from outside that carry no token of a writer, and products end
their own sessions when they have to give up. Let a product announce the end of a session.

If it does so in a call, and not because it gives up, then the session is not live in the cell, or
another word of the product stands there. And if the session is over then wherever it could come
back from, then the product announces neither its end nor its renewal ever again. -/
theorem ended_for_good (g : Gathering κ) {timeOut : Span}
    (hproper : ∀ k, ∀ q ∈ g.products k, q.IsProper timeOut) (past : List (Incident κ))
    (e : Incident κ) (future : List (Incident κ))
    (htokens : (g.amid (past ++ e :: future)).tokens.Nodup)
    (hforeign : ∀ k, IsForeign k (g.amid (past ++ e :: future)) (past ++ e :: future))
    {i : κ} {j : Nat} {p p' : Product} {id : String}
    (hp : ((g.amid past).writers i).own[j]? = some p)
    (hp' : ((g.amid (past ++ [e])).writers i).own[j]? = some p')
    (hended : p'.notices = .expired (some id) :: p.notices) :
    (∀ k now, e = .move (.call k now) → p.Misses id now (g.amid (past ++ [e])).seen) ∧
    ∀ u, g.IsOver i j id u timeOut (g.amid (past ++ [e])) →
      (∀ f ∈ future, f.Spares id u timeOut) →
        ∃ q later, ((g.amid (past ++ e :: future)).writers i).own[j]? = some q ∧
          q.notices = later ++ p'.notices ∧ ∀ n ∈ later, n.id? ≠ some id := by
  have hnow : g.amid (past ++ [e]) = g.incur (g.amid past) e := g.incurAll_append g.first past [e]
  have hwhole : g.amid (past ++ e :: future) = g.incurAll (g.incur (g.amid past) e) future :=
    g.incurAll_append g.first past (e :: future)
  rw [hnow] at hp' ⊢
  rw [hwhole] at htokens hforeign ⊢
  have hbefore := g.suffix_journal_incur (g.amid past) e
  have hafter := g.suffix_journal_incurAll (g.incur (g.amid past) e) future
  have htokens' : (g.incur (g.amid past) e).tokens.Nodup := nodup_tokens_of_suffix hafter htokens
  have hpast : g.IsOrderly i j timeOut (g.amid past) :=
    isOrderly_amid hproper hp (nodup_tokens_of_suffix hbefore htokens')
      ((hforeign i).of_subset (List.subset_append_left _ _) (hbefore.trans hafter))
  constructor
  · rintro k now rfl
    exact hpast.misses_of_expired hp hp' hended
  · intro u hover hspares
    -- the announcement has emptied the cache
    have hempty : p'.cache.id? ≠ some id := by
      obtain ⟨q, hq, -, hlearns⟩ :=
        g.learns_incur (P := fun _ => True) hp (fun _ _ _ => trivial) e
      obtain rfl := Option.some.inj (hp'.symm.trans hq)
      rw [hlearns.cache_of_expired hended]
      exact Record.id?_empty_ne id
    have hnow : g.IsOrderly i j timeOut (g.incur (g.amid past) e) :=
      hpast.incur e htokens' ((hforeign i).of_subset (by simp) hafter)
    obtain ⟨q, hq, ⟨later, hnotices, hlater⟩, -⟩ := hover.spares_incurAll hnow hp' hempty htokens
      (fun k => (hforeign k).of_subset (by simp) (List.suffix_refl _)) hspares
    exact ⟨q, later, hq, hnotices, hlater⟩

end

/-- Two tabs in a session, each with a product that tracks. The one is to end the session, sees
activity after that, and is to end the session again; the other sees activity. -/
def parting : Gathering Bool where
  locking := true
  policy _ := ⟨.ofMillis 10, 1, .ofMillis 900⟩
  agenda
    | false => [(0, .expire), (0, .expandOrRenew), (0, .expire)]
    | true => [(0, .expandOrRenew)]
  cell := some "a=1&b=1&id=x"
  names := .tallies
  products i := [.new (if i then "b" else "a") (fun _ _ => .sampledIn) (.ofMillis 900) .epoch
    (Record.ofStored (some "a=1&b=1&id=x"))]

/-- So many calls of a tab. -/
def callsBy (i : Bool) (n : Nat) : List (Incident Bool) :=
  List.replicate n (.move (.call i .epoch))

theorem proper_parting : ∀ k, ∀ q ∈ parting.products k, q.IsProper (.ofMillis 900) := by
  intro k q hq
  obtain rfl := List.mem_singleton.1 hq
  refine ⟨?_, rfl⟩
  cases k <;> decide

theorem ended_for_good_parting :
    (parting.amid (callsBy false 4 ++ [.move (.call false .epoch)])).cell = none ∧
    ∃ q later, ((parting.amid (callsBy false 4 ++ .move (.call false .epoch) ::
        (callsBy true 7 ++ callsBy false 7))).writers false).own[0]? = some q ∧
      q.notices = later ++ [.expired (some "x")] ∧ ∀ n ∈ later, n.id? ≠ some "x" := by
  have hforeign : ∀ k c, IsForeign k c (callsBy false 4 ++ .move (.call false .epoch) ::
      (callsBy true 7 ++ callsBy false 7)) := by
    intro k c raw hraw
    simp [callsBy] at hraw
  have hspares : ∀ f ∈ callsBy true 7 ++ callsBy false 7,
      f.Spares "x" .epoch (.ofMillis 900) := by
    intro f hf
    have hcall : ∃ i, f = .move (.call i .epoch) := by
      rcases List.mem_append.1 hf with hf | hf
      · exact ⟨true, List.eq_of_mem_replicate hf⟩
      · exact ⟨false, List.eq_of_mem_replicate hf⟩
    obtain ⟨i, rfl⟩ := hcall
    exact Timestamp.le_iff.2 (Int.le_refl _)
  have hover : parting.IsOver false 0 "x" .epoch (.ofMillis 900)
      (parting.amid (callsBy false 4 ++ [.move (.call false .epoch)])) := by
    have hopening : ∀ k, ((parting.amid (callsBy false 4 ++
        [.move (.call false .epoch)])).writers k).stage = .opening := by decide +kernel
    refine ⟨Record.isSpent_of_id?_ne (by decide +kernel), fun k => ?_, fun _ => ?_, ?_⟩
    · rw [hopening k]
      trivial
    · rw [hopening false]
      trivial
    · exact avoids_incurAll parting (Supply.avoids_tallies 'x' (by decide) (by decide)) _
  have hbefore : ((parting.amid (callsBy false 4)).writers false).own[0]?.map Product.notices
      = some [] := by decide +kernel
  have hafter : ((parting.amid (callsBy false 4 ++ [.move (.call false .epoch)])).writers
      false).own[0]?.map Product.notices = some [.expired (some "x")] := by decide +kernel
  obtain ⟨p, hp, hnone⟩ := Option.map_eq_some_iff.1 hbefore
  obtain ⟨p', hp', hone⟩ := Option.map_eq_some_iff.1 hafter
  obtain ⟨-, hfinal⟩ := ended_for_good parting proper_parting (callsBy false 4)
    (.move (.call false .epoch)) (callsBy true 7 ++ callsBy false 7) (by decide +kernel)
    (fun k => hforeign k _) hp hp' (by rw [hone, hnone])
  rw [← hone]
  exact ⟨by decide +kernel, hfinal .epoch hover hspares⟩

/-- A product that gives up announces the end of its session once more. The lock is held by the
other tab when the session is to end, so that the product gives up; then the other tab leaves the
session as live as before, and activity begins it again under the same identifier. -/
theorem ended_twice :
    ((parting.amid (callsBy true 2 ++ callsBy false 2 ++ [.giveUp false 0 .epoch] ++
      callsBy true 5 ++ callsBy false 7 ++ callsBy false 5)).writers false).own.map
        Product.notices
      = [[.expired (some "x"), .renewed (some "x"), .expired (some "x")]] := by
  decide +kernel

end Gathering

end SharedSession
