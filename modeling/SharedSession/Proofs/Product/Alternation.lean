import SharedSession.Proofs.Product.Notices
import Mathlib.Data.List.Chain

set_option autoImplicit false

/-!
# Renewals and ends by turns

A product that always tracks announces renewals and ends of its session by turns, whatever others
put into the cell, however often its attempts are given up and whether its requests are dropped or
not: the cache holds the product's word exactly from the announcement of a renewal to that of the
next end.

What ties the cache to the announcements is that activity settles with a record in which the
product's word stands. The token is the proof of that: a reader who finds it in the cell finds what
the product itself has written.

Main statements: `Product.Reacts`, `Gathering.IsAttuned.incur`, `Gathering.notices_alternate`.
-/

namespace SharedSession

/-! ## One product -/

namespace Product

/-- What a product that tracks can announce at one thing that it learns. -/
inductive Announces (p q : Product) : Prop where
  /-- it announces nothing, and has a session as before -/
  | quietly (hnotices : q.notices = p.notices) (hsession : q.hasSession = p.hasSession)
  /-- it had no session and announces one, which is in its cache -/
  | renewing (hnotices : q.notices = .renewed q.cache.id? :: p.notices)
      (hbefore : p.hasSession = false) (hafter : q.hasSession = true)
  /-- it had a session and announces its end, and its cache is empty -/
  | expiring (hnotices : q.notices = .expired p.cache.id? :: p.notices)
      (hbefore : p.hasSession = true) (hafter : q.cache = ∅)

/-- What can become of a product that tracks through one thing that it learns: it stays what it is,
and announces one thing at most. -/
structure Reacts (p q : Product) : Prop where
  traits : q.traits = p.traits
  announces : p.Announces q

/-- The announcements come by turns, and the latest says whether there is a session. -/
structure Alternates (p : Product) : Prop where
  chain : p.notices.IsChain fun n m => n.isRenewal ≠ m.isRenewal
  latest : ∀ n ∈ p.notices.head?, n.isRenewal = p.hasSession

theorem hasSession_of_cache_eq_empty {p : Product} (h : p.cache = ∅) : p.hasSession = false := by
  rw [hasSession_eq, h, Record.get?_empty]
  rfl

variable {p q : Product}

theorem alternates_of_notices (h : p.notices = []) : p.Alternates := by
  constructor
  · rw [h]
    exact .nil
  · rw [h]
    exact nofun

theorem Alternates.announces (h : p.Alternates) (hannounces : p.Announces q) :
    q.Alternates := by
  -- a new announcement is of the other kind than the latest one
  have hcons : ∀ n : Notice, q.notices = n :: p.notices → n.isRenewal = q.hasSession →
      n.isRenewal ≠ p.hasSession → q.Alternates := by
    intro n hnotices hn hother
    constructor
    · rw [hnotices]
      exact List.isChain_cons.2 ⟨fun m hm => by rw [h.latest m hm]; exact hother, h.chain⟩
    · rw [hnotices]
      rintro _ ⟨⟩
      exact hn
  cases hannounces with
  | quietly hnotices hsession =>
    constructor
    · rw [hnotices]
      exact h.chain
    · rw [hnotices, hsession]
      exact h.latest
  | renewing hnotices hbefore hafter =>
    exact hcons _ hnotices hafter.symm (by rw [hbefore]; exact nofun)
  | expiring hnotices hbefore hafter =>
    exact hcons _ hnotices (hasSession_of_cache_eq_empty hafter).symm (by rw [hbefore]; exact nofun)

/-- If its activity settles only while it tracks and with its word, a product reacts to what it
learns. -/
theorem Learns.reacts {P : Record → Prop} (h : p.Learns P q) (htraits : q.traits = p.traits)
    (hP : ∀ r, P r → p.isTracking = true ∧ (r.get? p.key).isSome) : p.Reacts q := by
  have hword : ∀ {r : Record}, P r → q.cache = r → q.hasSession = true := by
    intro r hr hcache
    rw [hasSession_eq, hcache, key_eq_of_traits htraits]
    exact (hP r hr).2
  refine ⟨htraits, ?_⟩
  cases h with
  | quietly hnotices hid hsession => exact .quietly hnotices hsession
  | following hr hnotices hcache hbefore =>
    have hsession : p.hasSession = true := by
      refine hbefore.resolve_left ?_
      rw [(hP _ hr).1]
      exact nofun
    exact .quietly hnotices ((hword hr hcache).trans hsession.symm)
  | renewing hr hnotices hcache hbefore =>
    exact .renewing (by rw [hnotices, hcache]) hbefore (hword hr hcache)
  | expiring hnotices hbefore hafter => exact .expiring hnotices hbefore hafter

end Product

/-- After it was asked, a product tracks if its decision is to. -/
theorem Request.isTracking_of_renewal (o : Occasion) (r : Record) {p : Product}
    (htracks : ∀ n word, (p.compute n word).isTracked = true) :
    (expandOrRenew.operation.transform o r p).2.isTracking = true := by
  have hcompute : (p.synchronize o.now r).compute = p.compute :=
    Product.compute_eq_of_traits (Product.traits_synchronize p o.now r)
  show ((p.synchronize o.now r).compute _ _).isTracked = true
  rw [hcompute]
  exact htracks _ _

/-! ## One attempt -/

/-- The product's word is there. -/
theorem Record.isLasting_word {key : String} (hkey : IsPlainKey key) :
    IsLasting fun r => (r.get? key).isSome where
  withLock r token h := by rwa [get?_withLock hkey.notLock]
  withoutLock r h := by rwa [get?_withoutLock hkey.notLock]
  stored r h := by rwa [get?_ofStored_stored _ hkey.written]

namespace Stage

/-- Whether the decision has been asked for. -/
def hasAsked : Stage → Bool
  | .rechecking _ _ => true
  | .writing _ _ => true
  | .verifying _ => true
  | .releasing _ => true
  | .clearing => true
  | _ => false

theorem hasAsked_of_settling {s : Stage} {r : Record} (h : r ∈ s.settling?) :
    s.hasAsked = true := by
  cases s with
  | clearing => rfl
  | releasing r' => rfl
  | _ => cases h

end Stage

/-- A product that always tracks does so from the moment on when it is asked. -/
theorem Contest.Passage.isTracking {locking : Bool} {d : Span} {now : Timestamp} {fresh : String}
    {cell cell' : Option String} {x x' : List Product} {s s' : Stage} {j : Nat} {p p' : Product}
    (htracks : ∀ n word, (p.compute n word).isTracked = true) (hp : x[j]? = some p)
    (hp' : x'[j]? = some p')
    (h : Passage locking (Request.expandOrRenew.operation.onIndex j) d now fresh cell x s s' x'
      cell')
    (hs : s.hasAsked = true → p.isTracking = true) (hs' : s'.hasAsked = true) :
    p'.isTracking = true := by
  -- it is asked by this call
  have hasks : ∀ {answer : Outcome},
      (Request.expandOrRenew.operation.onIndex j).transform ⟨now, fresh⟩
        (Record.ofStored cell).withoutLock x = (answer, x') → p'.isTracking = true := by
    intro answer hanswer
    have hget := Request.expandOrRenew.operation.getElem?_transform_onIndex j j x ⟨now, fresh⟩
      (Record.ofStored cell).withoutLock
    rw [hanswer, hp, Option.map_some, hp', if_pos rfl] at hget
    cases hget
    exact Request.isTracking_of_renewal _ _ htracks
  -- it was asked before
  have hstays : x' = x → s.hasAsked = true → p'.isTracking = true := by
    rintro rfl hasked
    obtain rfl := Option.some.inj (hp'.symm.trans hp)
    exact hs hasked
  cases h with
  | abandoned => cases hs'
  | opened hlock => cases hs'
  | locked => cases hs'
  | consulted _ hanswer => exact hasks hanswer
  | decided hlock => exact hstays rfl rfl
  | wrote => exact hstays rfl rfl
  | verified hlock => exact hstays rfl rfl
  | cleared => cases hs'
  | released => cases hs'
  | storing _ hanswer hresolve => exact hasks hanswer
  | removing _ hanswer hresolve => exact hasks hanswer
  | kept _ hanswer hresolve => cases hs'

/-! ## Whole runs -/

namespace Gathering

open Contest

variable {κ : Type} [DecidableEq κ] {g : Gathering κ} {i : κ} {j : Nat}
  {c : Contest κ (List Product)} {p p' : Product}

/-- A product of a writer that announces by turns, and what the writer has in hand for it. -/
structure IsAttuned (g : Gathering κ) (i : κ) (j : Nat) (c : Contest κ (List Product))
    (p : Product) : Prop where
  rightful : c.Rightful
  there : (c.writers i).own[j]? = some p
  key : Record.IsProductKey p.key
  tracks : ∀ n word, (p.compute n word).isTracked = true
  alternates : p.Alternates
  carries : g.Carries i (j, .expandOrRenew) (Outcome.Stores fun r => (r.get? p.key).isSome) c
  isTracking : c.request? g.agenda i = some (j, .expandOrRenew) →
    (c.writers i).stage.hasAsked = true → p.isTracking = true

omit [DecidableEq κ] in
theorem isAttuned_first (hp : (g.products i)[j]? = some p)
    (hkey : Record.IsProductKey p.key) (htracks : ∀ n word, (p.compute n word).isTracked = true)
    (hnew : p.notices = []) : g.IsAttuned i j g.first p where
  rightful := rightful_start _ _ _ _
  there := hp
  key := hkey
  tracks := htracks
  alternates := Product.alternates_of_notices hnew
  carries := carries_first
  isTracking _ := nofun

/-- A product that has been asked for its activity goes on tracking. -/
theorem IsAttuned.isTracking_incur (h : g.IsAttuned i j c p) {e : Incident κ}
    (hp' : ((g.incur c e).writers i).own[j]? = some p')
    (hrequest : (g.incur c e).request? g.agenda i = some (j, .expandOrRenew))
    (hasked : ((g.incur c e).writers i).stage.hasAsked = true) : p'.isTracking = true := by
  have hstays : (g.incur c e).writers i = c.writers i → p'.isTracking = true := by
    intro hwriter
    rw [hwriter] at hp' hasked
    rw [request?, hwriter] at hrequest
    cases h.there.symm.trans hp'
    exact h.isTracking hrequest hasked
  cases e with
  | move m =>
    cases m with
    | call k now =>
      by_cases hik : i = k
      · subst hik
        have hopening : ((c.callOn g.locking g.work i now).writers i).stage ≠ .opening := by
          intro hopening
          change ((c.callOn g.locking g.work i now).writers i).stage.hasAsked = true at hasked
          rw [hopening] at hasked
          cases hasked
        have hrequest' := (request?_callOn hopening).symm.trans hrequest
        exact (passage_callOn (current?_work hrequest') g.locking now).isTracking h.tracks h.there
          hp' (h.isTracking hrequest') hasked
      · exact hstays (writers_callOn_of_ne g.locking g.work c k now hik)
    | overwrite raw => exact hstays rfl
  | giveUp k l now =>
    obtain ⟨hserved, hstage, -⟩ := c.writers_amend k l (·.synchronize now ∅) i
    change (c.amend k l _).request? g.agenda i = _ at hrequest
    change ((c.amend k l _).writers i).stage.hasAsked = true at hasked
    change ((c.amend k l _).writers i).own[j]? = some p' at hp'
    rw [request?, hserved] at hrequest
    rw [hstage] at hasked
    rw [getElem?_amend, h.there] at hp'
    obtain rfl := Option.some.inj hp'
    split
    · exact (p.isTracking_synchronize now ∅).trans (h.isTracking hrequest hasked)
    · exact h.isTracking hrequest hasked

/-- A product reacts to whatever happens, and goes on announcing by turns. -/
theorem IsAttuned.incur (h : g.IsAttuned i j c p) (e : Incident κ)
    (htokens : (g.incur c e).tokens.Nodup) (hforeign : IsForeign i (g.incur c e) [e]) :
    ∃ p', p.Reacts p' ∧ g.IsAttuned i j (g.incur c e) p' := by
  have hsettling : c.request? g.agenda i = some (j, .expandOrRenew) →
      ∀ r ∈ (c.writers i).stage.settling?, p.isTracking = true ∧ (r.get? p.key).isSome :=
    fun hrequest r hr => ⟨h.isTracking hrequest (Stage.hasAsked_of_settling hr),
      (h.carries hrequest).settling r hr⟩
  obtain ⟨p', hthere, htraits, hlearns⟩ := g.learns_incur h.there hsettling e
  have hreacts : p.Reacts p' := hlearns.reacts htraits fun _ hr => hr
  have hkey := Product.key_eq_of_traits htraits
  refine ⟨p', hreacts, g.rightful_incur h.rightful e, hthere, hkey ▸ h.key, ?_,
    h.alternates.announces hreacts.announces, ?_, h.isTracking_incur hthere⟩
  · rw [Product.compute_eq_of_traits htraits]
    exact h.tracks
  · rw [hkey]
    refine h.carries.incur (Record.isLasting_word h.key.toIsPlainKey) not_false h.rightful htokens
      hforeign ?_
    intro _ _ answer own hanswer now d
    rw [Operation.transform_onIndex_of_some h.there] at hanswer
    cases hanswer
    obtain ⟨s, hs, hword⟩ := Request.exists_resolve_of_renewal _ _ p h.key.toIsPlainKey now d
    rw [hs]
    exact hword

/-- Whatever happens, a product goes on announcing by turns. -/
theorem IsAttuned.incurAll {incidents : List (Incident κ)} (h : g.IsAttuned i j c p)
    (htokens : (g.incurAll c incidents).tokens.Nodup)
    (hforeign : IsForeign i (g.incurAll c incidents) incidents) :
    ∃ p', p'.traits = p.traits ∧ g.IsAttuned i j (g.incurAll c incidents) p' := by
  induction incidents generalizing c p with
  | nil => exact ⟨p, rfl, h⟩
  | cons e incidents ih =>
    have hlater := g.suffix_journal_incurAll (g.incur c e) incidents
    obtain ⟨p', hreacts, h'⟩ :=
      h.incur e (nodup_tokens_of_suffix hlater htokens) (hforeign.head hlater)
    obtain ⟨p'', htraits, h''⟩ := ih h' htokens hforeign.tail
    exact ⟨p'', htraits.trans hreacts.traits, h''⟩

/-- Renewals and ends come by turns. Writers carry out requests of their products, call by call and
in any order; texts are put into the cell from outside that do not carry a token of the writer of a
certain product, and products end their own sessions when they have to give up. If that product
always tracks, then no two of its announcements in a row are of the same kind. To each incident it
reacts with one announcement at most: a renewal leaves its word in the cache, and an end leaves the
cache empty. -/
theorem notices_alternate (g : Gathering κ) (incidents : List (Incident κ))
    (htokens : (g.amid incidents).tokens.Nodup) {i : κ} {j : Nat} {p : Product}
    (hforeign : IsForeign i (g.amid incidents) incidents) (hp : (g.products i)[j]? = some p)
    (hkey : Record.IsProductKey p.key) (htracks : ∀ n word, (p.compute n word).isTracked = true)
    (hnew : p.notices = []) :
    (∃ q, ((g.amid incidents).writers i).own[j]? = some q ∧
      q.notices.IsChain fun n m => n.isRenewal ≠ m.isRenewal) ∧
    ∀ past e future, incidents = past ++ e :: future →
      ∃ q q', ((g.amid past).writers i).own[j]? = some q ∧
        ((g.amid (past ++ [e])).writers i).own[j]? = some q' ∧ q.key = p.key ∧ q.Reacts q' := by
  have hfirst : g.IsAttuned i j g.first p := isAttuned_first hp hkey htracks hnew
  constructor
  · obtain ⟨q, -, hq⟩ := hfirst.incurAll htokens hforeign
    exact ⟨q, hq.there, hq.alternates.chain⟩
  · rintro past e future rfl
    have hwhole : g.amid (past ++ e :: future) = g.incurAll (g.incur (g.amid past) e) future :=
      g.incurAll_append g.first past (e :: future)
    have hnow : g.amid (past ++ [e]) = g.incur (g.amid past) e :=
      g.incurAll_append g.first past [e]
    rw [hwhole] at htokens hforeign
    have hbefore := g.suffix_journal_incur (g.amid past) e
    have hafter := g.suffix_journal_incurAll (g.incur (g.amid past) e) future
    have htokens' : (g.incur (g.amid past) e).tokens.Nodup := nodup_tokens_of_suffix hafter htokens
    obtain ⟨q, htraits, hq⟩ := hfirst.incurAll (nodup_tokens_of_suffix hbefore htokens')
      (hforeign.of_subset (List.subset_append_left _ _) (hbefore.trans hafter))
    obtain ⟨q', hreacts, hq'⟩ := hq.incur e htokens' (hforeign.of_subset (by simp) hafter)
    exact ⟨q, q', hq.there, hnow ▸ hq'.there, Product.key_eq_of_traits htraits, hreacts⟩

/-- One tab with a product that tracks: activity, the wish to end the session, activity again. -/
def quitting : Gathering Unit where
  locking := true
  policy _ := ⟨.ofMillis 10, 1, .ofMillis 900⟩
  agenda _ := [(0, .expandOrRenew), (0, .expire), (0, .expandOrRenew)]
  cell := none
  names := .tallies
  products _ := [.new "a" (fun _ _ => .sampledIn) (.ofMillis 900) .epoch ∅]

/-- After the activity another writer takes the lock, so that the wish is dropped, and the product
ends its own session; when the lock is free again, there is activity as before. -/
def quits : List (Incident Unit) :=
  List.replicate 7 (.move (.call () .epoch)) ++
    [.move (.overwrite (some "id=x&lock=z&a=1")), .move (.call () .epoch), .move (.call () .epoch),
      .giveUp () 0 .epoch, .move (.overwrite none)] ++
    List.replicate 7 (.move (.call () .epoch))

theorem notices_alternate_quitting :
    ((quitting.amid quits).writers ()).own.map (·.notices.length) = [3] ∧
    ∃ q, ((quitting.amid quits).writers ()).own[0]? = some q ∧
      q.notices.IsChain fun n m => n.isRenewal ≠ m.isRenewal := by
  have ha : Record.IsProductKey "a" := by decide
  have hforeign : IsForeign () (quitting.amid quits) quits := by
    intro raw hraw token n hdrew
    have htoken : token ∈ (quitting.amid quits).tokens := List.mem_filterMap.2 ⟨_, hdrew, rfl⟩
    have hraws : raw = some "id=x&lock=z&a=1" ∨ raw = none := by
      simpa [quits] using hraw
    rcases hraws with rfl | rfl
    · have hother : ∀ token ∈ (quitting.amid quits).tokens,
          (Record.ofStored (some "id=x&lock=z&a=1")).lock? ≠ some token := by decide +kernel
      exact hother token htoken
    · exact nofun
  refine ⟨by decide +kernel, ?_⟩
  exact (notices_alternate quitting quits (by decide +kernel) hforeign rfl ha (fun _ _ => rfl)
    rfl).1

end Gathering

end SharedSession
