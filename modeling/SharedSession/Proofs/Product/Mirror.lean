import SharedSession.Proofs.History.Entries
import SharedSession.Proofs.Product.Ending

set_option autoImplicit false

/-!
# The current context and the cache

A product that knows its session tells two things about it: its cache holds the record that it saw
last, and its history says which context is current. They are brought up to date at different
places, and this module says how far they agree.

Whenever a context is current, it is that of the cache, which holds the product's word then. The
other way round it is so for a product that tracks. One that does not track gets a context when its
history begins, and never again: what it stores after its first session has ended comes into the
cache without becoming current.

Main statements: `Product.Update`, `Product.Mirrors.update`, `Gathering.IsAwaited.update`,
`Gathering.context_mirrors_cache`, `Gathering.context_missing_after_end`.
-/

namespace SharedSession

/-! ## Answers of a product's own -/

/-- A product that finds one of its own answers stored decides the same again. -/
def Traits.RepeatsItself (t : Traits) : Prop :=
  ∀ n prior m, t.compute m (some (t.compute n prior).trackingType) = t.compute n prior

namespace Product

variable {p q : Product} {d : Decision} {now : Timestamp} {r s : Record}

/-- A record holds an answer of the product: its word, and an identifier if it is to be tracked. -/
structure Owns (p : Product) (d : Decision) (r : Record) : Prop where
  answer : ∃ n prior, p.compute n prior = d
  word : r.get? p.key = some d.trackingType
  id : d.isTracked = true → r.id?.isSome

theorem contextOf_eq_iff :
    p.contextOf r = p.contextOf s ↔ r.id? = s.id? ∧ r.get? p.key = s.get? p.key := by
  simp only [contextOf, Context.mk.injEq]

theorem contextOf_congr (h : q.traits = p.traits) (r : Record) : q.contextOf r = p.contextOf r := by
  rw [contextOf, contextOf, key_eq_of_traits h]

theorem Owns.of_context (h : p.Owns d r) (hs : p.contextOf s = p.contextOf r) : p.Owns d s := by
  obtain ⟨hid, hword⟩ := contextOf_eq_iff.1 hs
  exact ⟨h.answer, hword.trans h.word, fun htracked => hid ▸ h.id htracked⟩

theorem Owns.of_traits (h : p.Owns d r) (htraits : q.traits = p.traits) : q.Owns d r := by
  refine ⟨?_, ?_, h.id⟩
  · rw [compute_eq_of_traits htraits]
    exact h.answer
  · rw [key_eq_of_traits htraits]
    exact h.word

theorem hasSession_of_get? {word : String} (h : p.cache.get? p.key = some word) :
    p.hasSession = true := by
  rw [hasSession_eq, h]
  rfl

theorem not_owns_empty (p : Product) (d : Decision) : ¬ p.Owns d ∅ := by
  intro h
  have hword := h.word
  rw [Record.get?_empty] at hword
  cases hword

/-- If the product has a session, its cache holds an answer of its own. -/
def IsOwn (p : Product) : Prop := p.hasSession = true → ∃ d, p.Owns d p.cache

/-- The product's cache holds an answer of its own, which is not to track. -/
def Declines (p : Product) : Prop := ∃ d, p.Owns d p.cache ∧ d.isTracked = false

/-- How many ends of sessions are announced. -/
def endings (notices : List Notice) : Nat := notices.countP (!·.isRenewal)

/-- How the current context and the cache are alike after the history has begun with so many ends
announced. Only when another end has been announced can the product be without a session, or have
one without a context. -/
structure Mirrors (p : Product) (ends : Nat) : Prop where
  isOwn : p.IsOwn
  shown : ∀ context ∈ p.history.current?, p.hasSession = true ∧ context = p.contextOf p.cache
  hidden : p.hasSession = true → p.history.current? = none → p.Declines ∧ ends < endings p.notices
  lost : p.hasSession = false → ends < endings p.notices
  since : ends ≤ endings p.notices
  holdsOne : p.history.HoldsOne

/-- They are alike when the history begins with an answer of the product in the cache. -/
theorem mirrors_resetHistory (h : p.Owns d p.cache) (start : Timestamp) :
    (p.resetHistory start).Mirrors (endings p.notices) where
  isOwn _ := ⟨d, h.of_traits rfl⟩
  shown _ hcontext := ⟨hasSession_of_get? h.word, (Option.some.inj hcontext).symm⟩
  hidden _ hnone := absurd hnone (Option.some_ne_none _)
  lost hnone := absurd ((hasSession_of_get? h.word).symm.trans hnone) nofun
  since := Nat.le_refl _
  holdsOne := p.history.holdsOne_reset_add _ start

/-! ## What can become of cache and history -/

/-- How the cache and the history of a product can change, once its history has begun, and what is
announced then. -/
inductive Update (p : Product) : Record → History Context → List Notice → Prop where
  /-- the session in the cache goes on -/
  | following {r : Record} (hr : p.contextOf r = p.contextOf p.cache) :
      Update p r p.history p.notices
  /-- the session is over -/
  | expiring (now : Timestamp) :
      Update p ∅ (p.history.closeActive now) (.expired p.cache.id? :: p.notices)
  /-- the product begins a session that it tracks -/
  | renewing {r : Record} {d : Decision} (now : Timestamp) (hbefore : p.hasSession = false)
      (hr : p.Owns d r) :
      Update p r (p.history.add (p.contextOf r) now) (.renewed r.id? :: p.notices)
  /-- the product stores that it does not track, and nothing becomes current -/
  | declining {r : Record} {d : Decision} (hbefore : p.hasSession = false) (hr : p.Owns d r)
      (hd : d.isTracked = false) : Update p r p.history p.notices
  /-- contexts that ended long ago are forgotten -/
  | tidying (now : Timestamp) : Update p p.cache (p.history.clearOld now) p.notices

/-- One product comes from another by such a change. -/
def UpdatesTo (p q : Product) : Prop := p.Update q.cache q.history q.notices

theorem updatesTo_refl (p : Product) : p.UpdatesTo p := .following rfl

theorem IsOwn.update (h : p.IsOwn) (htraits : q.traits = p.traits) (hupdate : p.UpdatesTo q) :
    q.IsOwn := by
  intro hsession
  unfold UpdatesTo at hupdate
  generalize hcache : q.cache = r at hupdate
  generalize q.history = history at hupdate
  generalize q.notices = notices at hupdate
  rw [hasSession_eq, hcache, key_eq_of_traits htraits] at hsession
  have hkept : p.contextOf r = p.contextOf p.cache → ∃ d, q.Owns d r := by
    intro hr
    rw [(contextOf_eq_iff.1 hr).2, ← hasSession_eq] at hsession
    obtain ⟨d, hd⟩ := h hsession
    exact ⟨d, (hd.of_context hr).of_traits htraits⟩
  cases hupdate with
  | following hr => exact hkept hr
  | expiring now =>
    rw [Record.get?_empty] at hsession
    cases hsession
  | renewing now hbefore hr => exact ⟨_, hr.of_traits htraits⟩
  | declining hbefore hr hd => exact ⟨_, hr.of_traits htraits⟩
  | tidying now => exact hkept rfl

/-- Whatever becomes of them, they stay alike. -/
theorem Mirrors.update {ends : Nat} (h : p.Mirrors ends) (htraits : q.traits = p.traits)
    (hupdate : p.UpdatesTo q) : q.Mirrors ends := by
  have hown : q.IsOwn := h.isOwn.update htraits hupdate
  have hnone : p.hasSession = false → p.history.current? = none := by
    intro hbefore
    rw [Option.eq_none_iff_forall_not_mem]
    intro context hcontext
    rw [(h.shown context hcontext).1] at hbefore
    cases hbefore
  suffices hgoal : q.history.HoldsOne ∧ ends ≤ endings q.notices ∧
      (∀ context ∈ q.history.current?, q.hasSession = true ∧ context = p.contextOf q.cache) ∧
      (q.hasSession = true → q.history.current? = none → q.Declines ∧ ends < endings q.notices) ∧
      (q.hasSession = false → ends < endings q.notices) by
    obtain ⟨hone, hsince, hshown, hhidden, hlost⟩ := hgoal
    refine ⟨hown, fun context hcontext => ?_, hhidden, hlost, hsince, hone⟩
    rw [contextOf_congr htraits]
    exact hshown context hcontext
  have hsession : q.hasSession = (q.cache.get? p.key).isSome := by
    rw [hasSession_eq, key_eq_of_traits htraits]
  have hdeclines : q.Declines ↔ ∃ d, p.Owns d q.cache ∧ d.isTracked = false :=
    exists_congr fun d => and_congr_left fun _ =>
      ⟨fun hd => hd.of_traits htraits.symm, fun hd => hd.of_traits htraits⟩
  unfold UpdatesTo at hupdate
  rw [hsession, hdeclines]
  generalize q.cache = r at hupdate ⊢
  generalize q.history = history at hupdate ⊢
  generalize q.notices = notices at hupdate ⊢
  -- a record with the same context is as good as the cache
  have hkept : p.contextOf r = p.contextOf p.cache →
      (∀ context ∈ p.history.current?, (r.get? p.key).isSome = true ∧ context = p.contextOf r) ∧
      ((r.get? p.key).isSome = true → p.history.current? = none →
        (∃ d, p.Owns d r ∧ d.isTracked = false) ∧ ends < endings p.notices) ∧
      ((r.get? p.key).isSome = false → ends < endings p.notices) := by
    intro hr
    rw [(contextOf_eq_iff.1 hr).2, ← hasSession_eq, hr]
    refine ⟨h.shown, fun hbefore hcurrent => ?_, h.lost⟩
    obtain ⟨⟨d, hd, hdeclined⟩, hends⟩ := h.hidden hbefore hcurrent
    exact ⟨⟨d, hd.of_context hr, hdeclined⟩, hends⟩
  cases hupdate with
  | following hr => exact ⟨h.holdsOne, h.since, hkept hr⟩
  | expiring now =>
    have hends : ends < endings (.expired p.cache.id? :: p.notices) := by
      rw [endings, List.countP_cons_of_pos (by rfl)]
      exact Nat.lt_succ_of_le h.since
    refine ⟨h.holdsOne.closeActive now, hends.le, ?_, ?_, fun _ => hends⟩
    · rw [History.current?_closeActive]
      exact nofun
    · rw [Record.get?_empty]
      exact nofun
  | renewing now hbefore hr =>
    refine ⟨h.holdsOne.add (hnone hbefore) _ now, h.since, ?_,
      fun _ hcurrent => absurd hcurrent nofun, fun _ => h.lost hbefore⟩
    intro context hcontext
    refine ⟨?_, (Option.some.inj hcontext).symm⟩
    rw [hr.word]
    rfl
  | declining hbefore hr hd =>
    refine ⟨h.holdsOne, h.since, ?_, fun _ _ => ⟨⟨_, hr, hd⟩, h.lost hbefore⟩,
      fun _ => h.lost hbefore⟩
    rw [hnone hbefore]
    exact nofun
  | tidying now =>
    obtain ⟨hone, hsame⟩ := h.holdsOne.clearOld now
    rw [hsame]
    exact ⟨hone, h.since, hkept rfl⟩

/-- Either the session goes on, or there is none any more. -/
theorem context_synchronize (p : Product) (now : Timestamp) (r : Record) :
    (∃ s, p.contextOf s = p.contextOf p.cache ∧ p.synchronize now r = { p with cache := s }) ∨
    p.synchronize now r = p.expireCache now := by
  unfold synchronize
  dsimp only
  split
  · split
    · exact .inr rfl
    · next hsame =>
      -- the record holds the identifier and the word that the cache does
      simp only [isOutdatedBy, Bool.or_eq_true, bne_iff_ne, not_or, not_not] at hsame
      exact .inl ⟨_, contextOf_eq_iff.2 ⟨hsame.1.symm, hsame.2.symm⟩, rfl⟩
  · exact .inl ⟨p.cache, rfl, rfl⟩

theorem updatesTo_synchronize (p : Product) (now : Timestamp) (r : Record) :
    p.UpdatesTo (p.synchronize now r) := by
  rcases p.context_synchronize now r with ⟨s, hcontext, h⟩ | h
  · rw [h]
    exact .following hcontext
  · rw [h]
    exact .expiring now

/-! ## What activity settles with -/

/-- What the product counts on when its activity is about to settle: the record holds the answer
that it gave, and if its cache holds an answer of its own, the session is the same. -/
structure Expects (p : Product) (r : Record) : Prop where
  owns : ∃ d, p.Owns d r ∧ d.isTracked = p.isTracking
  same : (∃ d, p.Owns d p.cache) → p.contextOf r = p.contextOf p.cache

theorem Expects.of_context (h : p.Expects r) (hs : p.contextOf s = p.contextOf r) :
    p.Expects s where
  owns := by
    obtain ⟨d, hd, htracking⟩ := h.owns
    exact ⟨d, hd.of_context hs, htracking⟩
  same howns := hs.trans (h.same howns)

/-- The lock, the deadline and storing make no difference to the context. -/
theorem isLasting_expects (hkey : Record.IsProductKey p.key) : Record.IsLasting p.Expects where
  withLock r token h := by
    refine h.of_context (contextOf_eq_iff.2 ⟨?_, Record.get?_withLock hkey.notLock token⟩)
    exact Record.get?_withLock (by decide) token
  withoutLock r h := by
    refine h.of_context (contextOf_eq_iff.2 ⟨?_, Record.get?_withoutLock hkey.notLock⟩)
    exact Record.get?_withoutLock (by decide)
  stored r h := by
    refine h.of_context (contextOf_eq_iff.2 ⟨?_, Record.get?_ofStored_stored r hkey.written⟩)
    exact Record.get?_ofStored_stored r (by decide)

theorem Expects.expand (h : p.Expects r) (hkey : Record.IsProductKey p.key) (now : Timestamp)
    (d : Span) : p.Expects (r.expand now d) := by
  refine h.of_context (contextOf_eq_iff.2 ⟨?_, Record.get?_expand hkey.notExpire now d⟩)
  exact Record.get?_expand (by decide) now d

/-- Who loses its session meanwhile counts on it no less. -/
theorem Expects.synchronize (h : p.Expects r) (now : Timestamp) (s : Record) :
    (p.synchronize now s).Expects r := by
  have htraits := p.traits_synchronize now s
  constructor
  · obtain ⟨d, hd, hsame⟩ := h.owns
    exact ⟨d, hd.of_traits htraits, hsame.trans (p.isTracking_synchronize now s).symm⟩
  · rintro ⟨d, hd⟩
    rw [contextOf_congr htraits, contextOf_congr htraits]
    have hown : p.Owns d (p.synchronize now s).cache := hd.of_traits htraits.symm
    rcases p.context_synchronize now s with ⟨r', hcontext, hafter⟩ | hafter
    · rw [hafter] at hown ⊢
      exact (h.same ⟨d, hown.of_context hcontext.symm⟩).trans hcontext.symm
    · rw [hafter] at hown
      exact absurd hown (p.not_owns_empty d)

/-- What a product decides to store upon activity is what it counts on, if it has compared its cache
with the record before. -/
theorem expects_ask (hkey : Record.IsProductKey p.key) (hrepeats : p.traits.RepeatsItself)
    (now : Timestamp) (fresh : String) (r : Record)
    (hfollows : (∃ d, p.Owns d p.cache) → p.contextOf r = p.contextOf p.cache) :
    (p.ask now r).2.Expects (record p.key (p.ask now r).1 now fresh r) := by
  have hword := get?_record_key hkey (p.ask now r).1 now fresh r
  have hid := id?_record hkey (p.ask now r).1 now fresh r
  constructor
  · refine ⟨(p.ask now r).1, ⟨⟨_, _, rfl⟩, hword, fun htracked => ?_⟩, rfl⟩
    rw [hid, htracked]
    cases hnone : r.id? with
    | none => rfl
    | some id => rfl
  · rintro ⟨d, hd⟩
    have howns : p.Owns d r :=
      (hd.of_traits (q := p) rfl).of_context (hfollows ⟨d, hd.of_traits rfl⟩)
    -- the product finds its answer in the record and repeats it
    have hsame : (p.ask now r).1 = d := by
      obtain ⟨n, prior, rfl⟩ := howns.answer
      show p.compute p.asked.length (r.get? p.key) = _
      rw [howns.word]
      exact hrepeats n prior _
    refine Eq.trans ?_ (hfollows ⟨d, hd.of_traits rfl⟩)
    refine contextOf_eq_iff.2 ⟨?_, ?_⟩
    · rw [hid, hsame]
      split
      · next hmissing =>
        obtain ⟨htracked, hnone⟩ := Bool.and_eq_true_iff.1 hmissing
        obtain ⟨id, hsome⟩ := Option.isSome_iff_exists.1 (howns.id htracked)
        rw [hsome] at hnone
        cases hnone
      · rfl
    · exact hword.trans ((congrArg (some ·.trackingType) hsame).trans howns.word.symm)

theorem Expects.congr (h : p.Expects r) (htraits : q.traits = p.traits) (hcache : q.cache = p.cache)
    (htracking : q.isTracking = p.isTracking) : q.Expects r := by
  constructor
  · obtain ⟨d, hd, hsame⟩ := h.owns
    exact ⟨d, hd.of_traits htraits, hsame.trans htracking.symm⟩
  · rintro ⟨d, hd⟩
    rw [hcache] at hd
    rw [contextOf_congr htraits, contextOf_congr htraits, hcache]
    exact h.same ⟨d, hd.of_traits htraits.symm⟩

/-- Who has a session after comparing has that of the record. -/
theorem cache_synchronize (hsession : (p.synchronize now r).hasSession = true) :
    (p.synchronize now r).cache = r.liveAt now p.timeOut := by
  unfold synchronize at hsession ⊢
  dsimp only at hsession ⊢
  split at hsession
  · next hbefore =>
    rw [if_pos hbefore]
    split at hsession
    · rw [hasSession_eq] at hsession
      change ((∅ : Record).get? p.key).isSome = true at hsession
      rw [Record.get?_empty] at hsession
      cases hsession
    · next hsame => rw [if_neg hsame]
  · next hbefore => exact absurd hsession hbefore

/-- When activity has settled, the cache holds an answer of the product. -/
theorem owns_renewSettled (h : p.Expects r) (now : Timestamp) :
    ∃ d, (renewSettled now r p).Owns d (renewSettled now r p).cache := by
  obtain ⟨d, hd, -⟩ := h.owns
  have hcache : (renewSettled now r p).cache = r := by
    unfold renewSettled
    split <;> rfl
  rw [hcache]
  exact ⟨d, hd.of_traits (p.traits_renewSettled now r)⟩

theorem updatesTo_renewSettled (hown : p.IsOwn) (h : p.Expects r) (now : Timestamp) :
    p.UpdatesTo (renewSettled now r p) := by
  obtain ⟨d, hd, htracking⟩ := h.owns
  unfold renewSettled
  cases hbefore : p.hasSession with
  | true =>
    rw [Bool.not_true, Bool.and_false, if_neg Bool.false_ne_true]
    exact .following (h.same (hown hbefore))
  | false =>
    rw [Bool.not_false, Bool.and_true]
    split
    · exact .renewing now hbefore hd
    · next hdeclines =>
      exact .declining hbefore hd (htracking.trans (Bool.eq_false_of_not_eq_true hdeclines))

end Product

namespace Request

variable {q : Request} {p : Product}

theorem updatesTo_transform (q : Request) (o : Occasion) (r : Record) (p : Product) :
    p.UpdatesTo (q.operation.transform o r p).2 := by
  have hanswers := q.answers_transform o r p
  generalize q.operation.transform o r p = x at hanswers ⊢
  cases hanswers with
  | renewing => exact p.updatesTo_synchronize o.now r
  | prolonging => exact p.updatesTo_synchronize o.now r
  | _ => exact p.updatesTo_refl

theorem updatesTo_settle (hown : p.IsOwn) (now : Timestamp) {r : Record}
    (hexpects : q = .expandOrRenew → p.Expects r) : p.UpdatesTo (q.operation.settle now r p) := by
  cases q with
  | expandOrRenew => exact Product.updatesTo_renewSettled hown (hexpects rfl) now
  | expand => exact p.updatesTo_refl
  | watch => exact p.updatesTo_synchronize now r
  | expire => exact p.updatesTo_synchronize now ∅

/-- What activity decides to store is what the product counts on. -/
theorem expects_transform (hkey : Record.IsProductKey p.key) (hrepeats : p.traits.RepeatsItself)
    (o : Occasion) (r : Record) (now : Timestamp) (d : Span) :
    ((expandOrRenew.operation.transform o r p).1.resolve now d).Stores
      (expandOrRenew.operation.transform o r p).2.Expects := by
  have htraits : (p.synchronize o.now r).traits = p.traits := p.traits_synchronize o.now r
  have hsame : (p.synchronize o.now r).key = p.key := Product.key_eq_of_traits htraits
  obtain ⟨q, hq⟩ : ∃ q, p.synchronize o.now r = q := ⟨_, rfl⟩
  obtain ⟨live, hlive⟩ : ∃ live, r.liveAt o.now p.timeOut = live := ⟨_, rfl⟩
  have htransform : expandOrRenew.operation.transform o r p
      = (.persist (Product.record p.key (q.ask o.now live).1 o.now o.fresh live),
        (q.ask o.now live).2) := by
    rw [← hq, ← hlive]
    rfl
  have hcache : q.hasSession = true → q.cache = live := by
    rw [← hq, ← hlive]
    exact Product.cache_synchronize
  rw [hq] at htraits hsame
  rw [htransform, ← hsame]
  rw [← hsame] at hkey
  have hexpects : (q.ask o.now live).2.Expects
      (Product.record q.key (q.ask o.now live).1 o.now o.fresh live) := by
    refine Product.expects_ask hkey (htraits ▸ hrepeats) o.now o.fresh live ?_
    rintro ⟨decision, howns⟩
    rw [hcache (Product.hasSession_of_get? howns.word)]
  rw [Outcome.resolve_persist_of_not_cleared now d
    (Product.isCleared_record _ _ _ _ hkey.toIsPlainKey)]
  have hlasting : Record.IsLasting (q.ask o.now live).2.Expects := Product.isLasting_expects hkey
  exact (hlasting.withoutLock _ hexpects).expand hkey now d

end Request

/-! ## Whatever happens -/

/-- What can happen, the beginning of a product's history and its upkeep included. -/
inductive Episode (κ : Type) where
  | incident (e : Incident κ)
  /-- a product's history begins anew with the session that it has, as it does when it is started -/
  | redate (i : κ) (product : Nat) (start : Timestamp)
  /-- a product forgets contexts that ended long ago -/
  | tidy (i : κ) (product : Nat) (now : Timestamp)

/-- The incidents among them. -/
def incidentsOf {κ : Type} (episodes : List (Episode κ)) : List (Incident κ) :=
  episodes.filterMap fun
    | .incident e => some e
    | _ => none

namespace Gathering

open Contest

variable {κ : Type}

/-- What a writer is about to store is what one of its products counts on. -/
def Counts (j : Nat) (own : List Product) (outcome : Outcome) : Prop :=
  outcome.Stores fun r => ∀ p, own[j]? = some p → Record.IsProductKey p.key → p.Expects r

theorem isLasting_counts (j : Nat) (own : List Product) :
    Record.IsLasting fun r => Counts j own (.persist r) where
  withLock r token h p hp hkey := (Product.isLasting_expects hkey).withLock r token (h p hp hkey)
  withoutLock r h p hp hkey := (Product.isLasting_expects hkey).withoutLock r (h p hp hkey)
  stored r h p hp hkey := (Product.isLasting_expects hkey).stored r (h p hp hkey)

/-- It still is when a product has been changed in a way that does not matter for that. -/
theorem Counts.modify {j : Nat} {own : List Product} {outcome : Outcome} (h : Counts j own outcome)
    (l : Nat) {f : Product → Product} (hkey : ∀ p, (f p).key = p.key)
    (hf : ∀ p r, p.Expects r → (f p).Expects r) : Counts j (own.modify l f) outcome := by
  cases outcome with
  | persist r =>
    intro p' hp' hkey'
    rw [List.getElem?_modify] at hp'
    obtain ⟨p, hp, rfl⟩ := Option.map_eq_some_iff.1 hp'
    by_cases hl : l = j
    · rw [if_pos hl] at hkey' ⊢
      rw [hkey] at hkey'
      exact hf p r (h p hp hkey')
    · rw [if_neg hl] at hkey' ⊢
      exact h p hp hkey'
  | clear => exact h
  | unchanged => exact h

/-- A product that repeats its own answers and can count on what its activity settles with. -/
structure IsAwaited (g : Gathering κ) (i : κ) (j : Nat) (c : Contest κ (List Product))
    (p : Product) : Prop where
  rightful : c.Rightful
  there : (c.writers i).own[j]? = some p
  key : Record.IsProductKey p.key
  repeats : p.traits.RepeatsItself
  counts : g.Carries i (j, .expandOrRenew) (Counts j (c.writers i).own) c

variable [DecidableEq κ]

/-- Lets something happen. -/
def undergo (g : Gathering κ) (c : Contest κ (List Product)) : Episode κ → Contest κ (List Product)
  | .incident e => g.incur c e
  | .redate i j start => c.amend i j (·.resetHistory start)
  | .tidy i j now => c.amend i j (·.clearOldHistory now)

/-- Lets things happen one after another. -/
def undergoAll (g : Gathering κ) (c : Contest κ (List Product)) (episodes : List (Episode κ)) :
    Contest κ (List Product) :=
  episodes.foldl g.undergo c

variable {g : Gathering κ} {i : κ} {j : Nat} {c : Contest κ (List Product)} {p : Product}

theorem suffix_journal_undergo (g : Gathering κ) (c : Contest κ (List Product)) (e : Episode κ) :
    c.journal <:+ (g.undergo c e).journal := by
  cases e with
  | incident e => exact g.suffix_journal_incur c e
  | redate k l start => exact List.suffix_refl _
  | tidy k l now => exact List.suffix_refl _

theorem suffix_journal_undergoAll (g : Gathering κ) (c : Contest κ (List Product))
    (episodes : List (Episode κ)) : c.journal <:+ (g.undergoAll c episodes).journal := by
  induction episodes generalizing c with
  | nil => exact List.suffix_refl _
  | cons e episodes ih => exact (g.suffix_journal_undergo c e).trans (ih _)

theorem undergoAll_append (g : Gathering κ) (c : Contest κ (List Product))
    (episodes more : List (Episode κ)) :
    g.undergoAll c (episodes ++ more) = g.undergoAll (g.undergoAll c episodes) more :=
  List.foldl_append

omit [DecidableEq κ] in
/-- Part of what happens brings nothing from outside that the whole does not. -/
theorem IsForeign.of_sublist {c c' : Contest κ (List Product)} {episodes more : List (Episode κ)}
    (h : IsForeign i c (incidentsOf more)) (hsublist : episodes.Sublist more)
    (hlater : c'.journal <:+ c.journal) : IsForeign i c' (incidentsOf episodes) :=
  h.of_subset (hsublist.filterMap _).subset hlater

omit [DecidableEq κ] in
theorem IsForeign.head_incidentsOf {c c' : Contest κ (List Product)} {e : Episode κ}
    {episodes : List (Episode κ)} (h : IsForeign i c (incidentsOf (e :: episodes)))
    (hlater : c'.journal <:+ c.journal) : IsForeign i c' (incidentsOf [e]) :=
  h.of_sublist (List.singleton_sublist.2 List.mem_cons_self) hlater

omit [DecidableEq κ] in
theorem IsForeign.tail_incidentsOf {e : Episode κ} {episodes : List (Episode κ)}
    (h : IsForeign i c (incidentsOf (e :: episodes))) : IsForeign i c (incidentsOf episodes) :=
  h.of_sublist (List.sublist_cons_self e episodes) (List.suffix_refl _)

/-- Whatever happens, a product's cache and history change in one of the ways they can, if there is
none but its own answers in the cache. -/
theorem IsAwaited.update (h : g.IsAwaited i j c p) (e : Incident κ)
    (htokens : (g.incur c e).tokens.Nodup) (hforeign : IsForeign i (g.incur c e) [e]) :
    ∃ p', g.IsAwaited i j (g.incur c e) p' ∧ p'.traits = p.traits ∧ (p.IsOwn → p.UpdatesTo p') := by
  obtain ⟨p', hp', htraits, hupdate⟩ : ∃ p', ((g.incur c e).writers i).own[j]? = some p' ∧
      p'.traits = p.traits ∧ (p.IsOwn → p.UpdatesTo p') := by
    obtain ⟨p', hp', rfl | ⟨now, -, rfl⟩ | ⟨now, q, -, hrequest, hcontact⟩⟩ :=
      g.contact_incur h.there e
    · exact ⟨p', hp', rfl, fun _ => p'.updatesTo_refl⟩
    · exact ⟨_, hp', p.traits_synchronize now ∅, fun _ => p.updatesTo_synchronize now ∅⟩
    · refine ⟨p', hp', ?_⟩
      generalize (g.incur c e).cell = cell at hcontact
      cases hcontact with
      | asked => exact ⟨q.traits_transform _ _ p, fun _ => q.updatesTo_transform _ _ p⟩
      | @told r hr =>
        refine ⟨q.traits_settle now r p, fun hown => Request.updatesTo_settle hown now ?_⟩
        rintro rfl
        exact (h.counts hrequest).settling r hr p h.there h.key
      | spared hanswer =>
        refine ⟨q.traits_settle now _ p, fun hown =>
          Request.updatesTo_settle hown now fun hq => ?_⟩
        exact absurd hq (q.transform_of_unchanged _ _ p hanswer).2.1
  refine ⟨p', ⟨g.rightful_incur h.rightful e, hp', ?_, htraits ▸ h.repeats, ?_⟩, htraits, hupdate⟩
  · rw [Product.key_eq_of_traits htraits]
    exact h.key
  · refine Carries.incur_own h.counts (isLasting_counts j) (fun _ => not_false) ?_ h.rightful
      htokens hforeign ?_
    · intro l now own outcome hcounts
      exact hcounts.modify l (fun p => Product.key_eq_of_traits (p.traits_synchronize now ∅))
        fun p r hexpects => hexpects.synchronize now ∅
    · intro now _ answer own hanswer now' d
      rw [Operation.transform_onIndex_of_some h.there] at hanswer
      obtain ⟨rfl, rfl⟩ := Prod.mk.inj hanswer
      have hexpects := Request.expects_transform h.key h.repeats ⟨now, c.names.next⟩
        c.seen.withoutLock now' d
      refine hexpects.mono fun r hr p' hp' _ => ?_
      rw [List.getElem?_set_self (List.getElem?_eq_some_iff.1 h.there).1] at hp'
      obtain rfl := Option.some.inj hp'
      exact hr

/-- It stays so whatever happens. A product whose history has begun anew is the same otherwise. -/
theorem IsAwaited.undergo (h : g.IsAwaited i j c p) (e : Episode κ)
    (htokens : (g.undergo c e).tokens.Nodup)
    (hforeign : IsForeign i (g.undergo c e) (incidentsOf [e])) :
    ∃ p', g.IsAwaited i j (g.undergo c e) p' ∧ p'.traits = p.traits ∧
      ((p.IsOwn → p.UpdatesTo p') ∨
        ∃ start, e = .redate i j start ∧ p' = p.resetHistory start) := by
  -- neither the beginning of a history nor its upkeep matters for what a product counts on
  have hamend : ∀ (k : κ) (l : Nat) (f : Product → Product), (∀ p, (f p).traits = p.traits) →
      (∀ p, (f p).cache = p.cache) → (∀ p, (f p).isTracking = p.isTracking) →
      ∃ p', g.IsAwaited i j (c.amend k l f) p' ∧ p'.traits = p.traits ∧
        p' = if i = k ∧ l = j then f p else p := by
    intro k l f htraits hcache htracking
    obtain ⟨p', hp'⟩ : ∃ p', p' = if i = k ∧ l = j then f p else p := ⟨_, rfl⟩
    have hthere : ((c.amend k l f).writers i).own[j]? = some p' := by
      rw [c.getElem?_amend k l f i j, h.there, hp', Option.map_some]
    have hsame : p'.traits = p.traits := by
      rw [hp']
      split
      · exact htraits p
      · rfl
    refine ⟨p', ⟨h.rightful.amend k l f, hthere, ?_, hsame ▸ h.repeats, ?_⟩, hsame, hp'⟩
    · rw [Product.key_eq_of_traits hsame]
      exact h.key
    · refine Carries.amend h.counts (fun own outcome hcounts => ?_) k
      exact hcounts.modify l (fun p => Product.key_eq_of_traits (htraits p))
        fun p r hexpects => hexpects.congr (htraits p) (hcache p) (htracking p)
  cases e with
  | incident e =>
    obtain ⟨p', h', htraits, hupdate⟩ := h.update e htokens hforeign
    exact ⟨p', h', htraits, .inl hupdate⟩
  | redate k l start =>
    obtain ⟨p', h', htraits, hp'⟩ :=
      hamend k l (·.resetHistory start) (fun _ => rfl) (fun _ => rfl) fun _ => rfl
    refine ⟨p', h', htraits, ?_⟩
    split at hp'
    · next hsame => exact .inr ⟨start, by rw [hsame.1, hsame.2], hp'⟩
    · rw [hp']
      exact .inl fun _ => p.updatesTo_refl
  | tidy k l now =>
    obtain ⟨p', h', htraits, hp'⟩ :=
      hamend k l (·.clearOldHistory now) (fun _ => rfl) (fun _ => rfl) fun _ => rfl
    refine ⟨p', h', htraits, .inl fun _ => ?_⟩
    rw [hp']
    split
    · exact .tidying now
    · exact p.updatesTo_refl

theorem IsAwaited.undergoAll {episodes : List (Episode κ)} (h : g.IsAwaited i j c p)
    (htokens : (g.undergoAll c episodes).tokens.Nodup)
    (hforeign : IsForeign i (g.undergoAll c episodes) (incidentsOf episodes)) :
    ∃ p', g.IsAwaited i j (g.undergoAll c episodes) p' ∧
      ((∀ start, .redate i j start ∉ episodes) → ∀ ends, p.Mirrors ends → p'.Mirrors ends) := by
  induction episodes generalizing c p with
  | nil => exact ⟨p, h, fun _ _ hmirrors => hmirrors⟩
  | cons e episodes ih =>
    have hlater := g.suffix_journal_undergoAll (g.undergo c e) episodes
    obtain ⟨p', h', htraits, hupdate⟩ :=
      h.undergo e (nodup_tokens_of_suffix hlater htokens) (hforeign.head_incidentsOf hlater)
    obtain ⟨p'', h'', hkept⟩ := ih h' htokens hforeign.tail_incidentsOf
    refine ⟨p'', h'', fun honce ends hmirrors => hkept (fun start hmem => ?_) ends ?_⟩
    · exact honce start (List.mem_cons_of_mem e hmem)
    · rcases hupdate with hupdate | ⟨start, rfl, -⟩
      · exact hmirrors.update htraits (hupdate hmirrors.isOwn)
      · exact absurd List.mem_cons_self (honce start)

/-- Writers carry out requests of their products, call by call and in any order; texts are put into
the cell from outside that carry no token of a writer, products end their own sessions when they
have to give up, begin their histories and forget old contexts. Consider a product that repeats its
own answers. Its first request is not dropped, so its cache holds an answer of its own when its
history begins (`Product.owns_renewSettled`).

From then on, whenever a context is current, the product has a session and the context is that of
its cache. And whenever it has a session, the context of its cache is current -- or what it has
stored is that it does not track, and a session of its own has ended since its history began. -/
theorem context_mirrors_cache (g : Gathering κ) (i : κ) (j : Nat) (p₀ p q : Product)
    (hp₀ : (g.products i)[j]? = some p₀) (hkey : Record.IsProductKey p₀.key)
    (hrepeats : p₀.traits.RepeatsItself) (past future : List (Episode κ))
    (start : Timestamp) (honce : ∀ t, .redate i j t ∉ future)
    (htokens : (g.undergoAll g.first (past ++ .redate i j start :: future)).tokens.Nodup)
    (hforeign : IsForeign i (g.undergoAll g.first (past ++ .redate i j start :: future))
      (incidentsOf (past ++ .redate i j start :: future)))
    (hp : ((g.undergoAll g.first past).writers i).own[j]? = some p)
    (hown : ∃ d, p.Owns d p.cache)
    (hq : ((g.undergoAll g.first (past ++ .redate i j start :: future)).writers i).own[j]?
      = some q) :
    (∀ context, q.find? none = some context →
      q.hasSession = true ∧ context = q.contextOf q.cache) ∧
    (q.hasSession = true → q.find? none = some (q.contextOf q.cache) ∨
      q.Declines ∧ Product.endings p.notices < Product.endings q.notices) := by
  have hwhole : g.undergoAll g.first (past ++ .redate i j start :: future)
      = g.undergoAll (g.undergo (g.undergoAll g.first past) (.redate i j start)) future :=
    List.foldl_append
  rw [hwhole] at htokens hforeign hq
  have hlast := g.suffix_journal_undergoAll
    (g.undergo (g.undergoAll g.first past) (.redate i j start)) future
  have hmiddle := (g.suffix_journal_undergo (g.undergoAll g.first past) (.redate i j start)).trans
    hlast
  have hpast : incidentsOf past ⊆ incidentsOf (past ++ .redate i j start :: future) :=
    ((List.sublist_append_left _ _).filterMap _).subset
  have hfuture : incidentsOf future ⊆ incidentsOf (past ++ .redate i j start :: future) :=
    (((List.sublist_cons_self _ _).trans (List.sublist_append_right _ _)).filterMap _).subset
  have hfirst : g.IsAwaited i j g.first p₀ :=
    ⟨rightful_start _ _ _ _, hp₀, hkey, hrepeats, carries_first⟩
  obtain ⟨p', hbefore, -⟩ := hfirst.undergoAll (nodup_tokens_of_suffix hmiddle htokens)
    (hforeign.of_subset hpast hmiddle)
  obtain rfl := Option.some.inj (hp.symm.trans hbefore.there)
  obtain ⟨p', hbegun, -, -⟩ := hbefore.undergo (.redate i j start)
    (nodup_tokens_of_suffix hlast htokens) fun raw hraw => absurd hraw List.not_mem_nil
  have hthere : ((g.undergo (g.undergoAll g.first past) (.redate i j start)).writers i).own[j]?
      = some (p.resetHistory start) := by
    refine (getElem?_amend _ i j (·.resetHistory start) i j).trans ?_
    rw [hp, Option.map_some, if_pos ⟨rfl, rfl⟩]
  obtain rfl := Option.some.inj (hthere.symm.trans hbegun.there)
  obtain ⟨q', hend, hkept⟩ := hbegun.undergoAll htokens
    (hforeign.of_subset hfuture (List.suffix_refl _))
  obtain rfl := Option.some.inj (hq.symm.trans hend.there)
  obtain ⟨d, hd⟩ := hown
  have hmirrors := hkept honce _ (Product.mirrors_resetHistory hd start)
  refine ⟨hmirrors.shown, fun hafter => ?_⟩
  cases hcurrent : q.history.current? with
  | none => exact .inr (hmirrors.hidden hafter hcurrent)
  | some context =>
    refine .inl ?_
    rw [← (hmirrors.shown context hcurrent).2]
    exact hcurrent

/-- A tab with one product, which decides the same at all times. It begins a session, ends it and
begins another one. -/
def resumingTab (decision : Decision) : Gathering Unit where
  locking := true
  policy _ := ⟨.ofMillis 10, 2, .ofMillis 900⟩
  agenda _ := [(0, .expandOrRenew), (0, .expire), (0, .expandOrRenew)]
  cell := none
  names := .tallies
  products _ := [.new "a" (fun _ _ => decision) (.ofMillis 900) .epoch ∅]

/-- The calls of the first request. -/
def starting : List (Episode Unit) := List.replicate 7 (.incident (.move (.call () .epoch)))

/-- The calls of the others; in between, old contexts are forgotten. -/
def resuming : List (Episode Unit) :=
  List.replicate 5 (.incident (.move (.call () .epoch))) ++
    .tidy () 0 (Timestamp.epoch.add 5000) :: starting

/-- A product that does not track has a session of its own again, but no context is current. -/
theorem context_missing_after_end :
    (((resumingTab .sampledOut).undergoAll (resumingTab .sampledOut).first
        (starting ++ .redate () 0 .epoch :: resuming)).writers ()).own.map
      (fun p => (p.hasSession, p.find? none)) = [(true, none)] := by
  decide +kernel

/-- One that tracks has the context of its second session. -/
theorem context_mirrors_cache_resumed :
    ∃ q, (((resumingTab .sampledIn).undergoAll (resumingTab .sampledIn).first
        (starting ++ .redate () 0 .epoch :: resuming)).writers ()).own = [q] ∧
      q.notices.length = 3 ∧ q.find? none = some (q.contextOf q.cache) := by
  have hbefore : (((resumingTab .sampledIn).undergoAll (resumingTab .sampledIn).first
      starting).writers ()).own.map
        (fun p => (p.compute 0 none, p.cache.get? p.key, p.cache.id?.isSome))
          = [(.sampledIn, some "1", true)] := by decide +kernel
  have hafter : (((resumingTab .sampledIn).undergoAll (resumingTab .sampledIn).first
      (starting ++ .redate () 0 .epoch :: resuming)).writers ()).own.map
        (fun q => (q.notices.length, (q.find? none).isSome)) = [(3, true)] := by
    decide +kernel
  obtain ⟨p, hp, hstate⟩ := List.map_eq_singleton_iff.1 hbefore
  simp only [Prod.mk.injEq] at hstate
  obtain ⟨hanswer, hword, hid⟩ := hstate
  have hown : p.Owns .sampledIn p.cache := ⟨⟨0, none, hanswer⟩, hword, fun _ => hid⟩
  obtain ⟨q, hq, hshown⟩ := List.map_eq_singleton_iff.1 hafter
  obtain ⟨hnotices, hsome⟩ := Prod.mk.inj hshown
  obtain ⟨context, hcontext⟩ := Option.isSome_iff_exists.1 hsome
  have hforeign : IsForeign () ((resumingTab .sampledIn).undergoAll (resumingTab .sampledIn).first
      (starting ++ .redate () 0 .epoch :: resuming))
        (incidentsOf (starting ++ .redate () 0 .epoch :: resuming)) := by
    intro raw hraw
    simp [incidentsOf, starting, resuming] at hraw
  have hmirrors := (context_mirrors_cache (resumingTab .sampledIn) () 0 _ p q rfl (by decide)
    (fun _ _ _ => rfl) starting resuming .epoch (by simp [starting, resuming]) (by decide +kernel)
    hforeign (by rw [hp]; rfl) ⟨_, hown⟩ (by rw [hq]; rfl)).1 context hcontext
  exact ⟨q, hq, hnotices, hcontext.trans (congrArg some hmirrors.2)⟩

end Gathering

end SharedSession
