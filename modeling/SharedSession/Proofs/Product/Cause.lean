import SharedSession.Proofs.Product.Coexistence
import SharedSession.Proofs.Product.Ending

set_option autoImplicit false

/-!
# What makes a session end

A product that announces the end of its session has found an end in the record that it compared its
cache with: there is no session in it, the product's own word is gone or another one, or it holds
another identifier than the cache. Others who begin a session in the same live record, whatever they
decide and whenever they come, end nothing for a product whose session has an identifier.

But an identifier that the session did not have yet counts as another one. A product that does not
track begins a session without an identifier; when the first product that tracks joins the session,
it gets one, and the product takes that for the end.

Main statements: `Product.endsIn_of_synchronize`, `Gathering.IsPlaced.endsIn`,
`Gathering.Shares.incur`, `Gathering.ended_with_cause`, `Gathering.ended_by_newcomer`.
-/

namespace SharedSession

namespace Product

/-- The session that a product has is over in a record: there is none, or the product's word is not
the one that it has, or the identifier is not that of its session any more. -/
inductive EndsIn (p : Product) (now : Timestamp) (r : Record) : Prop where
  | over (h : r.IsOver now p.timeOut)
  | disowned (h : r.get? p.key ≠ p.cache.get? p.key)
  | replaced {id : String} (h : p.cache.id? = some id) (hother : r.id? ≠ some id)

instance (p : Product) (now : Timestamp) (r : Record) : Decidable (p.EndsIn now r) :=
  decidable_of_iff ((r.liveAt now p.timeOut).isCleared = true ∨
    r.get? p.key ≠ p.cache.get? p.key ∨ p.cache.id?.isSome ∧ r.id? ≠ p.cache.id?) <| by
    constructor
    · rintro (h | h | ⟨h, hother⟩)
      · exact .over h
      · exact .disowned h
      · obtain ⟨id, hid⟩ := Option.isSome_iff_exists.1 h
        exact .replaced hid (hid ▸ hother)
    · rintro (h | h | ⟨h, hother⟩)
      · exact .inl h
      · exact .inr (.inl h)
      · exact .inr (.inr ⟨Option.isSome_iff_exists.2 ⟨_, h⟩, h ▸ hother⟩)

/-- The session that a product has was without an identifier, and it has one in a record. -/
def IsJoinedIn (p : Product) (r : Record) : Prop := p.cache.id? = none ∧ r.id?.isSome

variable {p : Product} {now : Timestamp} {r s : Record}

/-- Who announces an end has found one in the record, or takes a new identifier for one. Of the
record only the life and the product's word matter. -/
theorem endsIn_of_synchronize {id : Option String}
    (h : (p.synchronize now r).notices = .expired id :: p.notices) (hlife : s.life = r.life)
    (hword : s.get? p.key = r.get? p.key) : p.EndsIn now s ∨ p.IsJoinedIn s := by
  unfold synchronize at h
  dsimp only at h
  split at h
  · split at h
    · next houtdated =>
      cases hactive : s.isActive now p.timeOut with
      | false => exact .inl (.over (Record.isOver_iff.2 (.inl hactive)))
      | true =>
        have hid : r.id? = s.id? := (congrArg Life.id hlife).symm
        rw [Record.isActive_of_life hlife] at hactive
        rw [Record.liveAt_of_active hactive, isOutdatedBy, hid, ← hword, Bool.or_eq_true,
          bne_iff_ne, bne_iff_ne] at houtdated
        rcases houtdated with hother | hother
        · cases hcache : p.cache.id? with
          | some id =>
            rw [hcache] at hother
            exact .inl (.replaced hcache hother.symm)
          | none =>
            rw [hcache] at hother
            exact .inr ⟨hcache, Option.isSome_iff_ne_none.2 hother.symm⟩
        · exact .inl (.disowned hother.symm)
    · exact absurd h.symm (List.cons_ne_self _ _)
  · exact absurd h.symm (List.cons_ne_self _ _)

/-- Who finds its session in the record goes on with it. -/
theorem synchronize_of_same (hactive : r.isActive now p.timeOut = true)
    (hid : p.cache.id? = r.id?) (hword : p.cache.get? p.key = r.get? p.key) :
    p.synchronize now r = if p.hasSession then { p with cache := r } else p := by
  have hsame : p.isOutdatedBy r = false := by
    unfold isOutdatedBy
    rw [hid, hword, bne_self_eq_false, bne_self_eq_false]
    rfl
  unfold synchronize
  rw [Record.liveAt_of_active hactive]
  simp only [hsame]
  rfl

end Product

/-! ## A session that goes on -/

namespace Record

/-- A record holds a certain session, with a certain word under a key. -/
structure Holds (id key word : String) (r : Record) : Prop where
  id : r.id? = some id
  word : r.get? key = some word

variable {id key word : String} {r : Record}

instance (id key word : String) (r : Record) : Decidable (r.Holds id key word) :=
  decidable_of_iff (r.id? = some id ∧ r.get? key = some word)
    ⟨fun h => ⟨h.1, h.2⟩, fun h => ⟨h.id, h.word⟩⟩

theorem isLasting_holds (id word : String) (hkey : IsProductKey key) :
    IsLasting (Holds id key word) where
  withLock r token h := ⟨(get?_withLock (by decide) token).trans h.id,
    (get?_withLock hkey.notLock token).trans h.word⟩
  withoutLock r h := ⟨(get?_withoutLock (by decide)).trans h.id,
    (get?_withoutLock hkey.notLock).trans h.word⟩
  stored r h := ⟨(get?_ofStored_stored r (by decide)).trans h.id,
    (get?_ofStored_stored r hkey.written).trans h.word⟩

theorem Holds.expand (h : r.Holds id key word) (hkey : IsProductKey key) (now : Timestamp)
    (d : Span) : (r.expand now d).Holds id key word where
  id := (get?_expand (by decide) now d).trans h.id
  word := (get?_expand hkey.notExpire now d).trans h.word

theorem not_holds_empty : ¬ (∅ : Record).Holds id key word := fun h => id?_empty_ne id h.id

end Record

/-- Whoever has a certain key repeats a certain word when it is found there. -/
def Traits.Repeats (key word : String) (t : Traits) : Prop :=
  t.key = key → ∀ n, (t.compute n (some word)).trackingType = word

/-- What a product stores in a live session, unless it ends it, goes on holding the session, and the
word of everybody who has another key or the same word. -/
theorem Request.holds_transform {q : Request} (hq : q ≠ .expire) {p : Product}
    (hown : Record.IsProductKey p.key) {id key word : String} (hkey : Record.IsProductKey key)
    (hrepeats : p.traits.Repeats key word) {o : Occasion} {r : Record}
    (hactive : r.isActive o.now p.timeOut = true) (h : r.Holds id key word) :
    (q.operation.transform o r p).1.Leaves (Record.Holds id key word) := by
  have hlive : r.liveAt o.now p.timeOut = r := Record.liveAt_of_active hactive
  have hanswers := q.answers_transform o r p
  generalize q.operation.transform o r p = x at hanswers ⊢
  cases hanswers with
  | renewing =>
    rw [hlive]
    have hrespects := fun decision : Decision =>
      (Record.respects_refl {p.key} r).record hown rfl decision o.now o.fresh
    refine ⟨?_, ?_⟩
    · rw [((hrespects _).identity (by rw [h.id]; rfl)).1]
      exact h.id
    · by_cases hsame : p.key = key
      · rw [hsame, Product.get?_record_key hkey, h.word]
        exact congrArg some (hrepeats hsame _)
      · rw [(hrespects _).rest key hkey (Ne.symm hsame)]
        exact h.word
  | prolonging =>
    rw [hlive]
    exact h
  | abstaining => trivial
  | keeping => trivial
  | removing hdead => exact absurd (hactive.symm.trans hdead) nofun
  | ending => exact absurd rfl hq

namespace Product

/-- A product has a certain session in its cache, with a certain word of its own, or none. -/
def Shares (id word : String) (p : Product) : Prop :=
  p.hasSession = false ∨ p.cache.Holds id p.key word

/-- What becomes of a product that goes on with a session: it announces no end. -/
structure GoesOn (id word : String) (p q : Product) : Prop where
  traits : q.traits = p.traits
  shares : q.Shares id word
  notices : ∃ later, q.notices = later ++ p.notices ∧ ∀ n ∈ later, n.isRenewal = true

variable {id word : String} {p q q' : Product} {now : Timestamp} {r : Record}

theorem goesOn_refl (h : p.Shares id word) : p.GoesOn id word p :=
  ⟨rfl, h, [], rfl, List.forall_mem_nil _⟩

theorem GoesOn.trans (h : p.GoesOn id word q) (h' : q.GoesOn id word q') :
    p.GoesOn id word q' := by
  obtain ⟨later, hq, hlater⟩ := h.notices
  obtain ⟨latest, hq', hlatest⟩ := h'.notices
  refine ⟨h'.traits.trans h.traits, h'.shares, latest ++ later, ?_, ?_⟩
  · rw [hq', hq, List.append_assoc]
  · exact List.forall_mem_append.2 ⟨hlatest, hlater⟩

theorem goesOn_of_cache (hcache : r.Holds id p.key word) (htraits : q.traits = p.traits)
    (hafter : q.cache = r)
    (hnotices : q.notices = p.notices ∨ q.notices = .renewed r.id? :: p.notices) :
    p.GoesOn id word q where
  traits := htraits
  shares := by
    refine .inr ?_
    rw [hafter, key_eq_of_traits htraits]
    exact hcache
  notices := by
    rcases hnotices with hsame | hnew
    · exact ⟨[], hsame, List.forall_mem_nil _⟩
    · exact ⟨[_], hnew, List.forall_mem_singleton.2 rfl⟩

/-- Who shares a session goes on with a record that holds it. -/
theorem goesOn_synchronize (h : p.Shares id word) (hr : r.Holds id p.key word)
    (hactive : r.isActive now p.timeOut = true) : p.GoesOn id word (p.synchronize now r) := by
  rcases h with hnone | hcache
  · have hstays : p.synchronize now r = p := by
      unfold synchronize
      rw [hnone]
      rfl
    rw [hstays]
    exact goesOn_refl (.inl hnone)
  · have hid : p.cache.id? = r.id? := hcache.id.trans hr.id.symm
    have hword : p.cache.get? p.key = r.get? p.key := hcache.word.trans hr.word.symm
    rw [synchronize_of_same hactive hid hword]
    split
    · exact goesOn_of_cache hr rfl rfl (.inl rfl)
    · exact goesOn_refl (.inr hcache)

end Product

namespace Request

variable {q : Request} {id word : String} {p : Product} {o : Occasion} {now : Timestamp}
  {r : Record}

theorem goesOn_transform (h : p.Shares id word) (hr : r.Holds id p.key word)
    (hactive : r.isActive o.now p.timeOut = true) :
    p.GoesOn id word (q.operation.transform o r p).2 := by
  have hanswers := q.answers_transform o r p
  generalize q.operation.transform o r p = x at hanswers ⊢
  cases hanswers with
  | renewing =>
    obtain ⟨htraits, hshares, hnotices⟩ := Product.goesOn_synchronize h hr hactive
    exact ⟨htraits, hshares, hnotices⟩
  | prolonging => exact Product.goesOn_synchronize h hr hactive
  | _ => exact Product.goesOn_refl h

theorem goesOn_settle (hq : q ≠ .expire) (h : p.Shares id word) (hr : r.Holds id p.key word)
    (hactive : r.isActive now p.timeOut = true) :
    p.GoesOn id word (q.operation.settle now r p) := by
  cases q with
  | expandOrRenew =>
    show p.GoesOn id word (Product.renewSettled now r p)
    unfold Product.renewSettled
    split
    · exact Product.goesOn_of_cache hr rfl rfl (.inr rfl)
    · exact Product.goesOn_of_cache hr rfl rfl (.inl rfl)
  | expand => exact Product.goesOn_refl h
  | watch => exact Product.goesOn_synchronize h hr hactive
  | expire => exact absurd rfl hq

end Request

/-- So it does whatever a call does to it, as long as the session is live. -/
theorem Contest.Contact.goesOn {q : Request} {now : Timestamp} {fresh : String}
    {cell cell' : Option String} {s : Stage} {p p' : Product} {id word : String}
    (h : Contact q now fresh cell s p p' cell') (hq : q ≠ .expire)
    (hkey : Record.IsProductKey p.key) (hshares : p.Shares id word)
    (hcell : (Record.ofStored cell).Holds id p.key word)
    (hhand : ∀ r ∈ s.settling?, r.Holds id p.key word)
    (hactive : (Record.ofStored cell').isActive now p.timeOut = true) :
    p.GoesOn id word p' := by
  have hgiven := (Record.isLasting_holds id word hkey).withoutLock _ hcell
  cases h with
  | asked =>
    refine Request.goesOn_transform hshares hgiven ?_
    rwa [Record.isActive_withoutLock]
  | @told r hr =>
    refine Request.goesOn_settle hq hshares (hhand r hr) ?_
    rwa [← Record.isActive_of_life (Record.life_ofStored_stored r)]
  | spared hanswer =>
    refine Request.goesOn_settle hq hshares hgiven ?_
    rwa [Record.isActive_withoutLock]

/-! ## Whatever happens -/

namespace Gathering

open Contest

section

variable {κ : Type} [DecidableEq κ] {g : Gathering κ} {i : κ} {j : Nat}
  {c : Contest κ (List Product)} {p p' : Product} {e : Incident κ}

/-- A product that is where it is, and its writer's wish to end the session stores nothing. -/
structure IsPlaced (g : Gathering κ) (i : κ) (j : Nat) (c : Contest κ (List Product))
    (p : Product) : Prop where
  rightful : c.Rightful
  there : (c.writers i).own[j]? = some p
  key : Record.IsProductKey p.key
  ends : g.Carries i (j, .expire) (· = .clear) c

theorem IsPlaced.incur (h : g.IsPlaced i j c p) (e : Incident κ)
    (htokens : (g.incur c e).tokens.Nodup) (hforeign : IsForeign i (g.incur c e) [e]) :
    ∃ p', g.IsPlaced i j (g.incur c e) p' := by
  obtain ⟨p', hp', htraits, -⟩ :=
    g.learns_incur (P := fun _ => True) h.there (fun _ _ _ => trivial) e
  refine ⟨p', g.rightful_incur h.rightful e, hp', ?_,
    ends_incur h.ends h.rightful h.there htokens hforeign⟩
  rw [Product.key_eq_of_traits htraits]
  exact h.key

theorem IsPlaced.incurAll {incidents : List (Incident κ)} (h : g.IsPlaced i j c p)
    (htokens : (g.incurAll c incidents).tokens.Nodup)
    (hforeign : IsForeign i (g.incurAll c incidents) incidents) :
    ∃ p', g.IsPlaced i j (g.incurAll c incidents) p' := by
  induction incidents generalizing c p with
  | nil => exact ⟨p, h⟩
  | cons e incidents ih =>
    have hlater := g.suffix_journal_incurAll (g.incur c e) incidents
    obtain ⟨p', h'⟩ :=
      h.incur e (nodup_tokens_of_suffix hlater htokens) (hforeign.head hlater)
    exact ih h' htokens hforeign.tail

/-- The end that is announced is in the cell, unless the product gives up. -/
theorem IsPlaced.endsIn (h : g.IsPlaced i j c p) {id : Option String}
    (hp' : ((g.incur c e).writers i).own[j]? = some p')
    (hended : p'.notices = .expired id :: p.notices) :
    (∃ now, e = .giveUp i j now) ∨ ∃ now, e = .move (.call i now) ∧
      (p.EndsIn now (g.incur c e).seen ∨ p.IsJoinedIn (g.incur c e).seen) := by
  rcases exists_synchronize h.ends h.there h.key hp' hended with
    hgiveUp | ⟨now, r, hcall, hr, hlife, hword⟩
  · exact .inl hgiveUp
  · exact .inr ⟨now, hcall, Product.endsIn_of_synchronize hr hlife hword⟩

/-! ## Nobody ends the session -/

variable {id key word : String}

/-- The next thing that happens is a call of a writer, and the session is live for the product that
it is for, before the call and after it. -/
def IsLively (g : Gathering κ) (c : Contest κ (List Product)) : Incident κ → Prop
  | .move (.call i now) => ∀ p ∈ c.party? g.agenda i,
      c.seen.isActive now p.timeOut = true ∧
        (g.incur c (.move (.call i now))).seen.isActive now p.timeOut = true
  | _ => False

instance (g : Gathering κ) (c : Contest κ (List Product)) (e : Incident κ) :
    Decidable (g.IsLively c e) := by
  unfold IsLively
  split <;> infer_instance

/-- It is so with everything that happens. -/
def StaysLively (g : Gathering κ) : List (Incident κ) → Contest κ (List Product) → Prop
  | [], _ => True
  | e :: incidents, c => g.IsLively c e ∧ g.StaysLively incidents (g.incur c e)

instance (g : Gathering κ) (incidents : List (Incident κ)) (c : Contest κ (List Product)) :
    Decidable (g.StaysLively incidents c) := by
  induction incidents generalizing c with
  | nil => exact .isTrue trivial
  | cons e incidents ih => exact @instDecidableAnd _ _ _ (ih _)

/-- A certain session is in the cell and in every writer's hands, and everybody whose key it is
repeats the word there and has that session in its cache, or none. -/
structure Harbours (id key word : String) (c : Contest κ (List Product)) : Prop where
  sustains : c.Sustains (Record.Holds id key word)
  isProductKey : Record.IsProductKey key
  traits : ∀ i, ∀ t ∈ traitsOf (c.writers i).own,
    Record.IsProductKey t.key ∧ t.Repeats key word
  shares : ∀ i, ∀ p ∈ (c.writers i).own, p.key = key → p.Shares id word

/-- While nobody ends the session, every product of the key goes on with it. -/
theorem Harbours.goesOn (h : Harbours id key word c) (hagenda : Peaceful g.agenda)
    (hlively : g.IsLively c e) (hp : (c.writers i).own[j]? = some p) (hkey : p.key = key) :
    ∃ p', ((g.incur c e).writers i).own[j]? = some p' ∧ p.GoesOn id word p' := by
  have hshares := h.shares i p (List.mem_of_getElem? hp) hkey
  obtain ⟨p', hp', rfl | ⟨now, rfl, -⟩ | ⟨now, q, rfl, hrequest, hcontact⟩⟩ := g.contact_incur hp e
  · exact ⟨p', hp', Product.goesOn_refl hshares⟩
  · exact hlively.elim
  · subst hkey
    have hq : q ≠ .expire := hagenda i _ (List.mem_of_getElem? hrequest)
    have hparty : p ∈ c.party? g.agenda i := Option.bind_eq_some_iff.2 ⟨_, hrequest, hp⟩
    have hhand : ∀ r ∈ (c.writers i).stage.settling?, r.Holds id p.key word := by
      intro r hr
      have hinhand := h.sustains.hands i
      cases hstage : (c.writers i).stage with
      | clearing =>
        rw [hstage] at hinhand
        exact absurd hinhand Record.not_holds_empty
      | releasing r' =>
        rw [hstage] at hinhand hr
        obtain rfl := Option.some.inj hr
        exact hinhand
      | _ => rw [hstage] at hr; cases hr
    have hlive := (hlively p hparty).2
    exact ⟨p', hp', hcontact.goesOn hq h.isProductKey hshares h.sustains.cell hhand hlive⟩

/-- What is decided about the session goes on holding it. -/
theorem Harbours.sustains_callOn (h : Harbours id key word c) (hagenda : Peaceful g.agenda)
    (htokens : c.tokens.Nodup) {now : Timestamp}
    (hactive : ∀ p ∈ c.party? g.agenda i, c.seen.isActive now p.timeOut = true) :
    (c.callOn g.locking g.work i now).Sustains (Record.Holds id key word) := by
  have hlasting := Record.isLasting_holds id word h.isProductKey
  refine h.sustains.callOn hlasting htokens ?_
  intro op hcurrent _ answer own hanswer now' d
  rw [work, current?_ofRequests] at hcurrent
  obtain ⟨⟨l, q⟩, hrequest, rfl⟩ := Option.map_eq_some_iff.1 hcurrent
  rcases Operation.transform_onIndex_cases hanswer with ⟨rfl, -⟩ | ⟨p, hp, rfl, -⟩
  · trivial
  · have hq : q ≠ .expire := hagenda i _ (List.mem_of_getElem? hrequest)
    have hparty : p ∈ c.party? g.agenda i := Option.bind_eq_some_iff.2 ⟨_, hrequest, hp⟩
    have hgiven : c.seen.withoutLock.isActive now p.timeOut = true := by
      rw [Record.isActive_withoutLock]
      exact hactive p hparty
    obtain ⟨hown, hrepeats⟩ := h.traits i p.traits (List.mem_map_of_mem (List.mem_of_getElem? hp))
    refine Outcome.leaves_resolve hlasting (fun r hr => hr.expand h.isProductKey now' d) ?_
      (Request.holds_transform hq hown h.isProductKey hrepeats hgiven
        (hlasting.withoutLock _ h.sustains.cell))
    intro r hr hcleared
    rw [Record.isCleared_eq_false h.isProductKey.toIsPlainKey hr.word] at hcleared
    cases hcleared

theorem Harbours.incur (h : Harbours id key word c) (hagenda : Peaceful g.agenda)
    (htokens : c.tokens.Nodup) (hlively : g.IsLively c e) : Harbours id key word (g.incur c e) := by
  refine ⟨?_, h.isProductKey, ?_, ?_⟩
  · cases e with
    | move m =>
      cases m with
      | call k now => exact h.sustains_callOn hagenda htokens fun p hp => (hlively p hp).1
      | overwrite raw => exact hlively.elim
    | giveUp k l now => exact hlively.elim
  · intro i
    rw [g.traitsOf_incur c e i]
    exact h.traits i
  · intro i p' hp' hkey
    obtain ⟨j, hj⟩ := List.mem_iff_getElem?.1 hp'
    obtain ⟨p, hp, heq⟩ := exists_of_traitsOf_eq (g.traitsOf_incur c e i) hj
    rw [← Product.key_eq_of_traits heq] at hkey
    obtain ⟨p'', hp'', hgoesOn⟩ := h.goesOn hagenda hlively hp hkey
    obtain rfl := Option.some.inj (hj.symm.trans hp'')
    exact hgoesOn.shares

theorem Harbours.incurAll {incidents : List (Incident κ)} (h : Harbours id key word c)
    (hagenda : Peaceful g.agenda) (htokens : (g.incurAll c incidents).tokens.Nodup)
    (hlively : g.StaysLively incidents c) (hp : (c.writers i).own[j]? = some p)
    (hkey : p.key = key) :
    ∃ q, ((g.incurAll c incidents).writers i).own[j]? = some q ∧ p.GoesOn id word q := by
  induction incidents generalizing c p with
  | nil => exact ⟨p, hp, Product.goesOn_refl (h.shares i p (List.mem_of_getElem? hp) hkey)⟩
  | cons e incidents ih =>
    obtain ⟨hnow, hlater⟩ := hlively
    have hearlier := (g.suffix_journal_incur c e).trans
      (g.suffix_journal_incurAll (g.incur c e) incidents)
    obtain ⟨p', hp', hfirst⟩ := h.goesOn hagenda hnow hp hkey
    obtain ⟨q, hq, hrest⟩ := ih (h.incur hagenda (nodup_tokens_of_suffix hearlier htokens) hnow)
      htokens hlater hp' ((Product.key_eq_of_traits hfirst.traits).trans hkey)
    exact ⟨q, hq, hfirst.trans hrest⟩

end

section

variable {κ : Type} [DecidableEq κ]

/-- No end without a cause. Writers carry out requests of their products, call by call and in any
order; texts are put into the cell from outside that carry no token of a writer, and products end
their own sessions when they have to give up.

If a product announces the end of its session and does not give up, it does so in a call of its own
writer, and what the call leaves in the cell shows the cause: there is no session, or the product's
word is not the one in its cache, or its cache has an identifier and the session another one or none
-- or its cache has none and the session has one.

And while nobody ends the live session that is in the cell, and it has an identifier, whoever joins
it makes nobody announce an end: a product of any writer that has the session in its cache, or none,
goes on with it, as long as those who have the same key repeat the word that is there. -/
theorem ended_with_cause (g : Gathering κ)
    (hkeys : ∀ i, ∀ p ∈ g.products i, Record.IsProductKey p.key) (incidents : List (Incident κ))
    (htokens : (g.amid incidents).tokens.Nodup)
    (hforeign : ∀ i, IsForeign i (g.amid incidents) incidents) :
    (∀ past e future, incidents = past ++ e :: future → ∀ i j p p' id,
      ((g.amid past).writers i).own[j]? = some p →
      ((g.amid (past ++ [e])).writers i).own[j]? = some p' →
      p'.notices = .expired id :: p.notices →
        (∃ now, e = .giveUp i j now) ∨ ∃ now, e = .move (.call i now) ∧
          (p.EndsIn now (g.amid (past ++ [e])).seen ∨
            p.IsJoinedIn (g.amid (past ++ [e])).seen)) ∧
    (∀ id key word, (Record.ofStored g.cell).Holds id key word → Record.IsProductKey key →
      Peaceful g.agenda → g.StaysLively incidents g.first →
      (∀ i, ∀ p ∈ g.products i, p.traits.Repeats key word ∧ (p.key = key → p.Shares id word)) →
        ∀ i (j : Nat) (p : Product), (g.products i)[j]? = some p → p.key = key →
          ∃ q, ((g.amid incidents).writers i).own[j]? = some q ∧ p.GoesOn id word q) := by
  constructor
  · rintro past e future rfl i j p p' id hp hp' hended
    have hnow : g.amid (past ++ [e]) = g.incur (g.amid past) e := g.incurAll_append g.first past [e]
    have hwhole : g.amid (past ++ e :: future) = g.incurAll (g.incur (g.amid past) e) future :=
      g.incurAll_append g.first past (e :: future)
    have hlater : (g.amid past).journal <:+ (g.amid (past ++ e :: future)).journal := by
      rw [hwhole]
      exact (g.suffix_journal_incur (g.amid past) e).trans (g.suffix_journal_incurAll _ future)
    obtain ⟨p₀, hp₀, -⟩ := exists_of_traitsOf_eq (g.traitsOf_incurAll g.first past i) hp
    have hfirst : g.IsPlaced i j g.first p₀ :=
      ⟨rightful_start _ _ _ _, hp₀, hkeys i p₀ (List.mem_of_getElem? hp₀), carries_first⟩
    obtain ⟨q, hq⟩ := hfirst.incurAll (nodup_tokens_of_suffix hlater htokens)
      ((hforeign i).of_subset (List.subset_append_left _ _) hlater)
    obtain rfl := Option.some.inj (hp.symm.trans hq.there)
    rw [hnow] at hp' ⊢
    exact hq.endsIn hp' hended
  · intro id key word hcell hkey hagenda hlively hproducts i j p hp hown
    have hfirst : Harbours id key word g.first :=
      { sustains := sustains_start (P := Record.Holds id key word) hcell _ _ _
        isProductKey := hkey
        traits := by
          intro i t ht
          obtain ⟨p, hp, rfl⟩ := List.mem_map.1 ht
          exact ⟨hkeys i p hp, (hproducts i p hp).1⟩
        shares := fun i p hp => (hproducts i p hp).2 }
    exact hfirst.incurAll hagenda htokens hlively hp hown

end

/-- A tab whose product does not track, and another one whose product does. Nobody has a session. -/
def mixedTabs : Gathering Bool where
  locking := true
  policy _ := ⟨.ofMillis 10, 2, .ofMillis 900⟩
  agenda
    | false => [(0, .expandOrRenew), (0, .watch)]
    | true => [(0, .expandOrRenew)]
  cell := none
  names := .tallies
  products i := [.new (if i then "b" else "a") (fun _ _ => ⟨i, if i then "1" else "0"⟩)
    (.ofMillis 900) .epoch ∅]

/-- The product that does not track begins a session, the other one joins it, and the first one looks
after the record, but for its last call. -/
def joining : List (Incident Bool) := callsBy false 7 ++ callsBy true 7 ++ callsBy false 5

/-- The same tabs in a session that has an identifier, which the first product knows. -/
def trackedTabs : Gathering Bool :=
  { mixedTabs with
    cell := some "a=0&id=x"
    products := fun i => [.new (if i then "b" else "a") (fun _ _ => ⟨i, if i then "1" else "0"⟩)
      (.ofMillis 900) .epoch (if i then ∅ else Record.ofStored (some "a=0&id=x"))] }

/-- The first product prolongs the session and looks after the record; the other one gives way to it
once before it joins. -/
def mingling : List (Incident Bool) :=
  callsBy false 3 ++ callsBy true 1 ++ callsBy false 4 ++ callsBy true 7 ++ callsBy false 6

theorem isProductKey_mixedTabs :
    (∀ i, ∀ p ∈ mixedTabs.products i, Record.IsProductKey p.key) ∧
      ∀ i, ∀ p ∈ trackedTabs.products i, Record.IsProductKey p.key := by
  have hkeys : ∀ i : Bool, Record.IsProductKey (if i then "b" else "a") := by decide
  constructor
  · intro i p hp
    obtain rfl := List.mem_singleton.1 hp
    exact hkeys i
  · intro i p hp
    obtain rfl := List.mem_singleton.1 hp
    exact hkeys i

/-- In the first session an end is announced because it has got an identifier; in the second one
nobody announces an end. -/
theorem ended_with_cause_mixed :
    (∃ p, ((mixedTabs.amid joining).writers false).own[0]? = some p ∧
      p.IsJoinedIn (mixedTabs.amid (joining ++ [.move (.call false .epoch)])).seen) ∧
    (trackedTabs.amid mingling).cell = some "a=0&b=1&expire=900&id=x" ∧
    ∃ q, ((trackedTabs.amid mingling).writers false).own[0]? = some q ∧
      ∀ n ∈ q.notices, n.isRenewal = true := by
  refine ⟨?_, by decide +kernel, ?_⟩
  · have hforeign : ∀ i, IsForeign i (mixedTabs.amid (joining ++ [.move (.call false .epoch)]))
        (joining ++ [.move (.call false .epoch)]) := by
      intro i raw hraw
      simp [joining, callsBy] at hraw
    have hbefore : ((mixedTabs.amid joining).writers false).own[0]?.map (fun p => (p.notices,
        decide (p.EndsIn .epoch (mixedTabs.amid (joining ++ [.move (.call false .epoch)])).seen)))
          = some ([], false) := by decide +kernel
    have hafter : ((mixedTabs.amid (joining ++ [.move (.call false .epoch)])).writers
        false).own[0]?.map Product.notices = some [.expired none] := by decide +kernel
    obtain ⟨p, hp, hp'⟩ := Option.map_eq_some_iff.1 hbefore
    obtain ⟨p', hp'', hended⟩ := Option.map_eq_some_iff.1 hafter
    obtain ⟨hnotices, hends⟩ := Prod.mk.inj hp'
    rcases (ended_with_cause mixedTabs isProductKey_mixedTabs.1 _ (by decide +kernel) hforeign).1
        joining _ [] rfl false 0 p p' none hp hp'' (by rw [hended, hnotices]) with
      ⟨now, hnow⟩ | ⟨now, hnow, hcause⟩
    · cases hnow
    · cases hnow
      exact ⟨p, hp, hcause.resolve_left (of_decide_eq_false hends)⟩
  · have hforeign : ∀ i, IsForeign i (trackedTabs.amid mingling) mingling := by
      intro i raw hraw
      simp [mingling, callsBy] at hraw
    have hproducts : ∀ i, ∀ p ∈ trackedTabs.products i,
        p.traits.Repeats "a" "0" ∧ (p.key = "a" → p.Shares "x" "0") := by
      intro i p hp
      obtain rfl := List.mem_singleton.1 hp
      cases i with
      | false => exact ⟨fun _ _ => rfl, fun _ => .inr (by decide +kernel)⟩
      | true => exact ⟨fun heq => absurd heq (by decide), fun heq => absurd heq (by decide)⟩
    have hagenda : Peaceful trackedTabs.agenda := by
      intro i
      cases i <;> decide
    obtain ⟨q, hq, hgoesOn⟩ := (ended_with_cause trackedTabs isProductKey_mixedTabs.2 mingling
      (by decide +kernel) hforeign).2 "x" "a" "0" (by decide +kernel) (by decide) hagenda
        (by decide +kernel) hproducts false 0 _ rfl rfl
    obtain ⟨later, hnotices, hlater⟩ := hgoesOn.notices
    refine ⟨q, hq, ?_⟩
    rw [hnotices]
    intro n hn
    exact hlater n ((List.mem_append.1 hn).resolve_right List.not_mem_nil)

/-- The product that does not track announces an end when the other one has joined the session,
although the session is live and its own word is there as before. -/
theorem ended_by_newcomer :
    ((mixedTabs.amid joining).writers false).own.map (fun p => (p.notices,
      decide (p.EndsIn .epoch (mixedTabs.amid (joining ++ callsBy false 1)).seen))) = [([], false)] ∧
    ((mixedTabs.amid (joining ++ callsBy false 1)).writers false).own.map Product.notices
      = [[.expired none]] := by
  decide +kernel

end Gathering

end SharedSession
