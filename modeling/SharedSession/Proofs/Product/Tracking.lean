import SharedSession.Proofs.Product.Coexistence

set_option autoImplicit false

/-!
# An identifier for tracked sessions

Products that sample write one of two words, and with the one that says that they track, they see to
it that the session has an identifier. So an identifier stands in a record exactly if the word of
some product says that it tracks: whoever joins a session, declines it, prolongs it or removes it
keeps to that. An identifier is made together with the date of its creation, and neither changes
without the other.

This is true of each record by itself, so it does not matter who writes over whom.

Main statements: `Record.IsIdentified.record`, `Request.identified_transform`,
`Gathering.identified_iff_tracked`.
-/

namespace SharedSession

namespace Record

variable {keys : Set String} {made : Set Occasion} {r s : Record}

/-- The word of some product says that it tracks the session. -/
def IsTracked (keys : Set String) (r : Record) : Prop :=
  ∃ key ∈ keys, r.get? key = some Decision.trackedWord

/-- The identifier of a record was made at one of some occasions, together with its date. -/
def IsDated (made : Set Occasion) (r : Record) : Prop :=
  ∀ id, r.id? = some id → ∃ o ∈ made, o.fresh = id ∧ r.get? createdKey = some o.now.render

/-- A record has an identifier if it is tracked and only then, and one that was made with its
date. -/
structure IsIdentified (keys : Set String) (made : Set Occasion) (r : Record) : Prop where
  iff : r.id?.isSome ↔ r.IsTracked keys
  dated : r.IsDated made

theorem isTracked_congr (h : ∀ key ∈ keys, r.get? key = s.get? key) :
    r.IsTracked keys ↔ s.IsTracked keys :=
  exists_congr fun key => and_congr_right fun hkey => by rw [h key hkey]

theorem isIdentified_empty (keys : Set String) (made : Set Occasion) :
    (∅ : Record).IsIdentified keys made := by
  constructor
  · simp [IsTracked, id?, get?_empty]
  · intro id hid
    simp [id?, get?_empty] at hid

section

variable (hkeys : ∀ key ∈ keys, IsProductKey key)

include hkeys

/-- Bookkeeping does not matter for that. -/
theorem IsIdentified.congr (h : r.IsIdentified keys made)
    (hsame : ∀ key, IsPlainKey key → s.get? key = r.get? key) : s.IsIdentified keys made := by
  have hid : s.id? = r.id? := hsame idKey ⟨by decide, by decide, by decide⟩
  have hcreated := hsame createdKey ⟨by decide, by decide, by decide⟩
  constructor
  · rw [hid, h.iff]
    exact isTracked_congr fun key hkey => (hsame key (hkeys key hkey).toIsPlainKey).symm
  · intro id hsome
    rw [hcreated]
    exact h.dated id (hid ▸ hsome)

theorem isLasting_isIdentified : IsLasting (IsIdentified keys made) where
  withLock _ token h := h.congr hkeys fun _ hkey => get?_withLock hkey.notLock token
  withoutLock _ h := h.congr hkeys fun _ hkey => get?_withoutLock hkey.notLock
  stored r h := h.congr hkeys fun _ hkey => get?_ofStored_stored r hkey.written

theorem IsIdentified.expand (h : r.IsIdentified keys made) (now : Timestamp) (d : Span) :
    (r.expand now d).IsIdentified keys made :=
  h.congr hkeys fun _ hkey => get?_expand hkey.notExpire now d

/-- A product that samples keeps to it, whether it finds its word or not. -/
theorem IsIdentified.record (h : r.IsIdentified keys made) {key : String} (hkey : key ∈ keys)
    (rate draw : Float) {o : Occasion} (ho : o ∈ made) :
    (Product.record key (Decision.sampled rate draw (r.get? key)) o.now o.fresh r).IsIdentified keys
      made := by
  have hown := hkeys key hkey
  have hword := Decision.sampled_isTracked_iff rate draw (r.get? key)
  have hkept : r.get? key = some Decision.trackedWord →
      (Decision.sampled rate draw (r.get? key)).isTracked = true := by
    intro hprior
    rw [hprior, Decision.sampled_tracked]
    rfl
  generalize Decision.sampled rate draw (r.get? key) = decision at hword hkept ⊢
  constructor
  · rw [Product.id?_record hown]
    cases htracked : decision.isTracked with
    | true =>
      have hthere : (Product.record key decision o.now o.fresh r).IsTracked keys := by
        refine ⟨key, hkey, ?_⟩
        rw [Product.get?_record_key hown, hword.1 htracked]
      refine iff_of_true ?_ hthere
      cases r.id? with
      | none => rfl
      | some id => rfl
    | false =>
      -- neither the word before nor the word after says that the product tracks
      rw [Bool.false_and, if_neg Bool.false_ne_true, h.iff]
      refine exists_congr fun k => and_congr_right fun hk => ?_
      by_cases hsame : k = key
      · subst hsame
        rw [Product.get?_record_key hown, Option.some_inj, ← hword, htracked]
        exact iff_of_false (fun hprior => nomatch htracked.symm.trans (hkept hprior)) nofun
      · rw [Product.get?_record_of_ne hown _ _ _ _ (hkeys k hk) hsame]
  · intro id hid
    rcases Product.get?_record_dates hown decision o.now o.fresh r with
      ⟨hfresh, hcreated⟩ | ⟨hsame, hcreated⟩
    · exact ⟨o, ho, Option.some.inj (hfresh.symm.trans hid), hcreated⟩
    · rw [hcreated]
      exact h.dated id (hsame ▸ hid)

end

theorem IsIdentified.liveAt (h : r.IsIdentified keys made) (now : Timestamp) (timeOut : Span) :
    (r.liveAt now timeOut).IsIdentified keys made := by
  cases hactive : r.isActive now timeOut with
  | true => rwa [liveAt_of_active hactive]
  | false =>
    rw [liveAt_of_inactive hactive]
    exact isIdentified_empty keys made

end Record

/-! ## What is asked for -/

/-- A product that samples: whatever it draws at each call, a word that it finds it keeps. -/
def Product.IsSampled (p : Product) : Prop :=
  ∃ (rate : Float) (draw : Nat → Float), p.compute = fun n => Decision.sampled rate (draw n)

theorem Product.IsSampled.of_traits {p q : Product} (h : p.IsSampled) (htraits : q.traits = p.traits) :
    q.IsSampled := by
  rw [IsSampled, compute_eq_of_traits htraits]
  exact h

/-- What is to be stored keeps to it, whatever the request is. -/
theorem Request.identified_transform (q : Request) {keys : Set String} {made : Set Occasion}
    (hkeys : ∀ key ∈ keys, Record.IsProductKey key) {o : Occasion} (ho : o ∈ made) {r : Record}
    (hr : r.IsIdentified keys made) {p : Product} (hkey : p.key ∈ keys) (hsampled : p.IsSampled) :
    (q.operation.transform o r p).1.Leaves (Record.IsIdentified keys made) := by
  have hlive := hr.liveAt o.now p.timeOut
  have hanswers := q.answers_transform o r p
  generalize q.operation.transform o r p = x at hanswers ⊢
  cases hanswers with
  | renewing =>
    obtain ⟨rate, draw, hcompute⟩ := hsampled
    rw [hcompute]
    exact hlive.record hkeys hkey rate _ ho
  | prolonging => exact hlive
  | abstaining => trivial
  | keeping => trivial
  | removing => exact Record.isIdentified_empty keys made
  | ending => exact Record.isIdentified_empty keys made

/-! ## Whatever happens -/

namespace Gathering

open Contest

variable {κ : Type}

/-- The keys of all products. -/
def keys (g : Gathering κ) : Set String := {key | ∃ i, ∃ p ∈ g.products i, p.key = key}

variable [DecidableEq κ]

/-- The occasions at which a decision is asked for while things happen: the moments of the calls that
ask, and the names that are new then. -/
def occasions (g : Gathering κ) (incidents : List (Incident κ)) : Set Occasion :=
  {o | ∃ past k future, incidents = past ++ .move (.call k o.now) :: future ∧
    ((g.amid past).writers k).stage.asks g.locking (g.amid past).seen = true ∧
    (g.amid past).names.next = o.fresh}

variable {g : Gathering κ} {incidents past future : List (Incident κ)}

/-- What is said of every record stays true, whatever happens next. -/
theorem upholds_incur (hkeys : ∀ i, ∀ p ∈ g.products i, Record.IsProductKey p.key)
    (hsampled : ∀ i, ∀ p ∈ g.products i, p.IsSampled) {e : Incident κ}
    (hwhole : incidents = past ++ e :: future) (hown : ∀ raw, e ≠ .move (.overwrite raw))
    (h : (g.amid past).Upholds (Record.IsIdentified g.keys (g.occasions incidents))) :
    (g.incur (g.amid past) e).Upholds (Record.IsIdentified g.keys (g.occasions incidents)) := by
  have hproper : ∀ key ∈ g.keys, Record.IsProductKey key := by
    rintro _ ⟨i, p, hp, rfl⟩
    exact hkeys i p hp
  have hlasting : Record.IsLasting (Record.IsIdentified g.keys (g.occasions incidents)) :=
    Record.isLasting_isIdentified hproper
  cases e with
  | move m =>
    cases m with
    | call k now =>
      refine h.callOn hlasting fun op hcurrent hasks answer own hanswer now' d => ?_
      rw [work, current?_ofRequests] at hcurrent
      obtain ⟨⟨j, q⟩, -, rfl⟩ := Option.map_eq_some_iff.1 hcurrent
      rcases Operation.transform_onIndex_cases hanswer with ⟨rfl, -⟩ | ⟨p, hp, rfl, -⟩
      · trivial
      · obtain ⟨p₀, hp₀, htraits⟩ := exists_of_traitsOf_eq (g.traitsOf_incurAll g.first past k) hp
        have hmem := List.mem_of_getElem? hp₀
        have ho : (⟨now, (g.amid past).names.next⟩ : Occasion) ∈ g.occasions incidents :=
          ⟨past, k, future, hwhole, hasks, rfl⟩
        have hgiven := hlasting.withoutLock _ h.cell
        refine Outcome.leaves_resolve hlasting (fun r hr => hr.expand hproper _ _)
          (fun _ _ _ => Record.isIdentified_empty _ _) ?_
        exact q.identified_transform hproper ho hgiven
          ⟨k, p₀, hmem, Product.key_eq_of_traits htraits⟩
          ((hsampled k p₀ hmem).of_traits htraits.symm)
    | overwrite raw => exact absurd rfl (hown raw)
  | giveUp k l now =>
    refine ⟨h.cell, fun i seen => ?_⟩
    show (((g.amid past).amend k l (·.synchronize now ∅)).writers i).stage.InHand _ seen
    rw [((g.amid past).writers_amend k l _ i).2.1]
    exact h.hands i seen

/-- An identifier is present exactly if some product tracks. Writers carry out requests of their
products on an empty cell, call by call and in any order, with a lock or without, and products end
their own sessions when they have to give up; nobody else puts anything into the cell. If all
products sample, then whatever is stored at any time has an identifier if and only if the word of
one of them says that it tracks. The identifier is the name that was new when a decision was asked
for, and its date is the moment of that. -/
theorem identified_iff_tracked (g : Gathering κ) (incidents : List (Incident κ))
    (hempty : g.cell = none) (hown : ∀ raw, .move (.overwrite raw) ∉ incidents)
    (hkeys : ∀ i, ∀ p ∈ g.products i, Record.IsProductKey p.key)
    (hsampled : ∀ i, ∀ p ∈ g.products i, p.IsSampled) :
    ((g.amid incidents).seen.id?.isSome ↔
      ∃ i, ∃ p ∈ g.products i, (g.amid incidents).seen.get? p.key = some "1") ∧
    ∀ id, (g.amid incidents).seen.id? = some id → ∃ o ∈ g.occasions incidents, o.fresh = id ∧
      (g.amid incidents).seen.get? Record.createdKey = some o.now.render := by
  have hupholds : ∀ past future, incidents = past ++ future →
      (g.amid past).Upholds (Record.IsIdentified g.keys (g.occasions incidents)) := by
    intro past
    induction past using List.reverseRecOn with
    | nil =>
      intro future _
      refine upholds_start ?_ _ _ _
      rw [hempty]
      exact Record.isIdentified_empty _ _
    | append_singleton past e ih =>
      intro future hwhole
      rw [List.append_assoc] at hwhole
      have hnext : g.amid (past ++ [e]) = g.incur (g.amid past) e :=
        g.incurAll_append g.first past [e]
      rw [hnext]
      refine upholds_incur hkeys hsampled hwhole ?_ (ih _ hwhole)
      rintro raw rfl
      exact hown raw (by rw [hwhole]; simp)
  obtain ⟨hiff, hdated⟩ := (hupholds incidents [] (List.append_nil _).symm).cell
  refine ⟨hiff.trans ?_, hdated⟩
  constructor
  · rintro ⟨_, ⟨i, p, hp, rfl⟩, hword⟩
    exact ⟨i, p, hp, hword⟩
  · rintro ⟨i, p, hp, hword⟩
    exact ⟨p.key, ⟨i, p, hp, rfl⟩, hword⟩

/-- Two tabs, one with a product that is to track every session, the other with one that is to track
none. -/
def samplingTabs : Gathering Bool where
  locking := true
  policy _ := ⟨.ofMillis 10, 2, .ofMillis 900⟩
  agenda
    | true => [(0, .expandOrRenew), (0, .expand)]
    | false => [(0, .expandOrRenew), (0, .watch)]
  cell := none
  names := .tallies
  products
    | true => [.new "a" (fun _ => Decision.sampled 100 0.5) (.ofMillis 900) .epoch ∅]
    | false => [.new "b" (fun _ => Decision.sampled 0 0.5) (.ofMillis 900) .epoch ∅]

/-- The second tab takes the lock over from the first and declines the session; the first one joins
it and tracks; then the second one looks at it. -/
def sampling : List (Incident Bool) :=
  [.move (.call true .epoch), .move (.call false .epoch), .move (.call true .epoch),
      .move (.call false .epoch), .move (.call true .epoch)] ++
    List.replicate 5 (.move (.call false (Timestamp.epoch.add 2))) ++
    List.replicate 8 (.move (.call true (Timestamp.epoch.add 5))) ++
    List.replicate 4 (.move (.call false (Timestamp.epoch.add 7)))

theorem identified_iff_tracked_sampling :
    (samplingTabs.amid sampling).seen.get? "a" = some "1" ∧
    (samplingTabs.amid sampling).seen.get? "b" = some "0" ∧
    ∃ o ∈ samplingTabs.occasions sampling,
      (samplingTabs.amid sampling).seen.id? = some o.fresh ∧
      (samplingTabs.amid sampling).seen.get? Record.createdKey = some o.now.render := by
  have hwords : (samplingTabs.amid sampling).seen.get? "a" = some "1" ∧
      (samplingTabs.amid sampling).seen.get? "b" = some "0" := by decide +kernel
  have hown : ∀ raw, .move (.overwrite raw) ∉ sampling := by
    intro raw hraw
    simp [sampling] at hraw
  have hkeys : ∀ i, ∀ p ∈ samplingTabs.products i, Record.IsProductKey p.key := by
    rintro (_ | _) p hp
    · obtain rfl := List.mem_singleton.1 hp
      exact (by decide : Record.IsProductKey "b")
    · obtain rfl := List.mem_singleton.1 hp
      exact (by decide : Record.IsProductKey "a")
  have hsampled : ∀ i, ∀ p ∈ samplingTabs.products i, p.IsSampled := by
    rintro (_ | _) p hp
    · obtain rfl := List.mem_singleton.1 hp
      exact ⟨0, fun _ => 0.5, rfl⟩
    · obtain rfl := List.mem_singleton.1 hp
      exact ⟨100, fun _ => 0.5, rfl⟩
  obtain ⟨hiff, hdated⟩ := identified_iff_tracked samplingTabs sampling rfl hown hkeys hsampled
  have hsome := hiff.2 ⟨true, _, List.mem_singleton_self _, hwords.1⟩
  obtain ⟨id, hid⟩ := Option.isSome_iff_exists.1 hsome
  obtain ⟨o, ho, rfl, hcreated⟩ := hdated id hid
  exact ⟨hwords.1, hwords.2, o, ho, hid, hcreated⟩

end Gathering

end SharedSession
