import SharedSession.Proofs.Product.Agenda

set_option autoImplicit false

/-!
# Products get along with each other

Any number of writers carry out requests of their products on one record, call by call and in any
order, and somebody outside puts texts into the cell where a writer will notice it. While the
session is live, every request that does not end it goes on with the record that it finds: what
nobody of them owns stays as it was put there last, and so do the identifier and the date once they
are there. Each request changes the word of its own product and no other, unless a writer was
overtaken between its read and its write.

Main statements: `Request.respects_transform`, `Contest.Maintains.callOn`,
`Contest.IsCurrent.callOn`, `Gathering.rest_kept`.
-/

namespace SharedSession

/-! ## Records that go on -/

namespace Record

/-- A record goes on with another one but for certain keys: a key that a product may have holds
the same, and so do the identifier and the date if there was an identifier. -/
structure Respects (own : Set String) (r first : Record) : Prop where
  rest : ∀ key, IsProductKey key → key ∉ own → r.get? key = first.get? key
  identity : first.id?.isSome → r.id? = first.id? ∧ r.get? createdKey = first.get? createdKey

variable {own : Set String} {first r : Record}

theorem respects_refl (own : Set String) (r : Record) : r.Respects own r :=
  ⟨fun _ _ _ => rfl, fun _ => ⟨rfl, rfl⟩⟩

/-- The lock, the deadline and the empty key do not matter. -/
theorem Respects.of_get?_eq (h : r.Respects own first) {s : Record}
    (hsame : ∀ key, key ≠ "" → key ≠ lockKey → key ≠ expireKey → s.get? key = r.get? key) :
    s.Respects own first where
  rest key hkey hnot :=
    (hsame key hkey.written hkey.notLock hkey.notExpire).trans (h.rest key hkey hnot)
  identity hid := by
    obtain ⟨hsameId, hsameDate⟩ := h.identity hid
    exact ⟨(hsame idKey (by decide) (by decide) (by decide)).trans hsameId,
      (hsame createdKey (by decide) (by decide) (by decide)).trans hsameDate⟩

theorem Respects.withLock (h : r.Respects own first) (token : String) :
    (r.withLock token).Respects own first :=
  h.of_get?_eq fun _ _ hlock _ => get?_withLock hlock token

theorem Respects.withoutLock (h : r.Respects own first) : r.withoutLock.Respects own first :=
  h.of_get?_eq fun _ _ hlock _ => get?_withoutLock hlock

theorem Respects.expand (h : r.Respects own first) (now : Timestamp) (d : Span) :
    (r.expand now d).Respects own first :=
  h.of_get?_eq fun _ _ _ hexpire => get?_expand hexpire now d

theorem Respects.stored (h : r.Respects own first) :
    (ofStored r.stored).Respects own first :=
  h.of_get?_eq fun _ hwritten _ _ => get?_ofStored_stored r hwritten

/-- Where there is nothing but bookkeeping, there is nothing to lose. -/
theorem Respects.of_cleared (h : r.Respects own first) (hcleared : r.isCleared = true) :
    (∅ : Record).Respects own first := by
  refine h.of_get?_eq fun key _ hlock hexpire => ?_
  rw [get?_empty, get?_of_cleared hcleared hexpire hlock]

/-- The decision of a product is stored under a key of its own, and the identifier and the date
are only added where there are none. -/
theorem Respects.record (h : r.Respects own first) {key : String} (hkey : IsProductKey key)
    (hown : key ∈ own) (decision : Decision) (now : Timestamp) (fresh : String) :
    (Product.record key decision now fresh r).Respects own first := by
  refine ⟨fun k hk hnot => ?_, fun hid => ?_⟩
  · have hne : k ≠ key := fun heq => hnot (heq ▸ hown)
    rw [Product.get?_record_of_ne hkey decision now fresh r hk hne]
    exact h.rest k hk hnot
  · obtain ⟨hsameId, hsameDate⟩ := h.identity hid
    have hmade : (decision.isTracked && r.id?.isNone) = false := by
      rw [hsameId, Option.isNone_eq_false_iff.2 hid, Bool.and_false]
    refine ⟨?_, ?_⟩
    · rw [Product.id?_record hkey, hmade, if_neg Bool.false_ne_true]
      exact hsameId
    · rw [Product.get?_record hkey, if_neg hkey.notCreated.symm, hmade, if_neg Bool.false_ne_true]
      exact hsameDate

end Record

theorem Record.isLasting_respects (own : Set String) (first : Record) :
    IsLasting (·.Respects own first) where
  withLock _ token h := Respects.withLock h token
  withoutLock _ h := Respects.withoutLock h
  stored _ h := Respects.stored h

/-- What is carried out is of the same kind as what was wanted, if the deadline does not matter and
what is removed for want of a session may be. -/
theorem Outcome.leaves_resolve {P : Record → Prop} (hP : Record.IsLasting P) {answer : Outcome}
    {now : Timestamp} {d : Span} (hexpand : ∀ r, P r → P (r.expand now d))
    (hcleared : ∀ r, P r → r.isCleared = true → P ∅) (h : answer.Leaves P) :
    (answer.resolve now d).Leaves P := by
  cases answer with
  | persist r =>
    cases hr : r.isCleared with
    | true =>
      rw [resolve_persist_of_cleared now d hr]
      exact hcleared r h hr
    | false =>
      rw [resolve_persist_of_not_cleared now d hr]
      exact hexpand _ (hP.withoutLock r h)
  | clear => exact h
  | unchanged => exact h

/-- What is carried out goes on with a record as what was wanted did. -/
theorem Outcome.leaves_respects_resolve {own : Set String} {first : Record} {answer : Outcome}
    (h : answer.Leaves (·.Respects own first)) (now : Timestamp) (d : Span) :
    (answer.resolve now d).Leaves (·.Respects own first) :=
  leaves_resolve (Record.isLasting_respects own first) (fun _ hr => hr.expand now d)
    (fun _ => Record.Respects.of_cleared) h

/-- While the session is live, a request that does not end it goes on with it. -/
theorem Request.respects_transform {q : Request} (hq : q ≠ .expire) {p : Product}
    (hkey : Record.IsProductKey p.key) {own : Set String} (hown : p.key ∈ own) {o : Occasion}
    {r first : Record} (hactive : r.isActive o.now p.timeOut = true)
    (h : r.Respects own first) :
    (q.operation.transform o r p).1.Leaves (·.Respects own first) := by
  have hlive : r.liveAt o.now p.timeOut = r := Record.liveAt_of_active hactive
  have hanswers := q.answers_transform o r p
  generalize q.operation.transform o r p = x at hanswers ⊢
  cases hanswers with
  | renewing =>
    rw [hlive]
    exact h.record hkey hown _ o.now o.fresh
  | prolonging =>
    rw [hlive]
    exact h
  | abstaining => trivial
  | keeping => trivial
  | removing hdead => exact absurd (hactive.symm.trans hdead) nofun
  | ending => exact absurd rfl hq

/-! ## Writers that carry out requests -/

namespace Contest

variable {κ : Type} {policy : κ → LockPolicy} {agenda : κ → List (Nat × Request)}
  {c : Contest κ (List Product)} {i : κ}

/-- The session is live for the product whose decision is asked for. -/
def IsLive (locking : Bool) (agenda : κ → List (Nat × Request)) (c : Contest κ (List Product)) :
    Move κ → Prop
  | .call i now => (c.writers i).stage.asks locking c.seen = true →
      ∀ p ∈ c.party? agenda i, c.seen.isActive now p.timeOut = true
  | .overwrite _ => True

/-- What is put into the cell from outside comes when no writer is about to write, and carries no
token that a writer waits for. -/
def IsNoticed (c : Contest κ (List Product)) : Move κ → Prop
  | .call _ _ => True
  | .overwrite raw => ∀ i, (c.writers i).stage.isPoised = false ∧
      ∀ token ∈ (c.writers i).stage.awaited?, (Record.ofStored raw).lock? ≠ some token

/-- No writer writes while another one is about to write. -/
def KeepsClear (c : Contest κ (List Product)) : Move κ → Prop
  | .call i _ => (c.writers i).stage.isPoised = true →
      ∀ j, j ≠ i → (c.writers j).stage.isPoised = false
  | .overwrite _ => True

instance (locking : Bool) (agenda : κ → List (Nat × Request)) (c : Contest κ (List Product))
    (m : Move κ) : Decidable (c.IsLive locking agenda m) := by
  cases m <;> unfold IsLive <;> infer_instance

instance [Fintype κ] (c : Contest κ (List Product)) (m : Move κ) : Decidable (c.IsNoticed m) := by
  cases m <;> unfold IsNoticed <;> infer_instance

instance [Fintype κ] [DecidableEq κ] (c : Contest κ (List Product)) (m : Move κ) :
    Decidable (c.KeepsClear m) := by
  cases m <;> unfold KeepsClear <;> infer_instance

/-- The key of the product whose request a writer is at. -/
def ownKey (agenda : κ → List (Nat × Request)) (c : Contest κ (List Product)) (i : κ) :
    Set String :=
  fun key => (c.party? agenda i).map Product.key = some key

/-- The products of each writer are the same throughout, with keys of their own. -/
structure Keyed (traits : κ → List Traits) (c : Contest κ (List Product)) : Prop where
  same : ∀ i, traitsOf (c.writers i).own = traits i
  keys : ∀ i, ∀ t ∈ traits i, Record.IsProductKey t.key

/-- Nothing that is asked for ends the session. -/
def Peaceful (agenda : κ → List (Nat × Request)) : Prop := ∀ i, ∀ e ∈ agenda i, e.2 ≠ .expire

section

variable {traits : κ → List Traits} {own : Set String} {first : Record} {locking : Bool}
  {now : Timestamp}

theorem Keyed.isProductKey (h : c.Keyed traits) {p : Product} (hp : p ∈ c.party? agenda i) :
    Record.IsProductKey p.key ∧ ∃ t ∈ traits i, t.key = p.key := by
  obtain ⟨e, -, he⟩ := Option.bind_eq_some_iff.1 hp
  have ht : p.traits ∈ traits i := by
    rw [← h.same i]
    exact List.mem_map_of_mem (List.mem_of_getElem? he)
  exact ⟨h.keys i _ ht, p.traits, ht, rfl⟩

/-- The key depends on nothing but the request. -/
theorem Keyed.key_party? (h : c.Keyed traits) (agenda : κ → List (Nat × Request)) (i : κ) :
    (c.party? agenda i).map Product.key
      = (c.request? agenda i).bind fun e => (traits i)[e.1]?.map Traits.key := by
  rw [party?, ← h.same i]
  cases c.request? agenda i with
  | none => rfl
  | some e =>
    show (c.writers i).own[e.1]?.map Product.key
      = ((c.writers i).own.map Product.traits)[e.1]?.map Traits.key
    rw [List.getElem?_map, Option.map_map]
    rfl

/-- What a writer decides about a live session goes on with it. -/
theorem Keyed.respects_answer (h : c.Keyed traits) (hagenda : Peaceful agenda)
    (hown : c.ownKey agenda i ⊆ own) (hlive : IsLive locking agenda c (.call i now))
    {op : Operation (List Product)} (hcurrent : c.current? (.ofRequests policy agenda) i = some op)
    (hseen : c.seen.Respects own first)
    (hasks : (c.writers i).stage.asks locking c.seen = true) (answer : Outcome)
    (ps : List Product)
    (hanswer : op.transform ⟨now, c.names.next⟩ c.seen.withoutLock (c.writers i).own
      = (answer, ps)) (now : Timestamp) (d : Span) :
    (answer.resolve now d).Leaves (·.Respects own first) := by
  rw [current?_ofRequests] at hcurrent
  obtain ⟨e, he, rfl⟩ := Option.map_eq_some_iff.1 hcurrent
  rcases Operation.transform_onIndex_cases hanswer with ⟨rfl, -⟩ | ⟨p, hp, rfl, -⟩
  · trivial
  · have hparty : c.party? agenda i = some p := Option.bind_eq_some_iff.2 ⟨e, he, hp⟩
    have hmem : p.key ∈ own := hown (congrArg (Option.map Product.key) hparty)
    apply Outcome.leaves_respects_resolve
    refine Request.respects_transform (hagenda i e (List.mem_of_getElem? he))
      (h.isProductKey hparty).1 hmem ?_ hseen.withoutLock
    rw [Record.isActive_withoutLock]
    exact hlive hasks p hparty

variable [DecidableEq κ]

theorem Keyed.callOn (h : c.Keyed traits) (locking : Bool) (i : κ) (now : Timestamp) :
    (c.callOn locking (.ofRequests policy agenda) i now).Keyed traits where
  keys := h.keys
  same j := (traitsOf_callOn locking c i now j).trans (h.same j)

variable (policy) in
/-- What a call leaves in the cell, and in hand, goes on with the record that its writer goes on
with. -/
theorem Keyed.respects_callOn (h : c.Keyed traits) (hagenda : Peaceful agenda)
    (hown : c.ownKey agenda i ⊆ own) (hlive : IsLive locking agenda c (.call i now))
    (hseen : c.seen.Respects own first)
    (hstage : (c.writers i).stage.InHand (·.Respects own first) c.seen) :
    ((c.callOn locking (.ofRequests policy agenda) i now).writers i).stage.InHand
        (·.Respects own first) (c.callOn locking (.ofRequests policy agenda) i now).seen ∧
      (c.callOn locking (.ofRequests policy agenda) i now).seen.Respects own first := by
  cases hcurrent : c.current? (.ofRequests policy agenda) i with
  | none =>
    rw [callOn_of_idle hcurrent]
    exact ⟨hstage, hseen⟩
  | some op =>
    exact (passage_callOn hcurrent locking now).inHand (Record.isLasting_respects own first) hstage
      hseen (h.respects_answer hagenda hown hlive hcurrent hseen)

/-! ## What nobody owns -/

/-- What is in the cell, and what the writers have in hand, goes on with a record. -/
structure Maintains (traits : κ → List Traits) (own : Set String) (first : Record)
    (c : Contest κ (List Product)) : Prop where
  keyed : c.Keyed traits
  sustains : c.Sustains (·.Respects own first)

theorem Maintains.callOn (h : c.Maintains traits own first) (hagenda : Peaceful agenda)
    (hown : ∀ i, ∀ t ∈ traits i, t.key ∈ own) (htokens : c.tokens.Nodup)
    (hlive : IsLive locking agenda c (.call i now)) :
    (c.callOn locking (.ofRequests policy agenda) i now).Maintains traits own first := by
  have hsub : c.ownKey agenda i ⊆ own := by
    intro key hkey
    obtain ⟨p, hp, rfl⟩ := Option.map_eq_some_iff.1 hkey
    obtain ⟨-, t, ht, hkey⟩ := h.keyed.isProductKey hp
    exact hkey ▸ hown i t ht
  refine ⟨h.keyed.callOn locking i now, ?_⟩
  refine h.sustains.callOn (Record.isLasting_respects own first) htokens fun op hcurrent => ?_
  exact h.keyed.respects_answer hagenda hsub hlive hcurrent h.sustains.cell

omit [DecidableEq κ] in
/-- A text from outside is what everybody goes on with from then on. -/
theorem Maintains.overwrite (h : c.Maintains traits own first) {raw : Option String}
    (hnoticed : c.IsNoticed (.overwrite raw)) :
    ({ c with cell := raw } : Contest κ (List Product)).Maintains traits own
      (Record.ofStored raw) where
  keyed := ⟨h.keyed.same, h.keyed.keys⟩
  sustains :=
    { rightful := ⟨h.sustains.rightful.mine, h.sustains.rightful.free⟩
      cell := Record.respects_refl own _
      hands := fun i => Stage.inHand_of_not_poised (hnoticed i).1 (hnoticed i).2 }

/-- The text that somebody outside put into the cell last, or that was there at first. -/
def latestText (cell : Option String) (moves : List (Move κ)) : Option String :=
  moves.foldl (fun cell m => match m with | .call _ _ => cell | .overwrite raw => raw) cell

theorem maintains_runOn {moves : List (Move κ)} {cell : Option String}
    (h : c.Maintains traits own (Record.ofStored cell)) (hagenda : Peaceful agenda)
    (hown : ∀ i, ∀ t ∈ traits i, t.key ∈ own)
    (htokens : (c.runOn locking (.ofRequests policy agenda) moves).tokens.Nodup)
    (hnoticed : Along locking (.ofRequests policy agenda) IsNoticed moves c)
    (hlive : Along locking (.ofRequests policy agenda) (IsLive locking agenda) moves c) :
    (c.runOn locking (.ofRequests policy agenda) moves).Maintains traits own
      (Record.ofStored (latestText cell moves)) := by
  induction moves generalizing c cell with
  | nil => exact h
  | cons m moves ih =>
    cases m with
    | call i now =>
      have hrun :
          (c.runOn locking (.ofRequests policy agenda) (.call i now :: moves)).tokens.Nodup :=
        htokens
      exact ih (h.callOn hagenda hown (nodup_tokens_of_runOn hrun) hlive.1) htokens hnoticed.2
        hlive.2
    | overwrite raw => exact ih (h.overwrite hnoticed.1) htokens hnoticed.2 hlive.2

/-! ## What a product owns -/

/-- What the writers have in hand goes on with the record in the cell. -/
structure IsCurrent (traits : κ → List Traits) (agenda : κ → List (Nat × Request))
    (c : Contest κ (List Product)) : Prop where
  rightful : c.Rightful
  keyed : c.Keyed traits
  hands : ∀ i, (c.writers i).stage.InHand (·.Respects (c.ownKey agenda i) c.seen) c.seen

omit [DecidableEq κ] in
/-- While the writer is with a request, the key is the same. -/
theorem Keyed.ownKey_congr {c' : Contest κ (List Product)} (h : c.Keyed traits)
    (h' : c'.Keyed traits) (hserved : (c'.writers i).served = (c.writers i).served) :
    c'.ownKey agenda i = c.ownKey agenda i := by
  have hrequest : c'.request? agenda i = c.request? agenda i := by
    rw [request?, hserved]
    rfl
  funext key
  show ((c'.party? agenda i).map Product.key = some key)
    = ((c.party? agenda i).map Product.key = some key)
  rw [h.key_party?, h'.key_party?, hrequest]

variable (policy) in
/-- A call changes at most the word of its own product. -/
theorem IsCurrent.respects_callOn (h : c.IsCurrent traits agenda) (hagenda : Peaceful agenda)
    (hlive : IsLive locking agenda c (.call i now)) :
    ((c.callOn locking (.ofRequests policy agenda) i now).writers i).stage.InHand
        (·.Respects (c.ownKey agenda i) c.seen)
        (c.callOn locking (.ofRequests policy agenda) i now).seen ∧
      (c.callOn locking (.ofRequests policy agenda) i now).seen.Respects (c.ownKey agenda i)
        c.seen :=
  h.keyed.respects_callOn policy hagenda (fun _ hkey => hkey) hlive (Record.respects_refl _ _)
    (h.hands i)

/-- Only a writer that is about to write changes the cell, and then it has nothing in hand any
more. -/
theorem poised_of_cell_ne {work : Workload κ (List Product)}
    (hcell : (c.callOn locking work i now).cell ≠ c.cell) :
    (c.writers i).stage.isPoised = true ∧ ∀ P seen,
      ((c.callOn locking work i now).writers i).stage.InHand P seen := by
  cases hcurrent : c.current? work i with
  | none => exact absurd (congrArg Contest.cell (callOn_of_idle hcurrent locking now)) hcell
  | some op =>
    have hpassage := passage_callOn hcurrent locking now
    refine ⟨?_, hpassage.inHand_of_cell_ne hcell⟩
    cases hpoised : (c.writers i).stage.isPoised with
    | true => rfl
    | false => exact absurd (hpassage.cell_eq_of_not_poised hpoised) hcell

theorem IsCurrent.callOn (h : c.IsCurrent traits agenda) (hagenda : Peaceful agenda)
    (htokens : c.tokens.Nodup) (hlive : IsLive locking agenda c (.call i now))
    (hclear : KeepsClear c (.call i now)) :
    (c.callOn locking (.ofRequests policy agenda) i now).IsCurrent traits agenda := by
  have hkeyed : (c.callOn locking (.ofRequests policy agenda) i now).Keyed traits :=
    h.keyed.callOn locking i now
  obtain ⟨hstage, -⟩ := h.respects_callOn policy hagenda hlive
  refine ⟨h.rightful.callOn locking now, hkeyed, fun j => ?_⟩
  by_cases hcell : (c.callOn locking (.ofRequests policy agenda) i now).cell = c.cell
  · -- nothing was written, so what was in hand still is
    have hseen : (c.callOn locking (.ofRequests policy agenda) i now).seen = c.seen :=
      congrArg Record.ofStored hcell
    rw [hseen] at hstage ⊢
    by_cases hji : j = i
    · subst hji
      by_cases hopening :
          ((c.callOn locking (.ofRequests policy agenda) j now).writers j).stage = .opening
      · rw [hopening]
        trivial
      · rw [h.keyed.ownKey_congr hkeyed (served_callOn locking _ c j now hopening)]
        exact hstage
    · rw [h.keyed.ownKey_congr hkeyed (by rw [writers_callOn_of_ne locking _ c i now hji]),
        writers_callOn_of_ne locking _ c i now hji]
      exact h.hands j
  · -- what the writer had in hand is written, and nobody else was about to write
    obtain ⟨hpoised, hnothing⟩ := poised_of_cell_ne hcell
    by_cases hji : j = i
    · rw [hji]
      exact hnothing _ _
    · rw [writers_callOn_of_ne locking _ c i now hji]
      exact Stage.inHand_of_not_poised (hclear hpoised j hji)
        ((h.rightful.lock?_ne_of_cell_ne htokens hji locking now).resolve_left hcell)

omit [DecidableEq κ] in
theorem IsCurrent.overwrite (h : c.IsCurrent traits agenda) {raw : Option String}
    (hnoticed : c.IsNoticed (.overwrite raw)) :
    ({ c with cell := raw } : Contest κ (List Product)).IsCurrent traits agenda where
  rightful := ⟨h.rightful.mine, h.rightful.free⟩
  keyed := ⟨h.keyed.same, h.keyed.keys⟩
  hands i := Stage.inHand_of_not_poised (hnoticed i).1 (hnoticed i).2

theorem isCurrent_runOn {moves : List (Move κ)} (h : c.IsCurrent traits agenda)
    (hagenda : Peaceful agenda)
    (htokens : (c.runOn locking (.ofRequests policy agenda) moves).tokens.Nodup)
    (hnoticed : Along locking (.ofRequests policy agenda) IsNoticed moves c)
    (hlive : Along locking (.ofRequests policy agenda) (IsLive locking agenda) moves c)
    (hclear : Along locking (.ofRequests policy agenda) KeepsClear moves c) :
    (c.runOn locking (.ofRequests policy agenda) moves).IsCurrent traits agenda := by
  induction moves generalizing c with
  | nil => exact h
  | cons m moves ih =>
    cases m with
    | call i now =>
      have hrun :
          (c.runOn locking (.ofRequests policy agenda) (.call i now :: moves)).tokens.Nodup :=
        htokens
      exact ih (h.callOn hagenda (nodup_tokens_of_runOn hrun) hlive.1 hclear.1) htokens hnoticed.2
        hlive.2 hclear.2
    | overwrite raw => exact ih (h.overwrite hnoticed.1) htokens hnoticed.2 hlive.2 hclear.2

end

end Contest

/-! ## Whole runs -/

namespace Gathering

open Contest

variable {κ : Type}

theorem keyed_first (g : Gathering κ)
    (hkeys : ∀ i, ∀ p ∈ g.products i, Record.IsProductKey p.key) :
    g.first.Keyed fun i => traitsOf (g.products i) where
  same _ := rfl
  keys i t ht := by
    obtain ⟨p, hp, rfl⟩ := List.mem_map.1 ht
    exact hkeys i p hp

variable [DecidableEq κ]

/-- Where the writers are after what has happened. -/
def after (g : Gathering κ) (moves : List (Move κ)) : Contest κ (List Product) :=
  g.first.runOn g.locking g.work moves

theorem after_append (g : Gathering κ) (moves more : List (Move κ)) :
    g.after (moves ++ more) = (g.after moves).runOn g.locking g.work more :=
  runOn_append _ _ _ _ _

/-- Something holds before each thing that happens. -/
def Along (g : Gathering κ) (P : Contest κ (List Product) → Move κ → Prop)
    (moves : List (Move κ)) : Prop :=
  Contest.Along g.locking g.work P moves g.first

instance (g : Gathering κ) (P : Contest κ (List Product) → Move κ → Prop)
    [∀ c m, Decidable (P c m)] (moves : List (Move κ)) : Decidable (g.Along P moves) :=
  inferInstanceAs (Decidable (Contest.Along _ _ _ _ _))

/-- Products do not get in each other's way. Writers carry out requests of their products, none of
which ends the session, call by call and in any order; texts are put into the cell from outside
where a writer will notice it, and the session is live whenever a decision about it is asked for.

Then the record goes on with the text that was put there last from outside, or that was there at
first: it holds the same under every key that is none of the products', and the same identifier and
date if there is an identifier. As long as no writer writes while another one is about to, each call
changes no word but that of the product that it is made for. -/
theorem rest_kept (g : Gathering κ) (hagenda : Peaceful g.agenda) (keys : Set String)
    (hkeys : ∀ i, ∀ p ∈ g.products i, Record.IsProductKey p.key ∧ p.key ∈ keys)
    (moves : List (Move κ)) (htokens : (g.after moves).tokens.Nodup)
    (hnoticed : g.Along IsNoticed moves) (hlive : g.Along (IsLive g.locking g.agenda) moves) :
    (g.after moves).seen.Respects keys (Record.ofStored (latestText g.cell moves)) ∧
    ∀ past i now future, moves = past ++ .call i now :: future → g.Along KeepsClear past →
      (g.after (past ++ [.call i now])).seen.Respects ((g.after past).ownKey g.agenda i)
        (g.after past).seen := by
  have hkeyed := g.keyed_first fun i p hp => (hkeys i p hp).1
  have hrightful : g.first.Rightful := rightful_start _ _ _ _
  constructor
  · have hfirst : g.first.Maintains (fun i => traitsOf (g.products i)) keys
        (Record.ofStored g.cell) :=
      ⟨hkeyed, sustains_start (P := (·.Respects keys (Record.ofStored g.cell)))
        (Record.respects_refl _ _) _ _ _⟩
    refine (maintains_runOn hfirst hagenda ?_ htokens hnoticed hlive).sustains.cell
    intro i t ht
    obtain ⟨p, hp, rfl⟩ := List.mem_map.1 ht
    exact (hkeys i p hp).2
  · rintro past i now future rfl hclear
    obtain ⟨hnoticed, -⟩ := along_append.1 hnoticed
    obtain ⟨hlive, hnow, -⟩ := along_append.1 hlive
    rw [after_append] at htokens
    have hfirst : g.first.IsCurrent (fun i => traitsOf (g.products i)) g.agenda :=
      ⟨hrightful, hkeyed, fun _ => trivial⟩
    have hpast : (g.after past).IsCurrent (fun i => traitsOf (g.products i)) g.agenda :=
      isCurrent_runOn hfirst hagenda (nodup_tokens_of_runOn htokens) hnoticed hlive hclear
    rw [after_append]
    exact (hpast.respects_callOn g.policy hagenda hnow).2

/-- Two tabs, each with a product that tracks, in a live session with another entry. -/
def twoTabs : Gathering Bool where
  locking := true
  policy _ := ⟨.ofMillis 10, 3, .ofMillis 900⟩
  agenda
    | false => [(0, .expandOrRenew), (0, .expand)]
    | true => [(0, .expandOrRenew), (0, .watch)]
  cell := some "id=x&w=1"
  names := .tallies
  products
    | false => [.new "a" (fun _ _ => .sampledIn) (.ofMillis 900) .epoch ∅]
    | true => [.new "b" (fun _ _ => .sampledIn) (.ofMillis 900) .epoch ∅]

/-- A number of calls of one tab, all at the beginning of time. -/
def callsOf (i : Bool) (n : Nat) : List (Move Bool) := List.replicate n (.call i .epoch)

/-- One tab is done with its first request. Then another writer takes the lock while the other tab
is at its own, and leaves another entry and another identifier. -/
def rewritten : List (Move Bool) :=
  callsOf false 7 ++ callsOf true 2 ++ [.overwrite (some "id=x&lock=z&w=2")] ++ callsOf true 2
    ++ [.overwrite (some "id=y&w=3")] ++ callsOf true 7 ++ callsOf false 7

theorem rest_kept_rewritten :
    (twoTabs.after rewritten).seen.get? "w" = some "3" ∧
    (twoTabs.after rewritten).seen.id? = some "y" ∧
    (twoTabs.after (callsOf false 6 ++ [.call false .epoch])).seen.get? "w"
      = (twoTabs.after (callsOf false 6)).seen.get? "w" := by
  have ha : Record.IsProductKey "a" := by decide
  have hb : Record.IsProductKey "b" := by decide
  have hw : Record.IsProductKey "w" := by decide
  have hkeys : ∀ i, ∀ p ∈ twoTabs.products i,
      Record.IsProductKey p.key ∧ p.key ∈ ({"a", "b"} : Set String) := by
    intro i p hp
    cases i with
    | false =>
      obtain rfl := List.mem_singleton.1 hp
      exact ⟨ha, .inl rfl⟩
    | true =>
      obtain rfl := List.mem_singleton.1 hp
      exact ⟨hb, .inr rfl⟩
  have hagenda : Peaceful twoTabs.agenda := by
    intro i
    cases i <;> decide
  obtain ⟨hkept, hcalls⟩ := rest_kept twoTabs hagenda _ hkeys rewritten (by decide +kernel)
    (by decide +kernel) (by decide +kernel)
  refine ⟨?_, ?_, ?_⟩
  · rw [hkept.rest "w" hw (by simp)]
    decide +kernel
  · rw [(hkept.identity (by decide +kernel)).1]
    decide +kernel
  · refine (hcalls (callsOf false 6) false .epoch _ rfl (by decide +kernel)).rest "w" hw ?_
    show ¬ (((twoTabs.after (callsOf false 6)).party? twoTabs.agenda false).map Product.key
      = some "w")
    decide +kernel

end Gathering

end SharedSession
