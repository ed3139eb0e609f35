import SharedSession.Proofs.Lock.Grounds
import SharedSession.Proofs.Product.Agenda

set_option autoImplicit false

/-!
# Whose session is prolonged

While the page is visible a product that has a session wants it prolonged. What it wants stored is
the session that is live, with a new deadline. The same question tells it whether that is still the
session in its cache, but what is stored does not depend on that: a product prolongs the session of
somebody else when it learns that its own is over. Having none, it does not do so a second time.

What the request leaves in the cell rests on a question of the same attempt, whatever others did
before and since.

Main statements: `Request.result_expand`, `Gathering.isFounded`,
`Gathering.prolongs_whatever_is_live`.
-/

namespace SharedSession

/-! ## The request -/

/-- What is left of a record when a product was asked to prolong its session. If it has one, it
prolongs the session that is live, whichever that is, or removes the record if there is none. -/
def Product.prolonged (p : Product) (asked decided : Timestamp) (d : Span) (given : Record) :
    Record :=
  if p.hasSession then
    if (given.liveAt asked p.timeOut).isCleared then ∅ else given.expand decided d
  else given

namespace Request

variable {p : Product} {given : Record} {asked : Timestamp}

/-- In any case the product follows the record. -/
theorem transform_expand (o : Occasion) (given : Record) (p : Product) :
    (expand.operation.transform o given p).2 = p.synchronize o.now given := by
  have hanswers := expand.answers_transform o given p
  generalize expand.operation.transform o given p = x at hanswers ⊢
  cases hanswers with
  | prolonging => rfl
  | abstaining hsession =>
    unfold Product.synchronize
    rw [hsession]
    rfl

theorem result_expand (h : given.IsBare) (o : Occasion) (p : Product) (decided : Timestamp)
    (d : Span) : (expand.operation.transform o given p).1.result decided d given
      = p.prolonged o.now decided d given := by
  unfold Product.prolonged
  have hanswers := expand.answers_transform o given p
  generalize expand.operation.transform o given p = x at hanswers ⊢
  cases hanswers with
  | prolonging hsession =>
    rw [if_pos hsession]
    show (if (given.liveAt o.now p.timeOut).isCleared then ∅
      else ((given.liveAt o.now p.timeOut).withoutLock.expand decided d).erase "") = _
    rcases given.liveAt_cases o.now p.timeOut with hlive | hlive
    · have hplain : (given.expand decided d).get? "" = none := by
        rw [Record.get?_expand (by decide), h.plain]
      rw [hlive, Record.withoutLock_eq_self h.free, Record.erase_of_get?_eq_none hplain]
    · rw [hlive, Record.isCleared_empty]
      rfl
  | abstaining hsession =>
    rw [hsession]
    rfl

end Request

/-! ## Attempts -/

namespace Gathering

open Contest

variable {κ : Type} [DecidableEq κ] {g : Gathering κ} {i : κ}
  {incidents before : List (Incident κ)} {now : Timestamp} {e : Nat × Request} {x : Incident κ}

/-- The call that a writer made then belongs to the attempt that it is still in. -/
structure InAttempt (g : Gathering κ) (i : κ) (incidents before : List (Incident κ))
    (now : Timestamp) : Prop where
  earlier : before ++ [.move (.call i now)] <+: incidents
  goesOn : ∀ mid, before ++ [.move (.call i now)] <+: mid → mid <+: incidents →
    ((g.amid mid).writers i).stage ≠ .opening

theorem InAttempt.concat (h : g.InAttempt i incidents before now)
    (hstage : ((g.amid (incidents ++ [x])).writers i).stage ≠ .opening) :
    g.InAttempt i (incidents ++ [x]) before now where
  earlier := h.earlier.trans (List.prefix_append incidents [x])
  goesOn mid hfrom hto := by
    rcases List.prefix_concat_iff.1 hto with rfl | hto
    · exact hstage
    · exact h.goesOn mid hfrom hto

theorem inAttempt_concat
    (hstage : ((g.amid (incidents ++ [.move (.call i now)])).writers i).stage ≠ .opening) :
    g.InAttempt i (incidents ++ [.move (.call i now)]) incidents now where
  earlier := List.prefix_refl _
  goesOn mid hfrom hto := by
    rwa [hto.eq_of_length_le hfrom.length_le]

/-- A record that a writer has read in its present attempt, when nobody held the lock. -/
def HasRead (g : Gathering κ) (i : κ) (incidents : List (Incident κ)) (r : Record) : Prop :=
  ∃ before now, g.InAttempt i incidents before now ∧ (g.amid before).seen.lock? = none ∧
    (g.amid before).seen = r

/-- When a product was asked about a record, at some call, it gave this answer. -/
def Asks (g : Gathering κ) (i : κ) (e : Nat × Request) (before : List (Incident κ))
    (now : Timestamp) (given : Record) (answer : Outcome) : Prop :=
  (g.amid before).seen.withoutLock = given ∧
    (e.2.operation.onIndex e.1).transform ⟨now, (g.amid before).names.next⟩ given
        ((g.amid before).writers i).own
      = (answer, ((g.amid (before ++ [.move (.call i now)])).writers i).own)

/-- That was so in the present attempt. -/
def HasAsked (g : Gathering κ) (i : κ) (e : Nat × Request) (incidents : List (Incident κ))
    (given : Record) (answer : Outcome) : Prop :=
  ∃ before now, g.InAttempt i incidents before now ∧ g.Asks i e before now given answer

/-- And in the same attempt the answer was taken up, by the same call or by a later one. -/
def HasDecided (g : Gathering κ) (i : κ) (e : Nat × Request) (incidents : List (Incident κ))
    (given : Record) (answer : Outcome) (decided : Timestamp) : Prop :=
  ∃ before now later, g.InAttempt i incidents before now ∧ g.Asks i e before now given answer ∧
    before <+: later ∧ g.InAttempt i incidents later decided

theorem HasRead.isBare {r : Record} (h : g.HasRead i incidents r) : r.IsBare := by
  obtain ⟨before, now, -, hfree, rfl⟩ := h
  exact Record.isBare_ofStored hfree

theorem Asks.isBare {given : Record} {answer : Outcome} (h : g.Asks i e before now given answer) :
    given.IsBare := by
  obtain ⟨rfl, -⟩ := h
  exact Record.isBare_withoutLock _

theorem HasDecided.isBare {given : Record} {answer : Outcome}
    (h : g.HasDecided i e incidents given answer now) : given.IsBare := by
  obtain ⟨before, asked, later, -, hasks, -⟩ := h
  exact hasks.isBare

section

variable (hstage : ((g.amid (incidents ++ [x])).writers i).stage ≠ .opening)
include hstage

theorem HasRead.concat {r : Record} (h : g.HasRead i incidents r) :
    g.HasRead i (incidents ++ [x]) r := by
  obtain ⟨before, now, hattempt, hread⟩ := h
  exact ⟨before, now, hattempt.concat hstage, hread⟩

theorem HasAsked.concat {given : Record} {answer : Outcome}
    (h : g.HasAsked i e incidents given answer) :
    g.HasAsked i e (incidents ++ [x]) given answer := by
  obtain ⟨before, now, hattempt, hasks⟩ := h
  exact ⟨before, now, hattempt.concat hstage, hasks⟩

theorem HasDecided.concat {given : Record} {answer : Outcome}
    (h : g.HasDecided i e incidents given answer now) :
    g.HasDecided i e (incidents ++ [x]) given answer now := by
  obtain ⟨before, asked, later, hattempt, hasks, hlater, hdecided⟩ := h
  exact ⟨before, asked, later, hattempt.concat hstage, hasks, hlater, hdecided.concat hstage⟩

end

/-- What was asked is decided by the present call at the latest. -/
theorem HasAsked.decided {given : Record} {answer : Outcome}
    (hstage : ((g.amid (incidents ++ [.move (.call i now)])).writers i).stage ≠ .opening)
    (h : g.HasAsked i e (incidents ++ [.move (.call i now)]) given answer) :
    g.HasDecided i e (incidents ++ [.move (.call i now)]) given answer now := by
  obtain ⟨before, asked, hattempt, hasks⟩ := h
  refine ⟨before, asked, incidents, hattempt, hasks, ?_, inAttempt_concat hstage⟩
  rcases List.prefix_concat_iff.1 hattempt.earlier with hsame | hbefore
  · rw [(List.append_inj' hsame rfl).1]
  · exact (List.prefix_append _ _).trans hbefore

/-! ## What a writer has in hand -/

/-- While a writer is at a request, what it has in hand rests on what it has read, asked and decided
in the present attempt. -/
def IsFounded (g : Gathering κ) (i : κ) (e : Nat × Request) (incidents : List (Incident κ)) :
    Prop :=
  (g.amid incidents).request? g.agenda i = some e →
    ((g.amid incidents).writers i).stage.RestsOn (g.HasRead i incidents) (g.HasAsked i e incidents)
      (g.HasDecided i e incidents) (g.policy i).expirationDelay (g.amid incidents).seen

/-- As long as the attempt goes on, it still does after whatever happens next. -/
theorem IsFounded.restsOn (h : g.IsFounded i e incidents)
    (hrequest : (g.amid incidents).request? g.agenda i = some e)
    (hstage : ((g.amid (incidents ++ [x])).writers i).stage ≠ .opening) :
    ((g.amid incidents).writers i).stage.RestsOn (g.HasRead i (incidents ++ [x]))
      (g.HasAsked i e (incidents ++ [x])) (g.HasDecided i e (incidents ++ [x]))
      (g.policy i).expirationDelay (g.amid incidents).seen :=
  (h hrequest).mono (fun _ hread => hread.concat hstage) (fun _ _ hasked => hasked.concat hstage)
    fun _ _ _ hdecided => hdecided.concat hstage

/-- What others do makes no difference. -/
theorem IsFounded.frame (h : g.IsFounded i e incidents)
    (hserved : ((g.amid (incidents ++ [x])).writers i).served
      = ((g.amid incidents).writers i).served)
    (hsame : ((g.amid (incidents ++ [x])).writers i).stage = ((g.amid incidents).writers i).stage)
    (hcell : (g.amid (incidents ++ [x])).cell = (g.amid incidents).cell ∨
      ∀ token ∈ ((g.amid incidents).writers i).stage.awaited?,
        (g.amid (incidents ++ [x])).seen.lock? ≠ some token) :
    g.IsFounded i e (incidents ++ [x]) := by
  intro hrequest
  by_cases hopening : ((g.amid (incidents ++ [x])).writers i).stage = .opening
  · rw [hopening]
    trivial
  · rw [request?, hserved] at hrequest
    have hrests := h.restsOn hrequest hopening
    rw [hsame]
    rcases hcell with hstays | hlost
    · rwa [seen, hstays]
    · exact hrests.frame hlost

/-- A call of the writer itself reads, asks or decides. -/
theorem IsFounded.call (h : g.IsFounded i e incidents) (now : Timestamp) :
    g.IsFounded i e (incidents ++ [.move (.call i now)]) := by
  intro hrequest
  by_cases hopening : ((g.amid (incidents ++ [.move (.call i now)])).writers i).stage = .opening
  · rw [hopening]
    trivial
  · have hcall : g.amid (incidents ++ [.move (.call i now)])
        = (g.amid incidents).callOn g.locking g.work i now := g.amid_concat incidents _
    have hrequest' : (g.amid incidents).request? g.agenda i = some e := by
      rw [hcall] at hrequest hopening
      rwa [request?_callOn hopening] at hrequest
    have hpassage := passage_callOn (current?_work hrequest') g.locking now
    rw [← hcall] at hpassage
    refine hpassage.restsOn (h.restsOn hrequest' hopening) ?_ ?_ ?_
      fun _ _ _ hdecided => hdecided.isBare
    · exact fun _ hfree => ⟨incidents, now, inAttempt_concat hopening, hfree, rfl⟩
    · exact fun _ answer hanswer => ⟨incidents, now, inAttempt_concat hopening, rfl, hanswer⟩
    · exact fun _ given answer hasked => hasked.decided hopening

theorem IsFounded.concat (h : g.IsFounded i e incidents)
    (htokens : (g.amid (incidents ++ [x])).tokens.Nodup)
    (hforeign : IsForeign i (g.amid (incidents ++ [x])) [x]) :
    g.IsFounded i e (incidents ++ [x]) := by
  have hrightful := g.rightful_amid incidents
  have hnow := g.amid_concat incidents x
  have hlater := g.suffix_journal_incur (g.amid incidents) x
  rw [← hnow] at hlater
  cases x with
  | move m =>
    cases m with
    | call k now =>
      by_cases hik : i = k
      · subst hik
        exact h.call now
      · have hwriter : (g.amid (incidents ++ [.move (.call k now)])).writers i
            = (g.amid incidents).writers i := by
          rw [hnow]
          exact writers_callOn_of_ne g.locking g.work _ k now hik
        refine h.frame (by rw [hwriter]) (by rw [hwriter]) ?_
        rw [hnow]
        exact hrightful.lock?_ne_of_cell_ne (nodup_tokens_of_suffix hlater htokens) hik g.locking
          now
    | overwrite raw =>
      have hwriters : (g.amid (incidents ++ [.move (.overwrite raw)])).writers
          = (g.amid incidents).writers := by
        rw [hnow]
        rfl
      refine h.frame (by rw [hwriters]) (by rw [hwriters]) (.inr ?_)
      rw [hnow]
      exact (hforeign.of_subset (List.Subset.refl _) hlater).lock?_ne hrightful
  | giveUp k l now =>
    obtain ⟨hserved, hsame, -⟩ :=
      (g.amid incidents).writers_amend k l (·.synchronize now ∅) i
    refine h.frame ?_ ?_ (.inl ?_)
    · rw [hnow]
      exact hserved
    · rw [hnow]
      exact hsame
    · rw [hnow]
      rfl

/-- Whatever happens, a writer stores nothing but what it has in hand from its present attempt. -/
theorem isFounded (g : Gathering κ) (i : κ) (e : Nat × Request) {incidents : List (Incident κ)}
    (htokens : (g.amid incidents).tokens.Nodup)
    (hforeign : IsForeign i (g.amid incidents) incidents) : g.IsFounded i e incidents := by
  induction incidents using List.reverseRecOn with
  | nil => exact fun _ => trivial
  | append_singleton incidents x ih =>
    have hlater := g.suffix_journal_incur (g.amid incidents) x
    rw [← g.amid_concat incidents x] at hlater
    refine (ih (nodup_tokens_of_suffix hlater htokens) ?_).concat htokens ?_
    · exact hforeign.of_subset (List.subset_append_left _ _) hlater
    · exact hforeign.of_subset (List.subset_append_right _ _) (List.suffix_refl _)

/-! ## Whose session it is -/

/-- What is stored, but for the lock, is what comes of the record about which the product was asked
in this attempt, and which it compared with its cache by the same call. The deadline is reckoned from
that call or from a later one. -/
inductive HasProlonged (g : Gathering κ) (i : κ) (j : Nat) (incidents : List (Incident κ))
    (c : Contest κ (List Product)) : Prop where
  | intro {before later : List (Incident κ)} {asked decided : Timestamp} {p : Product}
      {given : Record} (hattempt : g.InAttempt i incidents before asked)
      (hgiven : (g.amid before).seen.withoutLock = given)
      (hbefore : ((g.amid before).writers i).own[j]? = some p)
      (hafter : ((g.amid (before ++ [.move (.call i asked)])).writers i).own[j]?
        = some (p.synchronize asked given))
      (hlater : before <+: later) (hdecided : g.InAttempt i incidents later decided)
      (hcell : c.seen.withoutLock = p.prolonged asked decided (g.policy i).expirationDelay given)

/-- What a writer that is to prolong the session of a product leaves in the cell by its next
call. -/
inductive Prolonging (g : Gathering κ) (i : κ) (j : Nat) (incidents : List (Incident κ))
    (c : Contest κ (List Product)) : Prop where
  /-- what is there -/
  | nothing (hcell : c.cell = (g.amid incidents).cell)
  /-- what it has read in this attempt when nobody held the lock, with its token -/
  | returned {before : List (Incident κ)} {now : Timestamp}
      (hattempt : g.InAttempt i incidents before now) (hfree : (g.amid before).seen.lock? = none)
      (hcell : c.seen.withoutLock = (g.amid before).seen)
  /-- what it was asked for -/
  | stored (hprolonged : g.HasProlonged i j incidents c)

/-- A decision about the request comes to that. -/
theorem hasProlonged_of_isResult {j : Nat} (hj : j < (g.products i).length)
    {c : Contest κ (List Product)}
    (h : Outcome.IsResult (g.HasDecided i (j, .expand) incidents) (g.policy i).expirationDelay
      c.seen.withoutLock) : g.HasProlonged i j incidents c := by
  obtain ⟨given, answer, decided, hdecision, hresult⟩ := h
  obtain ⟨before, asked, later, hattempt, ⟨hgiven, hanswer⟩, hlater, hdecided⟩ := hdecision
  have hbare : given.IsBare := Asks.isBare ⟨hgiven, hanswer⟩
  have hfirst : (g.first.writers i).own[j]? = some (g.products i)[j] :=
    List.getElem?_eq_getElem hj
  obtain ⟨p, hp, -⟩ : ∃ p, ((g.amid before).writers i).own[j]? = some p ∧ _ :=
    exists_of_traitsOf_eq (g.traitsOf_incurAll g.first before i).symm hfirst
  have hlt := (List.getElem?_eq_some_iff.1 hp).1
  rw [Operation.transform_onIndex_of_some hp] at hanswer
  obtain ⟨rfl, hown⟩ := Prod.mk.inj hanswer
  refine .intro hattempt hgiven hp ?_ hlater hdecided ?_
  · rw [← hown, List.getElem?_set_self hlt, Request.transform_expand]
  · rw [Request.result_expand hbare, seen,
      Record.erase_of_get?_eq_none (Record.isBare_withoutLock c.cell).plain] at hresult
    exact hresult

/-- A product prolongs whatever session is live, if it has one in its cache when it is asked.
Writers carry out requests of their products, with a lock or without, call by call and in any order;
texts are put into the cell from outside that do not carry a token of a certain writer, and products
end their own sessions when they have to give up. If that writer is to prolong the session of a
product, then its next call leaves the cell as it is, or puts back the record with which the attempt
began, or stores what comes of the record about which the product was asked in this attempt: with a
new deadline if a session was live and the product had one, whether or not they were the same;
removed if the product had one and none was live; as it was if the product had none. A write that
settles the request always does the latter. By the same question the product learns that its own
session is over if the record holds another one. -/
theorem prolongs_whatever_is_live (g : Gathering κ) (incidents : List (Incident κ)) {i : κ}
    {j : Nat} (hj : j < (g.products i).length) (now : Timestamp)
    (hrequest : (g.amid incidents).request? g.agenda i = some (j, .expand))
    (htokens : (g.amid incidents).tokens.Nodup)
    (hforeign : IsForeign i (g.amid incidents) incidents) :
    g.Prolonging i j incidents (g.amid (incidents ++ [.move (.call i now)])) ∧
      (((g.amid incidents).writers i).stage.isSettling = true →
        g.HasProlonged i j incidents (g.amid (incidents ++ [.move (.call i now)]))) := by
  have hcall : g.amid (incidents ++ [.move (.call i now)])
      = (g.amid incidents).callOn g.locking g.work i now := g.amid_concat incidents _
  have hcurrent := current?_work hrequest
  have hfounded := g.isFounded i (j, .expand) htokens hforeign hrequest
  constructor
  · have hpassage := passage_callOn hcurrent g.locking now
    rw [← hcall] at hpassage
    rcases hpassage.written hfounded (fun _ hread => hread.isBare)
        fun _ _ _ hdecided => hdecided.isBare with hcell | hread | hresult
    · exact .nothing hcell
    · obtain ⟨before, asked, hattempt, hfree, hseen⟩ := hread
      exact .returned hattempt hfree hseen.symm
    · exact .stored (hasProlonged_of_isResult hj hresult)
  · intro hsettling
    have htries : g.locking = true → ((g.amid incidents).writers i).triesLeft ≠ 0 := by
      intro hlocking
      obtain ⟨op, hat⟩ := g.engaged_amid hlocking incidents i fun hopening => by
        rw [hopening] at hsettling
        cases hsettling
      exact hat.hasTries
    have hresult := isResult_of_settling hcurrent htries hsettling hfounded
      (fun _ _ _ hdecided => hdecided.isBare) now
    rw [← hcall] at hresult
    exact hasProlonged_of_isResult hj hresult

/-- One tab with a product that has the session `a` in its cache, while the cell holds a text. -/
def caching (locking : Bool) (text : String) : Gathering Unit where
  locking := locking
  policy _ := ⟨.ofMillis 10, 2, .ofMillis 900⟩
  agenda _ := [(0, .expand)]
  cell := some text
  names := .tallies
  products _ := [.new "rum" (fun _ _ => .sampledIn) (.ofMillis 900000) .epoch
    (.ofList [("expire", "500"), ("id", "a"), ("rum", "1")])]

/-- At first the cell holds the session `a` as well. -/
def overtaken : Gathering Unit := caching true "expire=500&id=a&rum=1"

/-- Another tab replaces the session while the tab holds the lock, so that it asks its product a
second time, about the other session. All but the last call is made. -/
def overtakes : List (Incident Unit) :=
  List.replicate 3 (.move (.call () .epoch)) ++
    .move (.overwrite (some "expire=500&id=b&rum=1")) :: List.replicate 7 (.move (.call () .epoch))

theorem prolongs_whatever_is_live_overtaken :
    (overtaken.amid (overtakes ++ [.move (.call () .epoch)])).cell = some "expire=900&id=b&rum=1" ∧
    overtaken.HasProlonged () 0 overtakes
      (overtaken.amid (overtakes ++ [.move (.call () .epoch)])) := by
  have hforeign : IsForeign () (overtaken.amid overtakes) overtakes := by
    intro raw hraw token n hdrew
    obtain rfl : raw = some "expire=500&id=b&rum=1" := by
      simpa [overtakes] using hraw
    have hfree : (Record.ofStored (some "expire=500&id=b&rum=1")).lock? = none := by
      decide +kernel
    rw [hfree]
    exact nofun
  refine ⟨by decide +kernel, ?_⟩
  exact (prolongs_whatever_is_live overtaken overtakes (by decide) .epoch (by decide +kernel)
    (by decide +kernel) hforeign).2 (by decide +kernel)

/-- Nobody else is about. -/
def undisturbed : List (Incident Unit) := List.replicate 7 (.move (.call () .epoch))

/-- A product prolongs a session that has replaced the one in its cache, or that holds another word
of its own there, and announces that its own session is over: with a lock or without. -/
theorem other_session_prolonged :
    ((caching true "expire=500&id=b&rum=1").amid undisturbed).cell = some "expire=900&id=b&rum=1" ∧
    ((caching false "expire=500&id=a&rum=0").amid undisturbed).cell
      = some "expire=900&id=a&rum=0" ∧
    ∀ g ∈ [caching true "expire=500&id=b&rum=1", caching false "expire=500&id=a&rum=0"],
      ((g.amid undisturbed).writers ()).own.map (·.notices) = [[.expired (some "a")]] := by
  refine ⟨by decide +kernel, by decide +kernel, ?_⟩
  simp only [List.forall_mem_cons, List.not_mem_nil, false_implies, implies_true, and_true]
  exact ⟨by decide +kernel, by decide +kernel⟩

end Gathering

end SharedSession
