import SharedSession.Proofs.Lock.InHand
import SharedSession.Proofs.Product.Request

set_option autoImplicit false

/-!
# Writers that carry out requests

A writer whose own state is a list of products carries out their requests one after another. A
request leaves all products but its own as they are, and never changes what a product is.
-/

namespace SharedSession

/-- What products are, one after another. -/
def traitsOf (ps : List Product) : List Traits := ps.map Product.traits

theorem traitsOf_modify {f : Product → Product} (hf : ∀ p, (f p).traits = p.traits)
    {ps : List Product} {i : Nat} : traitsOf (ps.modify i f) = traitsOf ps :=
  map_modify_eq hf ps i

/-- Who is in a list of the same products was in the first one. -/
theorem exists_of_traitsOf_eq {ps qs : List Product} (h : traitsOf qs = traitsOf ps) {j : Nat}
    {q : Product} (hq : qs[j]? = some q) : ∃ p, ps[j]? = some p ∧ p.traits = q.traits := by
  have hget := congrArg (·[j]?) h
  simp only [traitsOf, List.getElem?_map, hq, Option.map_some] at hget
  exact Option.map_eq_some_iff.1 hget.symm

namespace Request

variable (q : Request) (j : Nat) (ps : List Product)

theorem traitsOf_transform (o : Occasion) (r : Record) :
    traitsOf ((q.operation.onIndex j).transform o r ps).2 = traitsOf ps :=
  q.operation.map_transform_onIndex j ps (q.traits_transform o r)

theorem traitsOf_settle (now : Timestamp) (r : Record) :
    traitsOf ((q.operation.onIndex j).settle now r ps) = traitsOf ps :=
  q.operation.map_settle_onIndex j ps (q.traits_settle now r)

end Request

/-- Writers that carry out requests of their products, each named by the product's number. -/
def Workload.ofRequests {κ : Type} (policy : κ → LockPolicy) (agenda : κ → List (Nat × Request)) :
    Workload κ (List Product) where
  policy := policy
  queue i := (agenda i).map fun e => e.2.operation.onIndex e.1

namespace Contest

variable {κ : Type}

/-- The request that a writer is at, if it has not carried out all. -/
def request? (agenda : κ → List (Nat × Request)) (c : Contest κ (List Product)) (i : κ) :
    Option (Nat × Request) :=
  (agenda i)[(c.writers i).served]?

theorem current?_ofRequests (policy : κ → LockPolicy) (agenda : κ → List (Nat × Request))
    (c : Contest κ (List Product)) (i : κ) :
    c.current? (.ofRequests policy agenda) i
      = (c.request? agenda i).map fun e => e.2.operation.onIndex e.1 :=
  List.getElem?_map

/-- The product whose request a writer is at. -/
def party? (agenda : κ → List (Nat × Request)) (c : Contest κ (List Product)) (i : κ) :
    Option Product :=
  (c.request? agenda i).bind fun e => (c.writers i).own[e.1]?

variable [DecidableEq κ] {policy : κ → LockPolicy} {agenda : κ → List (Nat × Request)}

/-- A change of one product of a writer, which nobody else notices. -/
def amend (c : Contest κ (List Product)) (i : κ) (j : Nat) (f : Product → Product) :
    Contest κ (List Product) :=
  c.put i { c.writers i with own := (c.writers i).own.modify j f } c.cell c.names []

theorem writers_amend (c : Contest κ (List Product)) (k : κ) (l : Nat) (f : Product → Product)
    (i : κ) : ((c.amend k l f).writers i).served = (c.writers i).served ∧
      ((c.amend k l f).writers i).stage = (c.writers i).stage ∧
      ((c.amend k l f).writers i).own
        = if i = k then (c.writers i).own.modify l f else (c.writers i).own := by
  unfold amend
  by_cases hik : i = k
  · subst hik
    rw [writers_put_self, if_pos rfl]
    exact ⟨rfl, rfl, rfl⟩
  · rw [writers_put_of_ne _ _ _ _ _ _ hik, if_neg hik]
    exact ⟨rfl, rfl, rfl⟩

/-- What becomes of the other products, or of all if the change does not matter. -/
theorem getElem?_amend (c : Contest κ (List Product)) (k : κ) (l : Nat) (f : Product → Product)
    (i : κ) (j : Nat) : ((c.amend k l f).writers i).own[j]?
      = (c.writers i).own[j]?.map fun p => if i = k ∧ l = j then f p else p := by
  rw [(c.writers_amend k l f i).2.2]
  by_cases hik : i = k
  · rw [if_pos hik, List.getElem?_modify]
    simp only [hik, true_and]
    rfl
  · simp only [hik, false_and, if_false, Option.map_id']

theorem traitsOf_amend {f : Product → Product} (hf : ∀ p, (f p).traits = p.traits)
    (c : Contest κ (List Product)) (k : κ) (l : Nat) (i : κ) :
    traitsOf ((c.amend k l f).writers i).own = traitsOf (c.writers i).own := by
  rw [(c.writers_amend k l f i).2.2]
  split
  · exact traitsOf_modify hf
  · rfl

theorem Rightful.amend {c : Contest κ (List Product)} (h : c.Rightful) (k : κ) (l : Nat)
    (f : Product → Product) : (c.amend k l f).Rightful :=
  h.put (fun _ htoken => .inl htoken) (h.free k)

/-- A call never changes what products are. -/
theorem traitsOf_callOn (locking : Bool) (c : Contest κ (List Product)) (k : κ) (now : Timestamp)
    (i : κ) : traitsOf ((c.callOn locking (.ofRequests policy agenda) k now).writers i).own
      = traitsOf (c.writers i).own := by
  by_cases hik : i = k
  · subst hik
    cases hcurrent : c.current? (.ofRequests policy agenda) i with
    | none => rw [callOn_of_idle hcurrent]
    | some op =>
      have hpassage := passage_callOn hcurrent locking now
      rw [current?_ofRequests] at hcurrent
      obtain ⟨e, -, rfl⟩ := Option.map_eq_some_iff.1 hcurrent
      exact hpassage.own_of (I := fun ps => traitsOf ps = traitsOf (c.writers i).own) rfl
        (fun o r ps hps => (e.2.traitsOf_transform e.1 ps o r).trans hps)
        fun r ps hps => (e.2.traitsOf_settle e.1 ps now r).trans hps
  · rw [writers_callOn_of_ne locking _ c k now hik]

end Contest

/-- Writers that are to carry out requests of their products on one record. -/
structure Gathering (κ : Type) where
  /-- whether they take the lock -/
  locking : Bool
  policy : κ → LockPolicy
  /-- the requests of each writer, each with the number of the product that it is for -/
  agenda : κ → List (Nat × Request)
  /-- what is in the cell at first -/
  cell : Option String
  names : Supply
  /-- the products of each writer -/
  products : κ → List Product

namespace Gathering

variable {κ : Type}

/-- The requests as operations of the writers. -/
def work (g : Gathering κ) : Workload κ (List Product) := .ofRequests g.policy g.agenda

/-- All writers at the beginning of their first request. -/
def first (g : Gathering κ) : Contest κ (List Product) :=
  Contest.start g.work g.cell g.names g.products

open Contest

/-- While a writer is at a certain request, what it carries out is of a certain kind. -/
def Carries (g : Gathering κ) (i : κ) (e : Nat × Request) (Q : Outcome → Prop)
    (c : Contest κ (List Product)) : Prop :=
  c.request? g.agenda i = some e → (c.writers i).stage.Bears Q c.seen

variable {g : Gathering κ} {c c' : Contest κ (List Product)} {i : κ} {e : Nat × Request}
  {Q : Outcome → Prop}

theorem carries_first : g.Carries i e Q g.first := fun _ => trivial

/-- What others write makes no difference. -/
theorem Carries.frame (h : g.Carries i e Q c)
    (hserved : (c'.writers i).served = (c.writers i).served)
    (hstage : (c'.writers i).stage = (c.writers i).stage)
    (hcell : c'.cell = c.cell ∨
      ∀ token ∈ (c.writers i).stage.awaited?, c'.seen.lock? ≠ some token) :
    g.Carries i e Q c' := by
  intro hrequest
  rw [request?, hserved] at hrequest
  rw [hstage]
  rcases hcell with hsame | hlost
  · rw [seen, hsame]
    exact h hrequest
  · exact (h hrequest).frame hlost

theorem Carries.mono (h : g.Carries i e Q c) {Q' : Outcome → Prop}
    (hQ : ∀ outcome, Q outcome → Q' outcome) : g.Carries i e Q' c :=
  fun hrequest => (h hrequest).mono hQ

theorem current?_work (h : c.request? g.agenda i = some e) :
    c.current? g.work i = some (e.2.operation.onIndex e.1) := by
  rw [work, current?_ofRequests, h]
  rfl

variable [DecidableEq κ]

/-- So does a change of a product that keeps what is said. -/
theorem Carries.amend {Q : List Product → Outcome → Prop} (h : g.Carries i e (Q (c.writers i).own) c)
    {l : Nat} {f : Product → Product}
    (hf : ∀ own outcome, Q own outcome → Q (own.modify l f) outcome) (k : κ) :
    g.Carries i e (Q ((c.amend k l f).writers i).own) (c.amend k l f) := by
  obtain ⟨hserved, hstage, hown⟩ := c.writers_amend k l f i
  rw [hown]
  split
  · exact Carries.frame (h.mono (hf _)) hserved hstage (.inl rfl)
  · exact h.frame hserved hstage (.inl rfl)

/-- As long as the attempt goes on, the request is the same. -/
theorem request?_callOn {now : Timestamp}
    (h : ((c.callOn g.locking g.work i now).writers i).stage ≠ .opening) :
    (c.callOn g.locking g.work i now).request? g.agenda i = c.request? g.agenda i := by
  rw [request?, served_callOn g.locking g.work c i now h]
  rfl

/-- What a request carries out is found again, whoever makes a call. What is said of it may depend on
the products of the writer. -/
theorem Carries.callOn {Q : List Product → Outcome → Prop} (h : g.Carries i e (Q (c.writers i).own) c)
    (hQ : ∀ own, Record.IsLasting fun r => Q own (.persist r)) (hchanges : ∀ own, ¬ Q own .unchanged)
    (hrightful : c.Rightful) (htokens : c.tokens.Nodup) (k : κ) (now : Timestamp)
    (hask : i = k → ∀ answer own,
      (e.2.operation.onIndex e.1).transform ⟨now, c.names.next⟩ c.seen.withoutLock
        (c.writers i).own = (answer, own) → ∀ now d, Q own (answer.resolve now d)) :
    g.Carries i e (Q ((c.callOn g.locking g.work k now).writers i).own)
      (c.callOn g.locking g.work k now) := by
  by_cases hik : i = k
  · subst hik
    intro hrequest
    by_cases hopening : ((c.callOn g.locking g.work i now).writers i).stage = .opening
    · rw [hopening]
      trivial
    · rw [request?_callOn hopening] at hrequest
      exact (passage_callOn (current?_work hrequest) g.locking now).bears hQ hchanges (h hrequest)
        fun _ => hask rfl
  · have hwriter := writers_callOn_of_ne g.locking g.work c k now hik
    rw [hwriter]
    exact h.frame (by rw [hwriter]) (by rw [hwriter])
      (hrightful.lock?_ne_of_cell_ne htokens hik g.locking now)

end Gathering

/-! ## What happens -/

/-- What can happen to products of writers on one record. -/
inductive Incident (κ : Type) where
  | move (m : Move κ)
  /-- a product ends its own session, because its request to end the session was dropped -/
  | giveUp (i : κ) (product : Nat) (now : Timestamp)

namespace Gathering

open Contest

variable {κ : Type} [DecidableEq κ]

/-- Lets something happen. -/
def incur (g : Gathering κ) (c : Contest κ (List Product)) : Incident κ → Contest κ (List Product)
  | .move m => c.moveOn g.locking g.work m
  | .giveUp i j now =>
    let x := c.writers i
    c.put i { x with own := x.own.modify j (·.synchronize now ∅) } c.cell c.names []

/-- Lets things happen one after another. -/
def incurAll (g : Gathering κ) (c : Contest κ (List Product)) (incidents : List (Incident κ)) :
    Contest κ (List Product) :=
  incidents.foldl g.incur c

/-- What is so at first after everything that has happened. -/
def amid (g : Gathering κ) (incidents : List (Incident κ)) : Contest κ (List Product) :=
  g.incurAll g.first incidents

variable (g : Gathering κ)

theorem incurAll_append (c : Contest κ (List Product)) (incidents more : List (Incident κ)) :
    g.incurAll c (incidents ++ more) = g.incurAll (g.incurAll c incidents) more :=
  List.foldl_append

theorem amid_concat (incidents : List (Incident κ)) (e : Incident κ) :
    g.amid (incidents ++ [e]) = g.incur (g.amid incidents) e :=
  g.incurAll_append g.first incidents [e]

theorem suffix_journal_incur (c : Contest κ (List Product)) (e : Incident κ) :
    c.journal <:+ (g.incur c e).journal := by
  cases e with
  | move m =>
    cases m with
    | call k now => exact suffix_journal_callOn g.locking g.work c k now
    | overwrite raw => exact List.suffix_refl _
  | giveUp k l now => exact List.suffix_refl _

theorem suffix_journal_incurAll (c : Contest κ (List Product)) (incidents : List (Incident κ)) :
    c.journal <:+ (g.incurAll c incidents).journal := by
  induction incidents generalizing c with
  | nil => exact List.suffix_refl _
  | cons e incidents ih => exact (g.suffix_journal_incur c e).trans (ih _)

/-- Nothing that happens changes what products are. -/
theorem traitsOf_incur (c : Contest κ (List Product)) (e : Incident κ) (i : κ) :
    traitsOf ((g.incur c e).writers i).own = traitsOf (c.writers i).own := by
  cases e with
  | move m =>
    cases m with
    | call k now => exact traitsOf_callOn g.locking c k now i
    | overwrite raw => rfl
  | giveUp k l now => exact traitsOf_amend (fun p => p.traits_synchronize now ∅) c k l i

theorem traitsOf_incurAll (c : Contest κ (List Product)) (incidents : List (Incident κ)) (i : κ) :
    traitsOf ((g.incurAll c incidents).writers i).own = traitsOf (c.writers i).own := by
  induction incidents generalizing c with
  | nil => rfl
  | cons e incidents ih => exact (ih _).trans (g.traitsOf_incur c e i)

/-- The tokens that the writers hold stay their own. -/
theorem rightful_incur {c : Contest κ (List Product)} (h : c.Rightful) (e : Incident κ) :
    (g.incur c e).Rightful := by
  cases e with
  | move m =>
    cases m with
    | call k now => exact h.callOn g.locking now
    | overwrite raw => exact ⟨h.mine, h.free⟩
  | giveUp k l now => exact h.amend k l _

theorem rightful_amid (incidents : List (Incident κ)) : (g.amid incidents).Rightful := by
  induction incidents using List.reverseRecOn with
  | nil => exact rightful_start g.work g.cell g.names g.products
  | append_singleton incidents e ih =>
    rw [amid_concat]
    exact g.rightful_incur ih e

/-- Under the lock a writer that has begun an attempt has tries left. -/
theorem engaged_amid (hlocking : g.locking = true) (incidents : List (Incident κ)) :
    Engaged g.work (g.amid incidents) := by
  induction incidents using List.reverseRecOn with
  | nil => exact engaged_start g.work g.cell g.names g.products
  | append_singleton incidents e ih =>
    rw [amid_concat]
    cases e with
    | move m =>
      cases m with
      | call k now =>
        show Engaged g.work ((g.amid incidents).callOn g.locking g.work k now)
        rw [callOn, if_pos hlocking]
        exact engaged_call ih k now
      | overwrite raw =>
        intro i hi
        obtain ⟨op, hat⟩ := ih i hi
        exact ⟨op, hat.current, hat.hasTries, hat.stage⟩
    | giveUp k l now =>
      refine ih.put fun hk => ?_
      obtain ⟨op, hat⟩ := ih k hk
      exact ⟨op, hat.put rfl rfl rfl⟩

variable {g} {i : κ} {c : Contest κ (List Product)}

/-- No text from outside carries a token that a writer takes. -/
def IsForeign (i : κ) (c : Contest κ (List Product)) (incidents : List (Incident κ)) : Prop :=
  ∀ raw, .move (.overwrite raw) ∈ incidents → ∀ token n, c.Drew (i, n) token →
    (Record.ofStored raw).lock? ≠ some token

omit [DecidableEq κ] in
theorem IsForeign.of_subset {c c' : Contest κ (List Product)}
    {incidents incidents' : List (Incident κ)} (h : IsForeign i c incidents)
    (hsubset : incidents' ⊆ incidents) (hlater : c'.journal <:+ c.journal) :
    IsForeign i c' incidents' :=
  fun raw hraw token n hdrew => h raw (hsubset hraw) token n (hlater.subset hdrew)

omit [DecidableEq κ] in
theorem IsForeign.head {c c' : Contest κ (List Product)} {e : Incident κ}
    {incidents : List (Incident κ)} (h : IsForeign i c (e :: incidents))
    (hlater : c'.journal <:+ c.journal) : IsForeign i c' [e] :=
  h.of_subset (List.cons_subset_cons e (List.nil_subset _)) hlater

omit [DecidableEq κ] in
theorem IsForeign.tail {e : Incident κ} {incidents : List (Incident κ)}
    (h : IsForeign i c (e :: incidents)) : IsForeign i c incidents :=
  h.of_subset (List.subset_cons_self e incidents) (List.suffix_refl _)

omit [DecidableEq κ] in
/-- So a writer does not find its token in it. -/
theorem IsForeign.lock?_ne {raw : Option String} (h : IsForeign i c [.move (.overwrite raw)])
    (hrightful : c.Rightful) :
    ∀ token ∈ (c.writers i).stage.awaited?, (Record.ofStored raw).lock? ≠ some token := by
  intro token hawaited
  obtain ⟨n, hdrew⟩ := hrightful.mine i token (Stage.token?_of_awaited? hawaited)
  exact h raw (List.mem_singleton_self _) token n hdrew

/-- What a request carries out is found again, whatever happens, as long as what is said of it is not
lost when a product ends its own session. -/
theorem Carries.incur_own {r : Nat × Request} {Q : List Product → Outcome → Prop}
    (h : g.Carries i r (Q (c.writers i).own) c)
    (hQ : ∀ own, Record.IsLasting fun r => Q own (.persist r)) (hchanges : ∀ own, ¬ Q own .unchanged)
    (hgiveUp : ∀ l now own outcome, Q own outcome → Q (own.modify l (·.synchronize now ∅)) outcome)
    (hrightful : c.Rightful) {e : Incident κ} (htokens : (g.incur c e).tokens.Nodup)
    (hforeign : IsForeign i (g.incur c e) [e])
    (hask : ∀ now, e = .move (.call i now) → ∀ answer own,
      (r.2.operation.onIndex r.1).transform ⟨now, c.names.next⟩ c.seen.withoutLock
        (c.writers i).own = (answer, own) → ∀ now d, Q own (answer.resolve now d)) :
    g.Carries i r (Q ((g.incur c e).writers i).own) (g.incur c e) := by
  have htokens' : c.tokens.Nodup := nodup_tokens_of_suffix (g.suffix_journal_incur c e) htokens
  cases e with
  | move m =>
    cases m with
    | call k now =>
      refine h.callOn hQ hchanges hrightful htokens' k now ?_
      rintro rfl
      exact hask now rfl
    | overwrite raw =>
      have hnow : IsForeign i c [.move (.overwrite raw)] :=
        hforeign.of_subset (List.Subset.refl _) (g.suffix_journal_incur c _)
      exact h.frame rfl rfl (.inr (hnow.lock?_ne hrightful))
  | giveUp k l now => exact Carries.amend h (hgiveUp l now) k

/-- What a request carries out is found again, whatever happens. -/
theorem Carries.incur {r : Nat × Request} {Q : Outcome → Prop} (h : g.Carries i r Q c)
    (hQ : Record.IsLasting fun r => Q (.persist r)) (hchanges : ¬ Q .unchanged)
    (hrightful : c.Rightful) {e : Incident κ} (htokens : (g.incur c e).tokens.Nodup)
    (hforeign : IsForeign i (g.incur c e) [e])
    (hask : ∀ now, e = .move (.call i now) → ∀ answer own,
      (r.2.operation.onIndex r.1).transform ⟨now, c.names.next⟩ c.seen.withoutLock
        (c.writers i).own = (answer, own) → ∀ now d, Q (answer.resolve now d)) :
    g.Carries i r Q (g.incur c e) :=
  Carries.incur_own (Q := fun _ => Q) h (fun _ => hQ) (fun _ => hchanges) (fun _ _ _ _ h => h)
    hrightful htokens hforeign hask

end Gathering

end SharedSession
