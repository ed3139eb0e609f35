import SharedSession.Proofs.Lock.Service
import SharedSession.Proofs.Lock.Undisturbed

set_option autoImplicit false

/-!
# Read, decide, write

Operations that nobody disturbs change one record, one after another: each is asked about what the
one before it has left, and what is left in the end is what the decisions make of the first record.
That is a *course* of operations. All that a writer does on a medium of its own is one, whether it
takes the lock or not; and two courses of the same operations at the same moments differ at most in
an entry under the empty key, which without the lock is still there when the operation settles.

Main statements: `Service.exists_did_run`, `Service.alike_whether_locking`.
-/

namespace SharedSession

variable {μ σ : Type}

/-! ## Courses -/

/-- Where operations lead that are served one after another. -/
inductive IsCourse (d : Span) (draws : Nat) :
    World Record σ → List (Served σ) → World Record σ → Prop where
  | nil {w : World Record σ} : IsCourse d draws w [] w
  | cons {t : Served σ} {ts : List (Served σ)} {u v w : World Record σ}
      (first : IsServed d draws t u v) (rest : IsCourse d draws v ts w) :
      IsCourse d draws u (t :: ts) w

/-- What decisions leave of a record, one after another. -/
def leftBy (d : Span) (ts : List (Served σ)) (r : Record) : Record :=
  ts.foldl (fun r t => t.answer.result t.occasion.now d r) r

namespace IsCourse

variable {d : Span} {draws : Nat} {ts more : List (Served σ)} {u v w : World Record σ}

theorem append (h : IsCourse d draws u ts v) (hmore : IsCourse d draws v more w) :
    IsCourse d draws u (ts ++ more) w := by
  induction h with
  | nil => exact hmore
  | cons first _ ih => exact .cons first (ih hmore)

theorem medium_eq (h : IsCourse d draws u ts v) : v.medium = leftBy d ts u.medium := by
  induction h with
  | nil => rfl
  | cons first _ ih =>
    rw [ih, first.eq_world, ← first.given_eq]
    rfl

theorem lock?_medium (h : IsCourse d draws u ts v) (hfree : u.medium.lock? = none) :
    v.medium.lock? = none := by
  induction h with
  | nil => exact hfree
  | cons first _ ih =>
    apply ih
    rw [first.eq_world]
    rw [← first.given_eq] at hfree
    exact Outcome.lock?_result hfree _ _ d

end IsCourse

/-! ## Two courses of the same operations -/

/-- An operation that is submitted to be served at a moment. -/
structure Commission (σ : Type) where
  op : Operation σ
  isAwaited : Bool
  now : Timestamp

/-- What was to be done when an operation was served. -/
def Served.commission (t : Served σ) : Commission σ := ⟨t.op, t.isAwaited, t.occasion.now⟩

/-- Two operations were served alike, but for an entry under the empty key at the end. -/
structure Served.Alike (s t : Served σ) : Prop where
  commission_eq : s.commission = t.commission
  given_eq : s.given = t.given
  answer_eq : s.answer = t.answer
  final_eq : s.final.erase "" = t.final.erase ""

/-- An operation that gets one name or another decides alike for writers whose own states are alike,
and neither the decision nor its final record, but for an entry under the empty key, makes them
differ. -/
structure Operation.IsConstant (R : σ → σ → Prop) (op : Operation σ) (fresh fresh' : String) :
    Prop where
  answer_eq : ∀ (now : Timestamp) (r : Record) {own own' : σ}, R own own' →
    (op.transform ⟨now, fresh⟩ r own).1 = (op.transform ⟨now, fresh'⟩ r own').1
  after : ∀ (now : Timestamp) (r : Record) {own own' : σ}, R own own' →
    R (op.transform ⟨now, fresh⟩ r own).2 (op.transform ⟨now, fresh'⟩ r own').2
  told : ∀ (now : Timestamp) {r r' : Record} {own own' : σ}, R own own' →
    r.erase "" = r'.erase "" → R (op.settle now r own) (op.settle now r' own')

/-- An operation that decides by the record and the moment alone does so for all writers, whomever it
tells and whatever it changes on the side. -/
theorem Operation.isConstant_of_forall {op : Operation σ} {f : Timestamp → Record → Outcome}
    (h : ∀ o r own, (op.transform o r own).1 = f o.now r) (fresh fresh' : String) :
    op.IsConstant (fun _ _ => True) fresh fresh' where
  answer_eq now r own own' _ := by rw [h, h]
  after _ _ _ _ _ := trivial
  told _ _ _ _ _ _ _ := trivial

section

variable {R : σ → σ → Prop} {d : Span} {draws draws' : Nat} {u v u' v' : World Record σ}

theorem IsServed.alike {s t : Served σ} (hs : IsServed d draws s u v)
    (ht : IsServed d draws' t u' v') (hcommission : s.commission = t.commission)
    (hmedium : u.medium = u'.medium) (hown : R u.own u'.own)
    (hop : s.op.IsConstant R (u.names.lastOf draws 0) (u'.names.lastOf draws' 0)) :
    s.Alike t ∧ v.medium = v'.medium ∧ R v.own v'.own := by
  have hgiven : s.given = t.given := by
    rw [hs.given_eq, ht.given_eq, hmedium]
  have hsame : s.op = t.op := congrArg Commission.op hcommission
  have hnow : s.occasion.now = t.occasion.now := congrArg Commission.now hcommission
  have hoccasion : s.occasion = ⟨t.occasion.now, u.names.lastOf draws 0⟩ := by
    rw [← hnow, ← hs.fresh_eq]
  have hoccasion' : t.occasion = ⟨t.occasion.now, u'.names.lastOf draws' 0⟩ := by
    rw [← ht.fresh_eq]
  rw [hsame] at hop
  rw [← hs.own_eq, ← ht.own_eq] at hown
  have hanswer : s.answer = t.answer := by
    unfold Consultation.answer
    rw [hsame, hgiven, hoccasion, hoccasion']
    exact hop.answer_eq _ _ hown
  have hresult : s.result d = t.result d := by
    unfold Consultation.result
    rw [hanswer, hnow, hgiven]
  have hfinal : s.final.erase "" = t.final.erase "" := by
    rw [hs.final_eq, ht.final_eq, hresult]
  have hafter : R s.after t.after := by
    unfold Consultation.after
    rw [hsame, hgiven, hoccasion, hoccasion']
    exact hop.after _ _ hown
  refine ⟨⟨hcommission, hgiven, hanswer, hfinal⟩, ?_, ?_⟩
  · rw [hs.eq_world, ht.eq_world]
    exact hresult
  · rw [hs.eq_world, ht.eq_world]
    show R (s.op.settle s.occasion.now s.final s.after) (t.op.settle t.occasion.now t.final t.after)
    rw [hsame, hnow]
    exact hop.told _ hafter hfinal

theorem IsCourse.alike {ss ts : List (Served σ)} (hs : IsCourse d draws u ss v)
    (ht : IsCourse d draws' u' ts v')
    (hcommissions : ss.map Served.commission = ts.map Served.commission)
    (hmedium : u.medium = u'.medium) (hown : R u.own u'.own)
    (hop : ∀ s ∈ ss, ∀ n, s.op.IsConstant R (u.names.lastOf draws n) (u'.names.lastOf draws' n)) :
    List.Forall₂ Served.Alike ss ts ∧ v.medium = v'.medium ∧ R v.own v'.own := by
  induction hs generalizing ts u' with
  | nil =>
    cases ht with
    | nil => exact ⟨.nil, hmedium, hown⟩
    | cons first rest => cases hcommissions
  | @cons s ss u v w first _ ih =>
    cases ht with
    | nil => cases hcommissions
    | @cons t ts _ z _ first' rest' =>
      obtain ⟨hcommission, hcommissions⟩ := List.cons.inj hcommissions
      obtain ⟨halike, hmedium, hown⟩ :=
        first.alike first' hcommission hmedium hown (hop s List.mem_cons_self 0)
      have hnames : v.names = u.names.skip draws := by
        rw [first.eq_world]
      have hnames' : z.names = u'.names.skip draws' := by
        rw [first'.eq_world]
      have hrest := ih rest' hcommissions hmedium hown (by
        intro s' hs' n
        rw [hnames, hnames', Supply.lastOf_skip, Supply.lastOf_skip]
        exact hop s' (List.mem_cons_of_mem s hs') (n + 1))
      exact ⟨.cons halike hrest.1, hrest.2⟩

end

/-! ## Writers with a medium of their own -/

namespace Served

/-- The job that was served. -/
def job (t : Served σ) : Job σ := .run t.op t.isAwaited

/-- What the one who waits is told, if somebody does. -/
def replies (t : Served σ) : List Reply := if t.isAwaited then [.settled t.final] else []

end Served

/-- The questions and words among acts are those of the operations that were served. -/
structure Notes (acts : List (Job σ × Act σ)) (ts : List (Served σ)) : Prop where
  asked_eq : acts.filter (·.2.isAsking) = ts.map fun t => (t.job, t.act)
  told_eq : acts.filter (·.2.isTelling) = ts.flatMap fun t => t.tellings.map (t.job, ·)

theorem notes_nil : Notes ([] : List (Job σ × Act σ)) [] := ⟨rfl, rfl⟩

theorem Notes.append {acts acts' : List (Job σ × Act σ)} {ts ts' : List (Served σ)}
    (h : Notes acts ts) (h' : Notes acts' ts') : Notes (acts ++ acts') (ts ++ ts') where
  asked_eq := by rw [List.filter_append, h.asked_eq, h'.asked_eq, List.map_append]
  told_eq := by rw [List.filter_append, h.told_eq, h'.told_eq, List.flatMap_append]

theorem notes_singleton {acts : List (Act σ)} {t : Served σ}
    (hasked : acts.filter Act.isAsking = [t.act]) (htold : acts.filter Act.isTelling = t.tellings) :
    Notes (acts.map (t.job, ·)) [t] where
  asked_eq := by
    rw [List.filter_map]
    exact congrArg (List.map (t.job, ·)) hasked
  told_eq := by
    rw [List.filter_map, List.flatMap_singleton]
    exact congrArg (List.map (t.job, ·)) htold

namespace Processor

/-- Serving a queue that nobody disturbs is a course of the operations in it. -/
theorem exists_isCourse_serveJobs {m : Medium μ} {view : μ → Record} (h : m.IsReliable view)
    (now : Timestamp) (tick : Nat) (ops : List (Operation σ × Bool)) (p : Processor σ)
    (htries : 1 ≤ p.policy.maxTries) (w : World μ σ) (hfree : (view w.medium).lock? = none) :
    ∃ (ts : List (Served σ)) (v : World μ σ),
      ts.map Served.commission = ops.map (fun o => ⟨o.1, o.2, now⟩) ∧
      serveJobs m now tick (ops.map fun o => .run o.1 o.2) p w
        = ({ p with queue := [], replies := p.replies ++ ts.flatMap Served.replies }, v) ∧
      IsCourse p.policy.expirationDelay m.draws (w.shown view) ts (v.shown view) ∧
      Notes (serveJobsActs m p.policy now tick (ops.map fun o => .run o.1 o.2) w) ts := by
  induction ops generalizing p w with
  | nil =>
    refine ⟨[], w, rfl, ?_, .nil, notes_nil⟩
    rw [List.flatMap_nil, List.append_nil]
    rfl
  | cons o ops ih =>
    obtain ⟨t, v, hop, hawaited, hnow, hstart, hserved, hasked, htold⟩ :=
      exists_isServed h p.policy (fun _ => htries) now tick o.1 o.2 w hfree
    have hfree' : (view v.medium).lock? = none :=
      (IsCourse.cons hserved .nil).lock?_medium hfree
    have hreply : p.reply o.2 (.settled t.final)
        = { p with replies := p.replies ++ t.replies } := by
      rw [← hawaited]
      unfold reply Served.replies
      split
      · rfl
      · rw [List.append_nil]
    obtain ⟨ts, u, hcommissions, hjobs, hcourse, hnotes⟩ :=
      ih { p with replies := p.replies ++ t.replies } htries v hfree'
    refine ⟨t :: ts, u, ?_, ?_, .cons hserved hcourse, ?_⟩
    · rw [List.map_cons, List.map_cons, hcommissions, Served.commission, hop, hawaited, hnow]
    · rw [List.map_cons, serveJobs, hstart]
      dsimp only
      rw [hreply, hjobs, List.flatMap_cons, List.append_assoc]
    · rw [List.map_cons, serveJobsActs, hstart]
      have hjob : t.job = .run o.1 o.2 := by
        rw [Served.job, hop, hawaited]
      rw [← hjob]
      exact (notes_singleton hasked htold).append hnotes

end Processor

/-- Operations that are submitted, and a moment at which the writer then gets to serve. -/
structure Batch (σ : Type) where
  /-- the operations, and for each whether somebody waits for the reply -/
  ops : List (Operation σ × Bool)
  now : Timestamp
  tick : Nat

namespace Batch

/-- The turns of the writer: all is submitted, then it serves. -/
def turns (b : Batch σ) : List (Turn μ σ) :=
  b.ops.map (fun o => .submit o.1 o.2) ++ [.serve b.now b.tick]

/-- The operations as they are carried out, all at the moment of the batch. -/
def commissions (b : Batch σ) : List (Commission σ) := b.ops.map fun o => ⟨o.1, o.2, b.now⟩

end Batch

namespace Service

/-- What a writer has done that took these operations from its beginning in a world. -/
structure Did (m : Medium μ) (view : μ → Record) (policy : LockPolicy) (w : World μ σ)
    (x : Service μ σ) (ts : List (Served σ)) : Prop where
  /-- nothing waits or pauses, and all replies are those of operations that have settled -/
  processor_eq : x.processor = ⟨policy, [], none, ts.flatMap Served.replies, false⟩
  isCourse : IsCourse policy.expirationDelay m.draws (w.shown view) ts (x.world.shown view)
  notes : Notes x.acts ts

theorem did_start (m : Medium μ) (view : μ → Record) (policy : LockPolicy) (w : World μ σ) :
    (start policy w).Did m view policy w [] := ⟨rfl, .nil, notes_nil⟩

theorem run_submits (m : Medium μ) (ops : List (Operation σ × Bool)) (x : Service μ σ)
    (hrunning : x.processor.isStopped = false) :
    x.run m (ops.map fun o => .submit o.1 o.2) =
      { x with
        processor :=
          { x.processor with queue := x.processor.queue ++ ops.map fun o => .run o.1 o.2 }
        submitted := x.submitted ++ ops.map fun o => .run o.1 o.2 } := by
  induction ops generalizing x with
  | nil => simp
  | cons o ops ih =>
    have hsubmit : x.processor.submit o.1 o.2
        = { x.processor with queue := x.processor.queue ++ [.run o.1 o.2] } := by
      simp [Processor.submit, hrunning]
    rw [List.map_cons, run_cons, turn, hsubmit, ih]
    · simp only [List.append_assoc, List.map_cons, List.singleton_append]
    · exact hrunning

variable {m : Medium μ} {view : μ → Record} {policy : LockPolicy} {w : World μ σ}
  {x : Service μ σ} {ts : List (Served σ)}

theorem Did.batch (h : x.Did m view policy w ts) (hm : m.IsReliable view)
    (htries : 1 ≤ policy.maxTries) (hfree : (view w.medium).lock? = none) (b : Batch σ) :
    ∃ more : List (Served σ), more.map Served.commission = b.commissions ∧
      (x.run m b.turns).Did m view policy w (ts ++ more) := by
  obtain ⟨more, v, hcommissions, hjobs, hcourse, hnotes⟩ :=
    Processor.exists_isCourse_serveJobs hm b.now b.tick b.ops
      ⟨policy, b.ops.map fun o => .run o.1 o.2, none, ts.flatMap Served.replies, false⟩ htries
      x.world (h.isCourse.lock?_medium hfree)
  refine ⟨more, hcommissions, ?_⟩
  have hrunning : x.processor.isStopped = false := by
    rw [h.processor_eq]
  rw [Batch.turns, run_append, run_submits m b.ops x hrunning, run_cons, run_nil, h.processor_eq]
  constructor
  · rw [List.flatMap_append]
    exact congrArg Prod.fst hjobs
  · obtain rfl : _ = v := congrArg Prod.snd hjobs
    exact h.isCourse.append hcourse
  · exact h.notes.append hnotes

/-- All that a writer does on a medium of its own is a course of the operations submitted to it. -/
theorem exists_did_run (hm : m.IsReliable view) (htries : 1 ≤ policy.maxTries)
    (hfree : (view w.medium).lock? = none) (batches : List (Batch σ)) :
    ∃ ts : List (Served σ), ts.map Served.commission = batches.flatMap Batch.commissions ∧
      ((start policy w).run m (batches.flatMap Batch.turns)).Did m view policy w ts := by
  -- the induction is on the batches to come, from wherever the earlier ones have led
  have hfrom : ∀ (x : Service μ σ) (ts : List (Served σ)), x.Did m view policy w ts →
      ∃ more : List (Served σ), more.map Served.commission = batches.flatMap Batch.commissions ∧
        (x.run m (batches.flatMap Batch.turns)).Did m view policy w (ts ++ more) := by
    induction batches with
    | nil => exact fun x ts h => ⟨[], rfl, by rwa [List.append_nil]⟩
    | cons b batches ih =>
      intro x ts h
      obtain ⟨first, hfirst, hbatch⟩ := h.batch hm htries hfree b
      obtain ⟨more, hmore, hrest⟩ := ih _ _ hbatch
      refine ⟨first ++ more, ?_, ?_⟩
      · rw [List.map_append, hfirst, hmore, List.flatMap_cons]
      · rwa [List.flatMap_cons, run_append, ← List.append_assoc]
  exact hfrom _ _ (did_start m view policy w)

/-- Two writers, each with a medium of its own, serve the same operations at the same moments alike,
whether they take the lock or not, if both media show the same record at first.

Each operation is asked once, and both times about the same record, which is what the one before it
has left; none is dropped; and the records shown in the end are what the decisions make of the first
record. The records with which an operation settles are the same but for an entry under the empty
key. The operations have to decide alike although the two writers draw different names and have
states of their own. -/
theorem alike_whether_locking {μ' : Type} {m' : Medium μ'} {view' : μ' → Record}
    (hm : m.IsReliable view) (hm' : m'.IsReliable view') (htries : 1 ≤ policy.maxTries)
    (w : World μ σ) (w' : World μ' σ) (hview : view w.medium = view' w'.medium)
    (hfree : (view w.medium).lock? = none) (batches : List (Batch σ)) (R : σ → σ → Prop)
    (hown : R w.own w'.own)
    (hconstant : ∀ b ∈ batches, ∀ o ∈ b.ops, ∀ n,
      o.1.IsConstant R (w.names.lastOf m.draws n) (w'.names.lastOf m'.draws n)) :
    ∃ ts ts' : List (Served σ),
      ts.map Served.commission = batches.flatMap Batch.commissions ∧
      ((start policy w).run m (batches.flatMap Batch.turns)).Did m view policy w ts ∧
      ((start policy w').run m' (batches.flatMap Batch.turns)).Did m' view' policy w' ts' ∧
      List.Forall₂ Served.Alike ts ts' ∧
      view ((start policy w).run m (batches.flatMap Batch.turns)).world.medium
        = leftBy policy.expirationDelay ts (view w.medium) ∧
      view' ((start policy w').run m' (batches.flatMap Batch.turns)).world.medium
        = leftBy policy.expirationDelay ts (view w.medium) := by
  obtain ⟨ts, hcommissions, hdid⟩ := exists_did_run hm htries hfree batches
  obtain ⟨ts', hcommissions', hdid'⟩ :=
    exists_did_run hm' htries (hview ▸ hfree) batches
  have hops : ∀ t ∈ ts, ∀ n,
      t.op.IsConstant R (w.names.lastOf m.draws n) (w'.names.lastOf m'.draws n) := by
    intro t ht
    have hmem := List.mem_map_of_mem (f := Served.commission) ht
    rw [hcommissions, List.mem_flatMap] at hmem
    obtain ⟨b, hb, hmem⟩ := hmem
    obtain ⟨o, ho, heq⟩ := List.mem_map.1 hmem
    have hop : t.op = o.1 := (congrArg Commission.op heq).symm
    rw [hop]
    exact hconstant b hb o ho
  obtain ⟨halike, hsame, -⟩ := hdid.isCourse.alike hdid'.isCourse
    (hcommissions.trans hcommissions'.symm) hview hown hops
  exact ⟨ts, ts', hcommissions, hdid, hdid', halike, hdid.isCourse.medium_eq,
    hsame.symm.trans hdid.isCourse.medium_eq⟩

/-- Five decisions: to store a lock and an entry under the empty key, to keep what is there, to store
mere bookkeeping, to keep nothing, and to remove nothing. -/
def mixedDecisions : List (Record → Outcome) :=
  [fun r => .persist (((r.set "" "x").withLock "held").set "v" "1"), fun _ => .unchanged,
    fun r => .persist ((r.erase "a").erase "v"), fun _ => .unchanged, fun _ => .clear]

/-- Operations that decide so, two at one moment and three at another. -/
def mixedBatches : List (Batch Unit) :=
  let ops := mixedDecisions.map fun f => (Operation.ofTransform fun _ r own => (f r, own), true)
  [⟨ops.take 2, .epoch, 0⟩, ⟨ops.drop 2, .clamp 5, 5⟩]

/-- A text with pieces that are no entries, and of two values of one key the later. -/
def malformedCell : World (Option String) Unit := ⟨some "=x&a=1&%&a=2", (), .identifiers 0⟩

/-- A single try has to do. -/
def singleTry : LockPolicy := ⟨.ofMillis 10, 1, .ofMillis 900⟩

theorem mixed_isConstant : ∀ b ∈ mixedBatches, ∀ o ∈ b.ops, ∀ fresh fresh' : String,
    o.1.IsConstant (fun _ _ => True) fresh fresh' := by
  intro b hb o ho
  have hmem : o ∈ mixedDecisions.map fun f =>
      (Operation.ofTransform fun _ r own => (f r, own), true) := by
    rcases List.mem_pair.1 hb with rfl | rfl
    · exact List.mem_of_mem_take ho
    · exact List.mem_of_mem_drop ho
  obtain ⟨f, -, rfl⟩ := List.mem_map.1 hmem
  exact Operation.isConstant_of_forall (f := fun _ => f) fun _ _ _ => rfl

/-- The five operations are served alike from a text that is not well formed. -/
theorem mixed_alike :
    ∃ ts ts' : List (Served Unit),
      ts.map Served.commission = mixedBatches.flatMap Batch.commissions ∧
      ((start singleTry malformedCell).run (.memory true)
        (mixedBatches.flatMap Batch.turns)).Did (.memory true) Record.ofStored singleTry
          malformedCell ts ∧
      ((start singleTry malformedCell).run (.memory false)
        (mixedBatches.flatMap Batch.turns)).Did (.memory false) Record.ofStored singleTry
          malformedCell ts' ∧
      List.Forall₂ Served.Alike ts ts' := by
  obtain ⟨ts, ts', hcommissions, hdid, hdid', halike, -, -⟩ :=
    alike_whether_locking (Medium.memory_isReliable true) (Medium.memory_isReliable false)
      (show 1 ≤ singleTry.maxTries by decide) malformedCell malformedCell rfl (by decide +kernel)
      mixedBatches (fun _ _ => True) trivial fun b hb o ho n => mixed_isConstant b hb o ho _ _
  exact ⟨ts, ts', hcommissions, hdid, hdid', halike⟩

end Service

end SharedSession
