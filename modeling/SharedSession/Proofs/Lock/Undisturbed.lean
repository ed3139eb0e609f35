import SharedSession.Proofs.Lock.Fidelity
import SharedSession.Proofs.Lock.Segment
import SharedSession.Proofs.Names
import SharedSession.Proofs.Storage.Keeper

set_option autoImplicit false

/-!
# An operation that nobody disturbs

On a medium that nobody else writes and whose calls succeed, an operation is asked once, about the
record that is kept, and what was decided is what is kept next. Under the lock this takes seven
calls, and `Stage.Along` says what holds before each of them.

With the lock and without it the same comes about: `IsServed` says what, and speaks of the lock only
where names are drawn. One of them is the writer's token.

Main statements: `Attempt.locked_undisturbed`, `Processor.exists_isServed`.
-/

namespace SharedSession

variable {μ σ : Type}

/-! ## Questions -/

/-- A question that an operation is asked, and the writer's own state at that time. -/
structure Consultation (σ : Type) where
  op : Operation σ
  occasion : Occasion
  given : Record
  own : σ

namespace Consultation

/-- The decision that is given. -/
def answer (c : Consultation σ) : Outcome := (c.op.transform c.occasion c.given c.own).1

/-- The writer's own state behind the question. -/
def after (c : Consultation σ) : σ := (c.op.transform c.occasion c.given c.own).2

/-- What is left of the session. -/
def result (d : Span) (c : Consultation σ) : Record := c.answer.result c.occasion.now d c.given

/-- The question with its answer as something that is done. -/
def act (c : Consultation σ) : Act σ := .ask c.occasion c.given c.answer

/-- The question is asked if the writer has the record, the state and the name that belong to it. -/
theorem consult_eq {c : Consultation σ} {w : World μ σ} {r : Record} (hgiven : r = c.given)
    (hown : w.own = c.own) (hfresh : c.occasion.fresh = w.names.next) :
    w.consult c.op c.occasion.now r = (c.answer, ⟨w.medium, c.after, w.names.draw.2⟩) ∧
      w.question c.op c.occasion.now r = c.act := by
  have hoccasion : (⟨c.occasion.now, w.names.next⟩ : Occasion) = c.occasion := by
    rw [← hfresh]
  have hanswer : c.op.transform ⟨c.occasion.now, w.names.next⟩ r w.own = (c.answer, c.after) := by
    rw [hoccasion, hgiven, hown]
    rfl
  refine ⟨World.consult_eq hanswer, ?_⟩
  unfold World.question
  rw [hanswer, hoccasion, hgiven]
  rfl

end Consultation

/-! ## Under the lock -/

/-- What a writer has and has asked when so much is done. -/
structure Stands (own : σ) (names : Supply) (asked acts : List (Act σ)) (w : World μ σ) : Prop where
  own_eq : w.own = own
  names_eq : w.names = names
  asked_eq : acts.filter Act.isAsking = asked

theorem Stands.call {own : σ} {names : Supply} {asked acts : List (Act σ)} {w v : World μ σ}
    (h : Stands own names asked acts w) (hown : v.own = w.own) (hnames : v.names = w.names)
    (call : Call) : Stands own names asked (acts ++ [.call call]) v where
  own_eq := hown.trans h.own_eq
  names_eq := hnames.trans h.names_eq
  asked_eq := by
    rw [List.filter_append, h.asked_eq]
    exact List.append_nil asked

namespace Stage

/-- What holds at a stage when so much is done. -/
def Along (view : μ → Record) (d : Span) (c : Consultation σ) (names : Supply)
    (before : List (Act σ)) (w : World μ σ) : Stage → Prop
  | .opening => view w.medium = c.given ∧ Stands c.own names [] before w
  | .locking _ base => base = c.given ∧ Stands c.own (names.skip 1) [] before w
  | .confirming token =>
    view w.medium = c.given.withLock token ∧ Stands c.own (names.skip 1) [] before w
  | .rechecking token answer =>
    view w.medium = c.given.withLock token ∧ answer = c.answer
      ∧ Stands c.after (names.skip 2) [c.act] before w
  | .writing _ r =>
    c.answer.resolve c.occasion.now d = .persist r ∧ Stands c.after (names.skip 2) [c.act] before w
  | .clearing =>
    c.answer.resolve c.occasion.now d = .clear ∧ Stands c.after (names.skip 2) [c.act] before w
  | .verifying token =>
    view w.medium = (c.result d).withLock token ∧ Stands c.after (names.skip 2) [c.act] before w
  | .releasing r => r = c.result d ∧ Stands c.after (names.skip 2) [c.act] before w
  | .settled r =>
    r = c.result d ∧ view w.medium = c.result d ∧ Stands c.after (names.skip 2) [c.act] before w
  | .contended _ => False

section

variable {m : Medium μ} {view : μ → Record} {d : Span} {c : Consultation σ} {names : Supply}

theorem along_step (h : m.IsReliable view) (hfree : c.given.lock? = none)
    (hplain : c.given.get? "" = none) (hfresh : c.occasion.fresh = (names.skip 1).next)
    {s : Stage} {w : World μ σ} {before : List (Act σ)} (hs : Along view d c names before w s) :
    Along view d c names (before ++ s.acts m c.op c.occasion.now w)
      (s.step m c.op d c.occasion.now w).2 (s.step m c.op d c.occasion.now w).1 := by
  obtain ⟨v, hload, hview, hown, hnames⟩ := h.load_world w
  have hresultPlain := Outcome.get?_result_empty hplain c.answer c.occasion.now d
  have hresultFree := Outcome.lock?_result hfree c.answer c.occasion.now d
  cases s with
  | opening =>
    obtain ⟨hgiven, hstands⟩ := hs
    rw [step_opening_of_free hload (by rw [hgiven, hfree])]
    refine ⟨hgiven, hown.trans hstands.own_eq, ?_, (hstands.call hown hnames _).asked_eq⟩
    show v.names.draw.2 = names.skip 1
    rw [hnames, hstands.names_eq]
    rfl
  | locking token base =>
    obtain ⟨rfl, hstands⟩ := hs
    refine ⟨?_, hstands.call (by rfl) (by rfl) _⟩
    have hsave := h.view_save_withLock c.given token w
    rwa [Record.erase_of_get?_eq_none hplain] at hsave
  | confirming token =>
    obtain ⟨hheld, hstands⟩ := hs
    have hlock : (view w.medium).lock? = some token := by
      rw [hheld, Record.lock?_withLock]
    have hgiven : (view w.medium).withoutLock = c.given := by
      rw [hheld, Record.withoutLock_withLock, Record.withoutLock_eq_self hfree]
    have hnext : c.occasion.fresh = v.names.next := by
      rw [hfresh, hnames, hstands.names_eq]
    obtain ⟨hconsult, hquestion⟩ :=
      Consultation.consult_eq hgiven (hown.trans hstands.own_eq) hnext
    rw [step_confirming_of_held hload hlock, hconsult]
    refine ⟨hview.trans hheld, rfl, rfl, ?_, ?_⟩
    · show v.names.draw.2 = names.skip 2
      rw [hnames, hstands.names_eq]
      rfl
    · simp only [acts, hload, if_pos hlock, hquestion, List.filter_append, hstands.asked_eq]
      rfl
  | rechecking token answer =>
    obtain ⟨hheld, rfl, hstands⟩ := hs
    have hstands' := hstands.call hown hnames (m.loadCall w.medium)
    rw [step_rechecking_of_held _ hload (by rw [hheld, Record.lock?_withLock])]
    cases hresolve : c.answer.resolve c.occasion.now d with
    | persist r => exact ⟨hresolve, hstands'⟩
    | clear => exact ⟨hresolve, hstands'⟩
    | unchanged =>
      refine ⟨?_, hstands'⟩
      rw [hview, hheld, Consultation.result, Outcome.result_of_resolve_unchanged c.given hresolve]
  | writing token r =>
    obtain ⟨hresolve, hstands⟩ := hs
    refine ⟨?_, hstands.call (by rfl) (by rfl) _⟩
    rw [Consultation.result, (Outcome.result_of_resolve_persist c.given hresolve).1]
    exact h.view_save_withLock r token w
  | clearing =>
    obtain ⟨hresolve, hstands⟩ := hs
    have hresult : c.result d = ∅ := Outcome.result_of_resolve_clear c.given hresolve
    exact ⟨hresult.symm, (h.view_wipe_world w).trans hresult.symm, hstands.call (by rfl) (by rfl) _⟩
  | verifying token =>
    obtain ⟨hheld, hstands⟩ := hs
    rw [step_verifying_of_held hload (by rw [hheld, Record.lock?_withLock])]
    refine ⟨?_, hstands.call hown hnames _⟩
    rw [hheld, Record.withoutLock_withLock]
    exact Record.withoutLock_eq_self hresultFree
  | releasing r =>
    obtain ⟨rfl, hstands⟩ := hs
    refine ⟨rfl, ?_, hstands.call (by rfl) (by rfl) _⟩
    exact (h.view_save_world _ w).trans (Record.erase_of_get?_eq_none hresultPlain)
  | settled r =>
    show Along view d c names (before ++ []) w (.settled r)
    rwa [List.append_nil]
  | contended found => exact hs.elim

theorem along_run (h : m.IsReliable view) (hfree : c.given.lock? = none)
    (hplain : c.given.get? "" = none) (hfresh : c.occasion.fresh = (names.skip 1).next) (n : Nat)
    {s : Stage} {w : World μ σ} {before : List (Act σ)} (hs : Along view d c names before w s) :
    Along view d c names (before ++ s.actsOf m c.op d c.occasion.now n w)
      (s.run m c.op d c.occasion.now n w).2 (s.run m c.op d c.occasion.now n w).1 := by
  induction n generalizing s w before with
  | zero =>
    rw [actsOf, List.append_nil]
    exact hs
  | succ n ih =>
    have hrest := ih (along_step h hfree hplain hfresh hs)
    rwa [List.append_assoc] at hrest

end

end Stage

/-- An attempt that nobody disturbs settles with what is left of the session. -/
theorem Attempt.locked_undisturbed {m : Medium μ} {view : μ → Record} (h : m.IsReliable view)
    (d : Span) {c : Consultation σ} {w : World μ σ} (hgiven : view w.medium = c.given)
    (hown : w.own = c.own) (hfresh : c.occasion.fresh = (w.names.skip 1).next)
    (hfree : c.given.lock? = none) :
    ∃ v : World μ σ, Attempt.locked m c.op d c.occasion.now w = (.settled (c.result d), v) ∧
      view v.medium = c.result d ∧
      Stands c.after (w.names.skip 2) [c.act] (lockedActs m c.op d c.occasion.now w) v := by
  have hplain : c.given.get? "" = none := by
    rw [← hgiven]
    exact h.get?_view_empty w.medium
  have hopening : Stage.Along view d c w.names [] w .opening := ⟨hgiven, hown, rfl, rfl⟩
  have hend := Stage.along_run h hfree hplain hfresh 7 hopening
  have hfinal := Stage.isFinal_run m c.op d c.occasion.now 7 .opening w (Nat.le_refl 7)
  unfold Attempt.locked
  generalize Stage.opening.run m c.op d c.occasion.now 7 w = ended at hend hfinal ⊢
  obtain ⟨s, v⟩ := ended
  cases s with
  | settled r =>
    obtain ⟨rfl, hview, hstands⟩ := hend
    exact ⟨v, rfl, hview, hstands⟩
  | contended found => exact hend.elim
  | _ => cases hfinal

/-! ## Without the lock -/

/-- Without a lock, too, the session is left as was decided, but the operation settles with an entry
under the empty key if it decided to store one. -/
theorem Attempt.unlocked_undisturbed {m : Medium μ} {view : μ → Record} (h : m.IsReliable view)
    (d : Span) {c : Consultation σ} {w : World μ σ} (hgiven : view w.medium = c.given)
    (hown : w.own = c.own) (hfresh : c.occasion.fresh = w.names.next)
    (hfree : c.given.lock? = none) :
    ∃ (final : Record) (v : World μ σ),
      Attempt.unlocked m c.op d c.occasion.now w = (final, v) ∧ final.erase "" = c.result d ∧
      view v.medium = c.result d ∧
      Stands c.after (w.names.skip 1) [c.act] (unlockedActs m c.op d c.occasion.now w) v := by
  obtain ⟨u, hload, hview, hown', hnames⟩ := h.load_world w
  have hcurrent : (view w.medium).withoutLock = c.given := by
    rw [hgiven, Record.withoutLock_eq_self hfree]
  have hplain : c.given.get? "" = none := by
    rw [← hgiven]
    exact h.get?_view_empty w.medium
  obtain ⟨hconsult, hquestion⟩ :=
    Consultation.consult_eq rfl (hown'.trans hown) (hfresh.trans (congrArg Supply.next hnames.symm))
  have hstands : ∀ v : World μ σ, v.own = c.after → v.names = u.names.draw.2 →
      Stands c.after (w.names.skip 1) [c.act] (unlockedActs m c.op d c.occasion.now w) v := by
    intro v hafter hdrawn
    refine ⟨hafter, ?_, ?_⟩
    · rw [hdrawn, hnames]
      rfl
    · simp only [unlockedActs, hload, hcurrent, hquestion, hconsult]
      cases c.answer.resolve c.occasion.now d <;> rfl
  simp only [Attempt.unlocked, hload, hcurrent, hconsult]
  cases hresolve : c.answer.resolve c.occasion.now d with
  | persist r =>
    have hresult : c.result d = r.erase "" :=
      (Outcome.result_of_resolve_persist c.given hresolve).1
    exact ⟨r, _, rfl, hresult.symm, (h.view_save_world r _).trans hresult.symm,
      hstands _ rfl rfl⟩
  | clear =>
    have hresult : c.result d = ∅ := Outcome.result_of_resolve_clear c.given hresolve
    rw [hresult]
    exact ⟨∅, _, rfl, Record.erase_empty "", h.view_wipe_world _, hstands _ rfl rfl⟩
  | unchanged =>
    have hresult : c.result d = c.given := Outcome.result_of_resolve_unchanged c.given hresolve
    rw [hresult]
    exact ⟨c.given, _, rfl, Record.erase_of_get?_eq_none hplain, hview.trans hgiven,
      hstands _ rfl rfl⟩

/-! ## With the lock or without it -/

/-- How many names are drawn to serve an operation, the token first. -/
def Medium.draws (m : Medium μ) : Nat := if m.locking then 2 else 1

/-- An operation that has settled. -/
structure Served (σ : Type) extends Consultation σ where
  isAwaited : Bool
  final : Record

namespace Served

/-- The writer's own state when all callbacks have been told. -/
def told (t : Served σ) : σ := t.op.settle t.occasion.now t.final t.after

/-- Telling everybody the final record. -/
def tellings (t : Served σ) : List (Act σ) := t.op.tellings t.occasion.now t.final

end Served

/-- What serving an operation comes to: it leads from one world to another, in both of which the
record that is shown stands in place of the medium. -/
structure IsServed (d : Span) (draws : Nat) (t : Served σ) (w v : World Record σ) : Prop where
  given_eq : t.given = w.medium
  own_eq : t.own = w.own
  fresh_eq : t.occasion.fresh = w.names.lastOf draws 0
  final_eq : t.final.erase "" = t.result d
  eq_world : v = ⟨t.result d, t.told, w.names.skip draws⟩

/-- The world with the record that is shown in place of the medium. -/
def World.shown (view : μ → Record) (w : World μ σ) : World Record σ :=
  ⟨view w.medium, w.own, w.names⟩

namespace Operation

theorem filter_isAsking_tellings (op : Operation σ) (now : Timestamp) (r : Record) :
    (op.tellings now r).filter Act.isAsking = [] := by
  simp [tellings, Act.isAsking]

theorem filter_isTelling_tellings (op : Operation σ) (now : Timestamp) (r : Record) :
    (op.tellings now r).filter Act.isTelling = op.tellings now r := by
  simp [tellings, Act.isTelling]

end Operation

theorem IsWork.filter_isTelling {acts : List (Act σ)} (h : IsWork acts) :
    acts.filter Act.isTelling = [] := by
  rw [List.filter_eq_nil_iff]
  intro act hact
  rw [h.silent act hact]
  exact Bool.false_ne_true

/-- What there is to show once an attempt has settled and everybody has been told. -/
theorem Stands.isServed {view : μ → Record} {d : Span} {draws : Nat} {t : Served σ}
    {w v : World μ σ} {work : List (Act σ)} (h : Stands t.after (w.names.skip draws) [t.act] work v)
    (hwork : IsWork work) (hgiven : t.given = view w.medium) (hown : t.own = w.own)
    (hfresh : t.occasion.fresh = w.names.lastOf draws 0) (hfinal : t.final.erase "" = t.result d)
    (hview : view v.medium = t.result d) :
    IsServed d draws t (w.shown view) ((v.settle t.op t.occasion.now t.final).shown view) ∧
      (work ++ t.tellings).filter Act.isAsking = [t.act] ∧
      (work ++ t.tellings).filter Act.isTelling = t.tellings := by
  refine ⟨⟨hgiven, hown, hfresh, hfinal, ?_⟩, ?_, ?_⟩
  · show World.mk (view v.medium) (t.op.settle t.occasion.now t.final v.own) v.names = _
    rw [hview, h.own_eq, h.names_eq]
    rfl
  · rw [List.filter_append, h.asked_eq, Served.tellings, Operation.filter_isAsking_tellings]
    rfl
  · rw [List.filter_append, hwork.filter_isTelling, Served.tellings,
      Operation.filter_isTelling_tellings]
    rfl

namespace Processor

theorem start_undisturbed {m : Medium μ} {view : μ → Record} (h : m.IsReliable view)
    (policy : LockPolicy) (htries : m.locking = true → 1 ≤ policy.maxTries) (tick : Nat)
    (isAwaited : Bool) {c : Consultation σ} {w : World μ σ} (hgiven : view w.medium = c.given)
    (hown : w.own = c.own)
    (hfresh : c.occasion.fresh = w.names.lastOf m.draws 0) (hfree : c.given.lock? = none) :
    ∃ (final : Record) (work : List (Act σ)) (v : World μ σ),
      start m policy c.occasion.now tick c.op isAwaited w
        = (.done (.settled final), v.settle c.op c.occasion.now final) ∧
      startActs m policy c.occasion.now c.op w = work ++ c.op.tellings c.occasion.now final ∧
      IsWork work ∧ final.erase "" = c.result policy.expirationDelay ∧
      view v.medium = c.result policy.expirationDelay ∧
      Stands c.after (w.names.skip m.draws) [c.act] work v := by
  cases hlocking : m.locking with
  | true =>
    have hdraws : m.draws = 2 := by
      rw [Medium.draws, if_pos hlocking]
    rw [hdraws] at hfresh ⊢
    obtain ⟨v, hlocked, hview, hstands⟩ :=
      Attempt.locked_undisturbed h policy.expirationDelay hgiven hown hfresh hfree
    obtain ⟨hstart, hacts⟩ :=
      start_of_locking m policy _ tick hlocking (htries hlocking) hlocked isAwaited
    have hplain : c.given.get? "" = none := by
      rw [← hgiven]
      exact h.get?_view_empty w.medium
    exact ⟨_, _, v, hstart, hacts, Attempt.isWork_lockedActs m c.op _ c.occasion.now w,
      Record.erase_of_get?_eq_none (Outcome.get?_result_empty hplain _ _ _), hview, hstands⟩
  | false =>
    have hdraws : m.draws = 1 := by
      rw [Medium.draws, hlocking]
      rfl
    rw [hdraws] at hfresh ⊢
    obtain ⟨final, v, hunlocked, hfinal, hview, hstands⟩ :=
      Attempt.unlocked_undisturbed h policy.expirationDelay hgiven hown hfresh hfree
    obtain ⟨hstart, hacts⟩ := start_of_not_locking m policy _ tick hlocking hunlocked isAwaited
    exact ⟨final, _, v, hstart, hacts, Attempt.isWork_unlockedActs m c.op _ c.occasion.now w,
      hfinal, hview, hstands⟩

/-- With nobody else about, an operation is asked once and settles, whether under the lock or
not. -/
theorem exists_isServed {m : Medium μ} {view : μ → Record} (h : m.IsReliable view)
    (policy : LockPolicy) (htries : m.locking = true → 1 ≤ policy.maxTries) (now : Timestamp)
    (tick : Nat) (op : Operation σ) (isAwaited : Bool) (w : World μ σ)
    (hfree : (view w.medium).lock? = none) :
    ∃ (t : Served σ) (v : World μ σ), t.op = op ∧ t.isAwaited = isAwaited ∧ t.occasion.now = now ∧
      start m policy now tick op isAwaited w = (.done (.settled t.final), v) ∧
      IsServed policy.expirationDelay m.draws t (w.shown view) (v.shown view) ∧
      (startActs m policy now op w).filter Act.isAsking = [t.act] ∧
      (startActs m policy now op w).filter Act.isTelling = t.tellings := by
  obtain ⟨final, work, v, hstart, hacts, hwork, hfinal, hview, hstands⟩ :=
    start_undisturbed h policy htries tick isAwaited
      (c := ⟨op, ⟨now, w.names.lastOf m.draws 0⟩, view w.medium, w.own⟩) rfl rfl rfl hfree
  refine ⟨⟨⟨op, ⟨now, w.names.lastOf m.draws 0⟩, view w.medium, w.own⟩, isAwaited, final⟩, _,
    rfl, rfl, rfl, hstart, ?_⟩
  rw [hacts]
  exact hstands.isServed hwork rfl rfl rfl hfinal hview

end Processor

end SharedSession
