import SharedSession.Proofs.Lock.Contest

set_option autoImplicit false

/-!
# An operation settles with what it decided last

One operation is served while somebody outside overwrites the cell at any time with any text, as
long as no such text carries a token that the operation takes. Then the token is a proof: a reader
who finds it in the cell finds the writer's own latest write. So each decision is about the record
that its own attempt opened with, and what the operation settles with, and leaves in the cell, is
what it decided last.

Main statements: `Contest.settled_of_last_decision`.
-/

namespace SharedSession

namespace Outcome

/-- What is left of a session after a decision about it that was taken up at `now`. -/
def result (now : Timestamp) (d : Span) (given : Record) : Outcome → Record
  | .persist s => if s.isCleared then ∅ else (s.withoutLock.expand now d).erase ""
  | .clear => ∅
  | .unchanged => given

theorem result_of_resolve_persist {answer : Outcome} {now : Timestamp} {d : Span} {r : Record}
    (given : Record) (h : answer.resolve now d = .persist r) :
    answer.result now d given = r.erase "" ∧ r.lock? = none := by
  obtain ⟨s, rfl, hcleared, rfl⟩ := eq_of_resolve_persist h
  refine ⟨by simp [result, hcleared], ?_⟩
  rw [Record.lock?_expand, Record.lock?_withoutLock]

theorem result_of_resolve_clear {answer : Outcome} {now : Timestamp} {d : Span}
    (given : Record) (h : answer.resolve now d = .clear) : answer.result now d given = ∅ := by
  cases answer with
  | persist s =>
    cases hcleared : s.isCleared with
    | true => simp [result, hcleared]
    | false => simp [resolve_persist_of_not_cleared now d hcleared] at h
  | clear => rfl
  | unchanged => cases h

theorem result_of_resolve_unchanged {answer : Outcome} {now : Timestamp} {d : Span}
    (given : Record) (h : answer.resolve now d = .unchanged) : answer.result now d given = given := by
  cases answer with
  | persist s =>
    cases hcleared : s.isCleared with
    | true => simp [resolve_persist_of_cleared now d hcleared] at h
    | false => simp [resolve_persist_of_not_cleared now d hcleared] at h
  | clear => cases h
  | unchanged => rfl

/-- Whatever is decided about a record without a lock, the result has none. -/
theorem lock?_result {given : Record} (h : given.lock? = none) (answer : Outcome) (now : Timestamp)
    (d : Span) : (answer.result now d given).lock? = none := by
  cases hresolve : answer.resolve now d with
  | persist r =>
    obtain ⟨hresult, hfree⟩ := result_of_resolve_persist given hresolve
    rw [hresult, Record.lock?, Record.get?_erase, if_neg (Ne.symm Record.lockKey_ne_empty)]
    exact hfree
  | clear => rw [result_of_resolve_clear given hresolve]; exact Record.get?_empty _
  | unchanged => rw [result_of_resolve_unchanged given hresolve]; exact h

/-- Nor has it an entry that is not stored. -/
theorem get?_result_empty {given : Record} (h : given.get? "" = none) (answer : Outcome)
    (now : Timestamp) (d : Span) : (answer.result now d given).get? "" = none := by
  cases hresolve : answer.resolve now d with
  | persist r =>
    obtain ⟨hresult, -⟩ := result_of_resolve_persist given hresolve
    rw [hresult, Record.get?_erase, if_pos rfl]
  | clear => rw [result_of_resolve_clear given hresolve]; exact Record.get?_empty ""
  | unchanged => rw [result_of_resolve_unchanged given hresolve]; exact h

end Outcome

namespace Contest

variable {σ : Type}

/-- The deeds of a contest without a word about whose they are. -/
def log (c : Contest Unit σ) : List Deed := c.journal.map (·.2)

@[simp] theorem log_put (c : Contest Unit σ) (x : Writer σ) (cell : Option String) (names : Supply)
    (ds : List Deed) : (c.put () x cell names ds).log = ds ++ c.log := by
  simp [log, put, Function.comp_def]

/-! ## What a stage knows -/

/-- A record that was read without a lock. -/
structure IsBase (log : List Deed) (base : Record) : Prop where
  opened : log.findSome? Deed.opened? = some base
  free : base.lock? = none
  plain : base.get? "" = none

/-- The latest decision: what it was about, what it was and when it was taken up. -/
structure IsDecision (log : List Deed) (base : Record) (answer : Outcome) (now : Timestamp) :
    Prop where
  isBase : IsBase log base
  asked : log.findSome? Deed.asked? = some (base, answer)
  decided : log.findSome? Deed.decided? = some now

/-- What holds at a stage, given the record in the cell and the deeds up to now. -/
def Knows (d : Span) (seen : Record) (log : List Deed) : Stage → Prop
  | .opening => True
  | .locking token base => .drew token ∈ log ∧ IsBase log base
  | .confirming token =>
    .drew token ∈ log ∧ ∃ base, IsBase log base
      ∧ (seen.lock? = some token → seen = base.withLock token)
  | .rechecking token answer =>
    .drew token ∈ log ∧ ∃ base, IsBase log base
      ∧ log.findSome? Deed.asked? = some (base, answer)
      ∧ (seen.lock? = some token → seen = base.withLock token)
  | .writing token r =>
    .drew token ∈ log ∧ ∃ base answer now, IsDecision log base answer now
      ∧ answer.resolve now d = .persist r
  | .clearing => ∃ base answer now, IsDecision log base answer now ∧ answer.resolve now d = .clear
  | .verifying token =>
    .drew token ∈ log ∧ ∃ base answer now, IsDecision log base answer now
      ∧ (seen.lock? = some token → seen = (answer.result now d base).withLock token)
      ∧ answer.resolve now d ≠ .clear
  | .releasing r =>
    ∃ base answer now, IsDecision log base answer now ∧ r = answer.result now d base
      ∧ r.get? "" = none ∧ answer.resolve now d ≠ .clear
  | .settled _ => True
  | .contended _ => True

/-- An operation settled with what was decided last, and left that in the cell. -/
def Commits (d : Span) (log : List Deed) (r : Record) : Prop :=
  ∃ given answer now raw, log.findSome? Deed.asked? = some (given, answer)
    ∧ log.findSome? Deed.decided? = some now
    ∧ log.findSome? Deed.wrote? = some raw
    ∧ r = answer.result now d given
    ∧ Record.ofStored raw = r
    ∧ (answer.resolve now d = .clear → raw = none)

/-- What holds while one operation is served. -/
structure Faithful (d : Span) (c : Contest Unit σ) : Prop where
  /-- each decision was about what its attempt opened with -/
  calls : ∀ given answer earlier, .asked given answer :: earlier <:+ c.log →
    earlier.findSome? Deed.opened? = some given ∧ given.lock? = none
  /-- until the operation is over, the stage knows what it has to -/
  knows : (c.writers ()).served = 0 → Knows d c.seen c.log (c.writers ()).stage
  unsettled : (c.writers ()).served = 0 → ∀ r, .settled r ∉ c.log
  /-- if it settled, then with what was decided last -/
  commits : ∀ r, .settled r ∈ c.log → Commits d c.log r

theorem suffix_of_suffix_append {α : Type} {x : α} {ds log earlier : List α} (hx : x ∉ ds)
    (h : x :: earlier <:+ ds ++ log) : x :: earlier <:+ log := by
  induction ds with
  | nil => exact h
  | cons d ds ih =>
    rw [List.mem_cons, not_or] at hx
    rcases List.suffix_cons_iff.1 h with heq | hsuffix
    · exact absurd (List.cons.inj heq).1 hx.1
    · exact ih hx.2 hsuffix

variable {d : Span} {c : Contest Unit σ}

theorem faithful_start (work : Workload Unit σ) (cell : Option String) (names : Supply)
    (own : Unit → σ) : Faithful d (start work cell names own) where
  calls given answer earlier h := by simp [log, start] at h
  knows _ := trivial
  unsettled _ r h := by simp [log, start] at h
  commits r h := by simp [log, start] at h

/-- A call that neither asks for a decision nor settles only has to hand on what is known. -/
theorem Faithful.put (h : Faithful d c) (hserved : (c.writers ()).served = 0) {x : Writer σ}
    {cell : Option String} {names : Supply} {ds : List Deed}
    (hasked : ∀ given answer, .asked given answer ∉ ds) (hsettled : ∀ r, .settled r ∉ ds)
    (hknows : x.served = 0 → Knows d (Record.ofStored cell) (ds ++ c.log) x.stage) :
    Faithful d (c.put () x cell names ds) := by
  have hunsettled : ∀ r, .settled r ∉ ds ++ c.log := by
    intro r hmem
    rcases List.mem_append.1 hmem with hnew | hold
    · exact hsettled r hnew
    · exact h.unsettled hserved r hold
  constructor
  · intro given answer earlier hsuffix
    rw [log_put] at hsuffix
    exact h.calls given answer earlier (suffix_of_suffix_append (hasked given answer) hsuffix)
  · rw [writers_put_self, log_put, seen_put]
    exact hknows
  · rw [log_put]
    exact fun _ => hunsettled
  · intro r hmem
    rw [log_put] at hmem
    exact absurd hmem (hunsettled r)

/-- A call that asks for a decision has to ask about what its attempt opened with. -/
theorem Faithful.put_asked (h : Faithful d c) (hserved : (c.writers ()).served = 0) {x : Writer σ}
    {cell : Option String} {names : Supply} {given seen : Record} {answer : Outcome}
    (hgiven : c.log.findSome? Deed.opened? = some given ∧ given.lock? = none)
    (hknows : x.served = 0 →
      Knows d (Record.ofStored cell) ([.asked given answer, .reread seen] ++ c.log) x.stage) :
    Faithful d (c.put () x cell names [.asked given answer, .reread seen]) := by
  have hunsettled : ∀ r, .settled r ∉ [.asked given answer, .reread seen] ++ c.log := by
    intro r hmem
    rcases List.mem_append.1 hmem with hnew | hold
    · simp at hnew
    · exact h.unsettled hserved r hold
  constructor
  · intro given' answer' earlier hsuffix
    rw [log_put] at hsuffix
    rcases List.suffix_cons_iff.1 hsuffix with heq | hsuffix
    · cases heq
      exact hgiven
    · rcases List.suffix_cons_iff.1 hsuffix with heq | hsuffix
      · cases heq
      · exact h.calls given' answer' earlier hsuffix
  · rw [writers_put_self, log_put, seen_put]
    exact hknows
  · rw [log_put]
    exact fun _ => hunsettled
  · intro r hmem
    rw [log_put] at hmem
    exact absurd hmem (hunsettled r)

/-- When an operation settles, nothing more can happen to it. -/
theorem Faithful.put_settled (h : Faithful d c) (hserved : (c.writers ()).served = 0)
    {x : Writer σ} {cell : Option String} {names : Supply} {r : Record}
    (hx : x.served ≠ 0) (hcommits : Commits d (.settled r :: .wrote cell :: c.log) r) :
    Faithful d (c.put () x cell names [.settled r, .wrote cell]) := by
  constructor
  · intro given answer earlier hsuffix
    rw [log_put] at hsuffix
    exact h.calls given answer earlier (suffix_of_suffix_append (by simp) hsuffix)
  · rw [writers_put_self]
    exact fun hzero => absurd hzero hx
  · rw [writers_put_self]
    exact fun hzero => absurd hzero hx
  · intro r' hmem
    rw [log_put] at hmem ⊢
    rcases List.mem_cons.1 hmem with heq | hmem
    · cases heq
      exact hcommits
    · rcases List.mem_cons.1 hmem with heq | hold
      · cases heq
      · exact absurd hold (h.unsettled hserved r')

/-- A call keeps all that holds. -/
theorem faithful_call {work : Workload Unit σ} {op : Operation σ} (hqueue : work.queue () = [op])
    (h : Faithful (work.policy ()).expirationDelay c) (now : Timestamp) :
    Faithful (work.policy ()).expirationDelay (c.call work () now) := by
  have hserved : ∀ {op'}, c.current? work () = some op' → (c.writers ()).served = 0 := by
    intro op' hcurrent
    rw [current?, hqueue] at hcurrent
    simpa using (List.getElem?_eq_some_iff.1 hcurrent).1
  have hknows : ∀ {op' s}, At work c () op' s →
      Knows (work.policy ()).expirationDelay c.seen c.log s := by
    intro op' s hat
    rw [← hat.stage]
    exact h.knows (hserved hat.current)
  have hstep := step_call work c () now
  generalize c.call work () now = c' at hstep ⊢
  cases hstep with
  | idle => exact h
  | dropped hcurrent htries =>
    refine h.put (hserved hcurrent) (by simp) (by simp) ?_
    intro hzero
    simp [Writer.next] at hzero
  | gaveWay hat hlock => exact h.put (hserved hat.current) (by simp) (by simp) fun _ => trivial
  | opened hat hlock =>
    refine h.put (hserved hat.current) (by simp) (by simp) ?_
    intro _
    exact ⟨List.mem_cons_self, rfl, hlock, Record.get?_ofStored_empty c.cell⟩
  | @locked op' token base hat =>
    obtain ⟨hdrew, hbase⟩ := hknows hat
    refine h.put (hserved hat.current) (by simp) (by simp) ?_
    intro _
    refine ⟨List.mem_cons_of_mem _ hdrew, base, ⟨hbase.opened, hbase.free, hbase.plain⟩, ?_⟩
    intro _
    exact Record.ofStored_stored_withLock hbase.plain token
  | lost hat hawaited hlock =>
    exact h.put (hserved hat.current) (by simp) (by simp) fun _ => trivial
  | @consulted op' token answer w hat hlock hanswer =>
    obtain ⟨hdrew, base, hbase, hseen⟩ := hknows hat
    have hgiven : c.seen.withoutLock = base := by
      rw [hseen hlock, Record.withoutLock_withLock, Record.withoutLock_eq_self hbase.free]
    rw [hgiven]
    refine h.put_asked (hserved hat.current) ⟨hbase.opened, hbase.free⟩ ?_
    intro _
    exact ⟨List.mem_append_right _ hdrew, base, ⟨hbase.opened, hbase.free, hbase.plain⟩, rfl, hseen⟩
  | @decided op' token answer hat hlock =>
    obtain ⟨hdrew, base, hbase, hasked, hseen⟩ := hknows hat
    refine h.put (hserved hat.current) (by simp) (by simp) ?_
    intro _
    have hdecision : IsDecision ([.decided now, .reread c.seen] ++ c.log) base answer now :=
      ⟨⟨hbase.opened, hbase.free, hbase.plain⟩, hasked, rfl⟩
    have hdrew' : .drew token ∈ [.decided now, .reread c.seen] ++ c.log :=
      List.mem_append_right _ hdrew
    show Knows _ c.seen _ (Stage.carryOut token _)
    cases hresolve : answer.resolve now (work.policy ()).expirationDelay with
    | persist r => exact ⟨hdrew', base, answer, now, hdecision, hresolve⟩
    | clear => exact ⟨base, answer, now, hdecision, hresolve⟩
    | unchanged =>
      refine ⟨hdrew', base, answer, now, hdecision, ?_, by simp [hresolve]⟩
      intro hheld
      rw [Outcome.result_of_resolve_unchanged base hresolve]
      exact hseen hheld
  | @wrote op' token r hat =>
    obtain ⟨hdrew, base, answer, decidedAt, hdecision, hresolve⟩ := hknows hat
    obtain ⟨hresult, -⟩ := Outcome.result_of_resolve_persist base hresolve
    refine h.put (hserved hat.current) (by simp) (by simp) ?_
    intro _
    refine ⟨List.mem_cons_of_mem _ hdrew, base, answer, decidedAt, ?_, ?_, ?_⟩
    · exact ⟨⟨hdecision.isBase.opened, hdecision.isBase.free, hdecision.isBase.plain⟩,
        hdecision.asked, hdecision.decided⟩
    · intro _
      rw [hresult, Record.ofStored_stored, Record.erase_withLock Record.lockKey_ne_empty]
    · simp [hresolve]
  | cleared hat =>
    obtain ⟨base, answer, decidedAt, hdecision, hresolve⟩ := hknows hat
    refine h.put_settled (hserved hat.current) (Nat.succ_ne_zero _) ?_
    refine ⟨base, answer, decidedAt, none, hdecision.asked, hdecision.decided, rfl, ?_, rfl,
      fun _ => rfl⟩
    rw [Outcome.result_of_resolve_clear base hresolve]
  | @verified op' token hat hlock =>
    obtain ⟨-, base, answer, decidedAt, hdecision, hseen, hkept⟩ := hknows hat
    refine h.put (hserved hat.current) (by simp) (by simp) ?_
    intro _
    refine ⟨base, answer, decidedAt, ?_, ?_, ?_, hkept⟩
    · exact ⟨⟨hdecision.isBase.opened, hdecision.isBase.free, hdecision.isBase.plain⟩,
        hdecision.asked, hdecision.decided⟩
    · have hfree := Outcome.lock?_result hdecision.isBase.free answer decidedAt
        (work.policy ()).expirationDelay
      rw [hseen hlock, Record.withoutLock_withLock, Record.withoutLock_eq_self hfree]
    · rw [Record.get?_withoutLock (Ne.symm Record.lockKey_ne_empty)]
      exact Record.get?_ofStored_empty c.cell
  | @released op' r hat =>
    obtain ⟨base, answer, decidedAt, hdecision, hresult, hplain, hkept⟩ := hknows hat
    refine h.put_settled (hserved hat.current) (Nat.succ_ne_zero _) ?_
    refine ⟨base, answer, decidedAt, r.stored, hdecision.asked, hdecision.decided, rfl, hresult, ?_,
      fun hcleared => absurd hcleared hkept⟩
    rw [Record.ofStored_stored, Record.erase_of_get?_eq_none hplain]

/-- A text from outside keeps all that holds unless it carries a token of the operation. -/
theorem Faithful.overwrite (h : Faithful d c) {raw : Option String}
    (hforeign : ∀ token, .drew token ∈ c.log → (Record.ofStored raw).lock? ≠ some token) :
    Faithful d { c with cell := raw } where
  calls := h.calls
  unsettled := h.unsettled
  commits := h.commits
  knows hserved := by
    have hknows := h.knows hserved
    show Knows d (Record.ofStored raw) c.log (c.writers ()).stage
    cases hstage : (c.writers ()).stage with
    | confirming token =>
      rw [hstage] at hknows
      obtain ⟨hdrew, base, hbase, -⟩ := hknows
      exact ⟨hdrew, base, hbase, fun hheld => absurd hheld (hforeign token hdrew)⟩
    | rechecking token answer =>
      rw [hstage] at hknows
      obtain ⟨hdrew, base, hbase, hasked, -⟩ := hknows
      exact ⟨hdrew, base, hbase, hasked, fun hheld => absurd hheld (hforeign token hdrew)⟩
    | verifying token =>
      rw [hstage] at hknows
      obtain ⟨hdrew, base, answer, now, hdecision, -, hkept⟩ := hknows
      exact ⟨hdrew, base, answer, now, hdecision,
        fun hheld => absurd hheld (hforeign token hdrew), hkept⟩
    | _ => rw [hstage] at hknows; exact hknows

/-- No text that is put into the cell from outside carries one of these tokens. -/
def NoneCarries (moves : List (Move Unit)) (log : List Deed) : Prop :=
  ∀ raw, .overwrite raw ∈ moves → ∀ token, .drew token ∈ log →
    (Record.ofStored raw).lock? ≠ some token

theorem mem_log_run {work : Workload Unit σ} {e : Deed} (moves : List (Move Unit))
    (h : e ∈ c.log) : e ∈ (c.run work moves).log := by
  obtain ⟨entry, hmem, rfl⟩ := List.mem_map.1 h
  exact List.mem_map_of_mem ((suffix_journal_run work moves c).subset hmem)

/-- A run keeps all that holds. -/
theorem faithful_run {work : Workload Unit σ} {op : Operation σ} (hqueue : work.queue () = [op])
    (moves : List (Move Unit)) (h : Faithful (work.policy ()).expirationDelay c)
    (hforeign : NoneCarries moves (c.run work moves).log) :
    Faithful (work.policy ()).expirationDelay (c.run work moves) := by
  induction moves generalizing c with
  | nil => exact h
  | cons m moves ih =>
    rw [run_cons] at hforeign ⊢
    refine ih ?_ fun raw hmem => hforeign raw (List.mem_cons_of_mem m hmem)
    cases m with
    | call i now => exact faithful_call hqueue h now
    | overwrite raw =>
      refine h.overwrite ?_
      intro token hdrew
      exact hforeign raw List.mem_cons_self token (mem_log_run moves hdrew)

/-- Whatever others put into the cell, each decision of an operation is about the record that its
own attempt read first, and that record has no lock. If the operation settles, then with the result
of the decision that was asked for last, reckoned from the moment at which it was taken up; its last
write left that record in the cell, and nothing if the record was to be removed. -/
theorem settled_of_last_decision (work : Workload Unit σ) (op : Operation σ)
    (hqueue : work.queue () = [op]) (cell : Option String) (names : Supply) (own : Unit → σ)
    (moves : List (Move Unit))
    (hforeign : NoneCarries moves ((start work cell names own).run work moves).log) :
    (∀ given answer earlier,
      .asked given answer :: earlier <:+ ((start work cell names own).run work moves).log →
        earlier.findSome? Deed.opened? = some given ∧ given.lock? = none) ∧
    (∀ r, .settled r ∈ ((start work cell names own).run work moves).log →
      Commits (work.policy ()).expirationDelay ((start work cell names own).run work moves).log r) := by
  have h := faithful_run hqueue moves (faithful_start work cell names own) hforeign
  exact ⟨h.calls, h.commits⟩

/-- One writer that puts a word under a key and may try twice. -/
def interrupted : Workload Unit Unit where
  policy _ := ⟨.ofMillis 10, 2, .ofMillis 900⟩
  queue _ := [.ofTransform fun _ r own => (.persist (r.set "v" "B"), own)]

/-- Another word is put into the cell right after the writer has written its token there. -/
def interruption : List (Move Unit) :=
  [.call () .epoch, .call () .epoch, .overwrite (some "w=A")] ++ List.replicate 8 (.call () .epoch)

/-- The interrupted writer begins anew and keeps the word that it finds. -/
theorem settled_after_interruption :
    NoneCarries interruption
        ((start interrupted none (.identifiers 0) fun _ => ()).run interrupted interruption).log ∧
      Commits (.ofMillis 900)
        ((start interrupted none (.identifiers 0) fun _ => ()).run interrupted interruption).log
        (Record.ofList [("expire", "900"), ("v", "B"), ("w", "A")]) := by
  have hforeign : NoneCarries interruption
      ((start interrupted none (.identifiers 0) fun _ => ()).run interrupted interruption).log := by
    intro raw hmem token _
    have hraw : raw = some "w=A" := by simpa [interruption] using hmem
    have hfree : (Record.ofStored (some "w=A")).lock? = none := by decide +kernel
    rw [hraw, hfree]
    exact fun heq => nomatch heq
  refine ⟨hforeign, ?_⟩
  exact (settled_of_last_decision interrupted _ rfl none (.identifiers 0) (fun _ => ())
    interruption hforeign).2 _ (by decide +kernel)

end Contest

end SharedSession
