import SharedSession.Lock.Operation
import SharedSession.Proofs.Storage.Cell

set_option autoImplicit false

/-!
# Media that nobody else writes

A medium keeps a record if what it shows is what was stored last: nobody else writes to it, and
storing and removing succeed. A read may fail, but one that does not shows the record that is kept.
Cells of memory are such media, those among them whose reads fail now and then included.
-/

namespace SharedSession

variable {μ σ : Type}

/-- A medium keeps the record that `view` finds in its state. -/
structure Medium.Keeps (m : Medium μ) (view : μ → Record) : Prop where
  ofStored_eq : ∀ {s : μ} {content : Option String},
    (m.retrieve s).1 = .ok content → Record.ofStored content = view s
  view_retrieve : ∀ s : μ, view (m.retrieve s).2 = view s
  view_save : ∀ (r : Record) (s : μ), view (m.save r s) = r.erase ""
  view_wipe : ∀ s : μ, view (m.wipe s) = ∅

/-- Reading does not fail in a state of the medium. -/
def Medium.CanRead (m : Medium μ) (s : μ) : Prop := ∃ content, (m.retrieve s).1 = .ok content

namespace Medium.Keeps

variable {m : Medium μ} {view : μ → Record}

theorem load_eq (h : m.Keeps view) {s : μ} (hread : m.CanRead s) : (m.load s).1 = view s := by
  obtain ⟨content, hanswer⟩ := hread
  show recordOf (m.retrieve s).1 = view s
  rw [hanswer]
  exact h.ofStored_eq hanswer

theorem view_load (h : m.Keeps view) (s : μ) : view (m.load s).2 = view s := h.view_retrieve s

theorem view_load_world (h : m.Keeps view) (w : World μ σ) :
    view (w.load m).2.medium = view w.medium := h.view_load w.medium

theorem view_save_world (h : m.Keeps view) (r : Record) (w : World μ σ) :
    view (w.save m r).medium = r.erase "" := h.view_save r w.medium

theorem view_save_withLock (h : m.Keeps view) (r : Record) (token : String) (w : World μ σ) :
    view (w.save m (r.withLock token)).medium = (r.erase "").withLock token := by
  rw [h.view_save_world, Record.erase_withLock Record.lockKey_ne_empty]

theorem view_wipe_world (h : m.Keeps view) (w : World μ σ) : view (w.wipe m).medium = ∅ :=
  h.view_wipe w.medium

theorem lock?_view_save (h : m.Keeps view) (r : Record) (w : World μ σ) :
    (view (w.save m r).medium).lock? = r.lock? := by
  rw [h.view_save_world, Record.lock?, Record.get?_erase, if_neg (Ne.symm Record.lockKey_ne_empty)]
  rfl

end Medium.Keeps

/-- A medium that keeps a record and can always be read. -/
structure Medium.IsReliable (m : Medium μ) (view : μ → Record) : Prop extends m.Keeps view where
  canRead : ∀ s : μ, m.CanRead s

namespace Medium.IsReliable

variable {m : Medium μ} {view : μ → Record}

/-- Reading shows the record that is kept and leaves everything as it is. -/
theorem load_world (h : m.IsReliable view) (w : World μ σ) :
    ∃ v : World μ σ, w.load m = (view w.medium, v) ∧ view v.medium = view w.medium
      ∧ v.own = w.own ∧ v.names = w.names := by
  refine ⟨(w.load m).2, ?_, h.view_load_world w, rfl, rfl⟩
  exact Prod.ext (h.load_eq (h.canRead w.medium)) rfl

/-- What is shown has nothing under the empty key. -/
theorem get?_view_empty (h : m.IsReliable view) (s : μ) : (view s).get? "" = none := by
  obtain ⟨content, hanswer⟩ := h.canRead s
  rw [← h.ofStored_eq hanswer]
  exact Record.get?_ofStored_empty content

end Medium.IsReliable

/-! ## Cells of memory -/

namespace Medium

theorem memory_keeps (locking : Bool) : (memory locking).Keeps Record.ofStored where
  ofStored_eq h := by
    cases h
    rfl
  view_retrieve _ := rfl
  view_save r _ := by
    rw [save_memory]
    exact Record.ofStored_stored r
  view_wipe _ := rfl

theorem memory_isReliable (locking : Bool) : (memory locking).IsReliable Record.ofStored where
  toKeeps := memory_keeps locking
  canRead cell := ⟨cell, rfl⟩

/-- A cell of memory whose reads go as a list says, each of which fails or not. Past the end of the
list they succeed. -/
def flaky (locking : Bool) : Medium (List Bool × Option String) where
  locking := locking
  retrieve s := (if s.1.headD false then .error injected else .ok s.2, (s.1.tail, s.2))
  persist raw s := (.ok (), (s.1, some raw))
  clear s := (.ok (), (s.1, none))

theorem flaky_keeps (locking : Bool) : (flaky locking).Keeps fun s => Record.ofStored s.2 where
  ofStored_eq {s content} h := by
    have hanswer : (if s.1.headD false then .error injected else .ok s.2)
        = (.ok content : Except StorageError (Option String)) := h
    split at hanswer
    · cases hanswer
    · cases hanswer
      rfl
  view_retrieve _ := rfl
  view_save r s := by
    have hsave : ((flaky locking).save r s).2 = r.stored := by
      unfold save Record.stored
      split <;> rfl
    rw [hsave]
    exact Record.ofStored_stored r
  view_wipe _ := rfl

end Medium

end SharedSession
