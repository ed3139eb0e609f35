import SharedSession.Record.Blob
import SharedSession.Storage.Error

set_option autoImplicit false

/-!
# Storage media

A medium keeps one text, the shared text of a session, or nothing. It offers three calls, each of
which can fail, and no way to join two of them: between any two calls another writer may have
changed the text. A medium says whether several writers share it, in which case writing goes
through the lock protocol.

`Medium.load`, `Medium.save` and `Medium.wipe` are the view of it that the rest of the library
uses. They speak of records and absorb failures: a failed read is a session without entries, a
failed write is no write.
-/

namespace SharedSession

/-- The calls of a storage medium whose content is a state of type `μ`. -/
structure Medium (μ : Type) where
  /-- whether several writers share the medium -/
  locking : Bool
  /-- the stored text, if there is one -/
  retrieve : μ → Except StorageError (Option String) × μ
  /-- stores a text in place of what is there -/
  persist : String → μ → Except StorageError Unit × μ
  /-- removes the stored text -/
  clear : μ → Except StorageError Unit × μ

namespace Medium

variable {μ : Type}

/-- The record that an answer of `retrieve` stands for. -/
def recordOf : Except StorageError (Option String) → Record
  | .ok (some raw) => Record.decode raw
  | .ok none => ∅
  | .error _ => ∅

/-- Reads the session; what cannot be read is no session. -/
def load (m : Medium μ) (s : μ) : Record × μ :=
  let (answer, s) := m.retrieve s
  (recordOf answer, s)

/-- Removes the session if that is possible. -/
def wipe (m : Medium μ) (s : μ) : μ := (m.clear s).2

/-- Stores a session if that is possible; one without entries is removed instead. -/
def save (m : Medium μ) (r : Record) (s : μ) : μ :=
  if r.isEmpty then m.wipe s else (m.persist r.encode s).2

end Medium

/-- What really stands behind a medium, whatever its calls answer. -/
structure Backing (μ : Type) where
  peek : μ → Option String
  /-- puts a text, or nothing, in the place of the stored one -/
  overwrite : Option String → μ → μ

/-! ## Memory -/

namespace Medium

/-- A cell of memory, which never fails. -/
def memory (locking : Bool) : Medium (Option String) where
  locking := locking
  retrieve cell := (.ok cell, cell)
  persist raw _ := (.ok (), some raw)
  clear _ := (.ok (), none)

theorem save_memory (locking : Bool) (r : Record) (cell : Option String) :
    (memory locking).save r cell = if r.isEmpty then none else some r.encode := rfl

end Medium

/-- The cell of a memory medium as it is. -/
def Backing.memory : Backing (Option String) := ⟨fun cell => cell, fun raw _ => raw⟩

/-! ## Faults -/

/-- Which calls of a medium fail at present. -/
structure Faults where
  read : Bool
  write : Bool
  clear : Bool
deriving DecidableEq, Repr, Inhabited

namespace Medium

variable {μ : Type}

/-- The failure of a call that is made to fail. -/
def injected : StorageError := .unavailable "injected"

/-- The same medium, some of whose calls fail and change nothing. -/
def faulty (m : Medium μ) : Medium (Faults × μ) where
  locking := m.locking
  retrieve s :=
    if s.1.read then (.error injected, s)
    else let (answer, t) := m.retrieve s.2; (answer, (s.1, t))
  persist raw s :=
    if s.1.write then (.error injected, s)
    else let (answer, t) := m.persist raw s.2; (answer, (s.1, t))
  clear s :=
    if s.1.clear then (.error injected, s)
    else let (answer, t) := m.clear s.2; (answer, (s.1, t))

end Medium

/-- Faults hide nothing of what is really stored. -/
def Backing.faulty {μ : Type} (b : Backing μ) : Backing (Faults × μ) :=
  ⟨fun s => b.peek s.2, fun raw s => (s.1, b.overwrite raw s.2)⟩

end SharedSession
