import SharedSession.Storage.Medium

set_option autoImplicit false

/-!
# Scripted media

A cell of memory whose calls go as a script says: a call may fail, a read may see something else
than what is stored, and another writer may change the cell right behind a call. The calls are
recorded in a trace. Past the end of its script a call goes as it ordinarily does.
-/

namespace SharedSession

/-- How a read goes. -/
structure ReadEvent where
  fails : Bool
  /-- what it sees in place of what is stored -/
  observed : Option (Option String)
  /-- what another writer leaves behind it -/
  left : Option (Option String)
deriving DecidableEq, Repr

/-- How storing or removing goes. -/
structure WriteEvent where
  /-- whether it fails and changes nothing -/
  fails : Bool
  /-- what another writer leaves behind it -/
  left : Option (Option String)
deriving DecidableEq, Repr

/-- A read that goes as it ordinarily does. -/
def ReadEvent.ordinary : ReadEvent := ⟨false, none, none⟩

/-- A write that goes as it ordinarily does. -/
def WriteEvent.ordinary : WriteEvent := ⟨false, none⟩

/-- A call on a medium, as a trace records it. -/
inductive Call where
  /-- a read and what it answered -/
  | read (answer : Except StorageError (Option String))
  | write (text : String)
  | clear

/-- A cell, what is to happen to it, and what has happened. -/
structure Script where
  cell : Option String
  /-- how the coming reads go -/
  reads : List ReadEvent
  /-- how the coming writes and removals go -/
  writes : List WriteEvent
  /-- the calls up to now, latest first -/
  trace : List Call

namespace Script

/-- How the next read goes. -/
def nextRead (s : Script) : ReadEvent := s.reads.headD .ordinary

/-- How the next write goes. -/
def nextWrite (s : Script) : WriteEvent := s.writes.headD .ordinary

/-- Reads the cell. -/
def retrieve (s : Script) : Except StorageError (Option String) × Script :=
  let e := s.nextRead
  let answer := if e.fails then .error Medium.injected else .ok (e.observed.getD s.cell)
  (answer, { s with
    cell := e.left.getD s.cell, reads := s.reads.tail, trace := .read answer :: s.trace })

/-- Stores or removes the text, which is recorded as `call`. -/
def change (call : Call) (content : Option String) (s : Script) :
    Except StorageError Unit × Script :=
  let e := s.nextWrite
  let s := { s with writes := s.writes.tail, trace := call :: s.trace }
  if e.fails then (.error Medium.injected, s) else (.ok (), { s with cell := e.left.getD content })

end Script

/-- The scripted cell as a medium. -/
def Medium.scripted (locking : Bool) : Medium Script where
  locking := locking
  retrieve s := s.retrieve
  persist raw s := s.change (.write raw) (some raw)
  clear s := s.change .clear none

/-- The cell behind the script. -/
def Backing.scripted : Backing Script := ⟨fun s => s.cell, fun raw s => { s with cell := raw }⟩

end SharedSession
