import SharedSession.Config.Document
import SharedSession.Storage.File

set_option autoImplicit false

/-!
# Where settings and sessions are kept

Both have their usual place in one directory below the user's home. A missing settings file means
the defaults; any other failure to read it is reported. The storage that settings choose is opened
over the media that a process has: the file system, and a cell of memory of its own.
-/

namespace SharedSession

/-! ## Usual places -/

/-- The directory below a home in which everything is kept. -/
def stateDir (home : String) : String := joinPath home ".tabsync"

/-- The path of the settings file below a home. -/
def configPath (home : String) : String := joinPath (stateDir home) "config.toml"

/-- A place below the home, if there is one. -/
def belowHome (place : String → String) : Option String → Except ConfigError String
  | some home => .ok (place home)
  | none => .error .homeNotFound

/-! ## Settings from a file -/

namespace Config

/-- Reads and checks the settings in a text that was found under a path. -/
def ofFile (path text : String) : Except ConfigError Config :=
  match ofText text >>= checked with
  | .ok c => .ok c
  | .error fault => .error (.malformed path fault.details)

/-- The settings in the file under a path. -/
def load (d : Disk) (path : String) : Except ConfigError Config :=
  match d.readText path with
  | .ok text => ofFile path text
  | .error .notFound => .ok Config.default
  | .error kind => .error (.unreadable path ⟨kind, ""⟩)

end Config

/-! ## Media of a process -/

/-- What a process can store in. -/
structure Stores where
  /-- the file system, which others may share -/
  disk : Disk
  /-- a cell of the process's own memory -/
  memory : Option String
deriving Inhabited

namespace Medium

/-- A medium on the file system, as one of a process. -/
def onDisk (m : Medium Disk) : Medium Stores where
  locking := m.locking
  retrieve s := let (answer, disk) := m.retrieve s.disk; (answer, { s with disk })
  persist raw s := let (answer, disk) := m.persist raw s.disk; (answer, { s with disk })
  clear s := let (answer, disk) := m.clear s.disk; (answer, { s with disk })

/-- A medium in memory, as one of a process. -/
def inMemory (m : Medium (Option String)) : Medium Stores where
  locking := m.locking
  retrieve s := let (answer, memory) := m.retrieve s.memory; (answer, { s with memory })
  persist raw s := let (answer, memory) := m.persist raw s.memory; (answer, { s with memory })
  clear s := let (answer, memory) := m.clear s.memory; (answer, { s with memory })

end Medium

namespace Backing

/-- What stands behind a medium on the file system. -/
def onDisk (b : Backing Disk) : Backing Stores :=
  ⟨fun s => b.peek s.disk, fun raw s => { s with disk := b.overwrite raw s.disk }⟩

/-- What stands behind a medium in memory. -/
def inMemory (b : Backing (Option String)) : Backing Stores :=
  ⟨fun s => b.peek s.memory, fun raw s => { s with memory := b.overwrite raw s.memory }⟩

end Backing

namespace StorageChoice

/-- The path of a chosen file: the given one or the usual one. -/
def filePath (home path : Option String) : Except ConfigError String :=
  match path with
  | some path => .ok path
  | none => belowHome (fun home => sessionFileIn (stateDir home)) home

/-- Opens the chosen storage. -/
def openIn (home : Option String) :
    StorageChoice → Except ConfigError (Medium Stores × Backing Stores)
  | .file path =>
    (filePath home path).map fun path => ((Medium.file path).onDisk, (Backing.file path).onDisk)
  | .memory locking => .ok ((Medium.memory locking).inMemory, Backing.memory.inMemory)

end StorageChoice

end SharedSession
