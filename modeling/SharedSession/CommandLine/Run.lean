import SharedSession.CommandLine.Arguments
import SharedSession.CommandLine.Expire
import SharedSession.CommandLine.Watch

set_option autoImplicit false

/-!
# Commands

A command line is carried out over a file system and leaves another one, a text for the output and
an exit code: 0, or 1 for a failure that is reported, or 2 for arguments that do not fit.
-/

namespace SharedSession.CommandLine

/-- What a command finds where it runs. -/
structure Environment where
  /-- the user's home, if it is known -/
  home : Option String
  now : Timestamp
  names : Supply
  /-- the random numbers for samples, from zero up to but not including one -/
  draws : Nat → Float

/-- What a command leaves. -/
structure Finish where
  code : UInt8
  output : String
  /-- what is reported apart from the output -/
  complaint : String
  disk : Disk

namespace Finish

/-- The end of a command that succeeded. -/
def success (lines : List String) (disk : Disk) : Finish :=
  ⟨0, String.join (lines.map (· ++ "\n")), "", disk⟩

/-- The end of a command that failed. -/
def failure (complaint : String) (disk : Disk) : Finish := ⟨1, "", complaint, disk⟩

/-- The end of a command line that asks for no work. -/
def refusal (r : Refusal) (disk : Disk) : Finish :=
  match r with
  | .help => ⟨0, r.message ++ "\n", "", disk⟩
  | .version => ⟨0, r.message ++ "\n", "", disk⟩
  | r => ⟨2, "", r.message, disk⟩

end Finish

/-- The lines of a text. -/
def linesOf (text : String) : List String :=
  let pieces := Text.pieces '\n' text.toList
  (if pieces.getLast? = some [] then pieces.dropLast else pieces).map String.ofList

/-- The settings of a command: those in the named file or in the usual one. -/
def settings (env : Environment) (config : Option String) (disk : Disk) :
    Except ConfigError Config := do
  let path ← match config with
    | some path => .ok path
    | none => belowHome configPath env.home
  Config.load disk path

/-- The settings with another session file. -/
def withStore (store : Option String) (c : Config) : Config :=
  match store with
  | some path => { c with storage := .file (some path) }
  | none => c

/-- The end of a removal, which is reported as done or was dropped. -/
def removed (force isDone : Bool) (disk : Disk) : Finish :=
  if isDone then .success [removalLine force] disk else .failure droppedLine disk

/-- Prints the stored session. -/
def inspect (env : Environment) (c : Config) (m : Medium Stores) (disk : Disk) : Finish :=
  let (r, stores) := m.load ⟨disk, none⟩
  .success [(Report.ofRecord r env.now c.timeOutDelay).render] stores.disk

/-- Removes the stored session, past the lock if that is asked for. -/
def remove (env : Environment) (c : Config) (storage : Medium Stores × Backing Stores)
    (force : Bool) (disk : Disk) : Finish :=
  let (isDone, stores) :=
    if force then forceExpire storage.1 ⟨disk, none⟩
    else expire storage.1 storage.2 c.lockPolicy env.now env.names ⟨disk, none⟩
  removed force isDone stores.disk

/-- Starts a product that is driven by lines. -/
def startWatch (env : Environment) (c : Config) (storage : Medium Stores × Backing Stores)
    (product : String) (rate : Float) (disk : Disk) : Watch :=
  .start storage c product (fun n prior => Decision.sampled rate (env.draws n) prior)
    (.new env.now ⟨disk, none⟩ env.names)

/-- Drives a product by the lines of the input. -/
def watch (env : Environment) (c : Config) (storage : Medium Stores × Backing Stores)
    (product : String) (rate : Float) (input : String) (disk : Disk) : Finish :=
  let w := startWatch env c storage product rate disk
  let (printed, last) := w.run (linesOf input)
  .success (w.status :: printed) last.browser.world.medium.disk

/-- The session file that a command names. -/
def Command.store : Command → Option String
  | .inspect store => store
  | .expire store _ => store
  | .watch _ _ store => store

/-- Carries out a command. -/
def perform (env : Environment) (c : Config) (storage : Medium Stores × Backing Stores)
    (input : String) (disk : Disk) : Command → Finish
  | .inspect _ => inspect env c storage.1 disk
  | .expire _ force => remove env c storage force disk
  | .watch product rate _ => watch env c storage product rate input disk

/-- The settings and the storage that a command works with. -/
def prepare (env : Environment) (x : Invocation) (disk : Disk) :
    Except ConfigError (Config × (Medium Stores × Backing Stores)) := do
  let c := withStore x.command.store (← settings env x.config disk)
  return (c, ← c.storage.openIn env.home)

/-- Carries out a command line. -/
def run (env : Environment) (args : List String) (input : String) (disk : Disk) : Finish :=
  match readArguments args with
  | .error r => .refusal r disk
  | .ok x =>
    match prepare env x disk with
    | .error e => .failure e.message disk
    | .ok (c, storage) => perform env c storage input disk x.command

end SharedSession.CommandLine
