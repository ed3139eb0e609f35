import Std.Time.DateTime.Timestamp
import SharedSession.CommandLine.Run

set_option autoImplicit false

/-!
# The program

The outer layer of the command line: arguments, standard input and output, the clock and the file
system. What is decided is decided in `SharedSession.CommandLine`; here the files that a command
needs are looked up before each of its steps, and what the step changed is carried out behind it.
-/

namespace SharedSession.Terminal

open SharedSession.CommandLine

/-! ## The surroundings -/

/-- The present moment. -/
def present : IO Timestamp := do
  return .clamp (← Std.Time.Timestamp.now).toMillisecondsSinceUnixEpoch.toInt

/-- A range of numbers from which random identifiers start. -/
def seedLimit : Nat := Nat.pow 2 112

/-- The number of different draws for samples. -/
def drawLimit : Nat := 1000000

/-- The step from one draw to the next. -/
def drawStep : Nat := 618033

/-- What a command finds. -/
def surroundings : IO Environment := do
  let home ← IO.getEnv "HOME"
  let seed ← IO.rand 0 seedLimit
  let draw ← IO.rand 0 (drawLimit - 1)
  return { home := home.filter (· ≠ ""), now := ← present, names := .identifiers (seed * 256)
           draws := fun n => ((draw + n * drawStep) % drawLimit).toFloat / drawLimit.toFloat }

/-! ## Files -/

/-- What stands at a place. The entries of a directory are left out. -/
def look (place : Place) : IO (Option Node) := do
  let path := PathText.text ⟨true, place⟩
  try
    if ← (← IO.FS.realPath path).isDir then return some (.directory [])
    return some (.file (← IO.FS.readBinFile path).toList)
  catch _ => return none

/-- Notes what stands under a path and on the way to it. -/
def note (disk : Disk) (path : String) : IO Disk := do
  let text := PathText.ofString path
  let mut disk := disk
  let mut place := if text.isAbsolute then [] else disk.cwd
  for name in text.names do
    if name = ".." then place := place.dropLast
    else if !PathText.isIdle name then
      place := place ++ [name]
      disk := match ← look place with
        | some (.directory _) => disk.keepDirectory place
        | some node => disk.put place node
        | none => disk.remove place
  return disk

/-- The part of the file system that the paths lead through. -/
def glimpse (paths : List String) : IO Disk := do
  let cwd := (PathText.ofString (← IO.currentDir).toString).names.filter (· ≠ "")
  let ways := (List.range cwd.length).map fun n => cwd.take (n + 1)
  paths.foldlM note (ways.foldl (·.keepDirectory ·) ⟨cwd, .directory []⟩)

/-- Carries out what was changed under a path and on the way to it. -/
def carryOut (path : String) (before after : Disk) : IO Unit := do
  let text := PathText.ofString path
  for n in List.range text.names.length do
    let way : PathText := ⟨text.isAbsolute, text.names.take n⟩
    if after.isDirectory way && !before.isDirectory way then IO.FS.createDirAll way.text
  match before.read path, after.read path with
  | .ok _, .error _ => IO.FS.removeFile path
  | old, .ok content =>
    let isSame := match old with
      | .ok held => held == content
      | .error _ => false
    if !isSame then
      let draft := path ++ ".new"
      IO.FS.writeBinFile draft ⟨content.toArray⟩
      IO.FS.rename draft path
  | .error _, .error _ => pure ()

/-- Lets a step work on the file, if there is one, and carries out what it changed. -/
def withFile {α : Type} (path : Option String) (step : Disk → α × Disk) : IO α := do
  let before ← glimpse path.toList
  let (a, after) := step before
  if let some path := path then carryOut path before after
  return a

/-! ## Commands -/

/-- Prints what a command leaves and gives its exit code. -/
def finish (x : Finish) : IO UInt32 := do
  IO.print x.output
  if x.complaint ≠ "" then IO.eprintln x.complaint
  return x.code.toUInt32

/-- Prints lines at once. -/
def say (lines : List String) : IO Unit := do
  lines.forM IO.println
  (← IO.getStdout).flush

/-- Makes the calls of one attempt to remove the session, each on the file as it is then. -/
partial def attempt (path : Option String) (c : Config) (m : Medium Stores) (stage : Stage)
    (w : World Stores Unit) : IO (Stage × World Stores Unit) := do
  if stage.isFinal then return (stage, w)
  let now ← present
  let (stage, w) ← withFile path fun disk =>
    let (stage, w) :=
      stage.step m removal c.expirationDelay now { w with medium := { w.medium with disk } }
    ((stage, w), w.medium.disk)
  attempt path c m stage w

/-- The longest single sleep, in milliseconds. -/
def longestSleep : Nat := 4294967295

/-- Tries so often to remove the session, with pauses between. -/
def expireUnderLock (path : Option String) (c : Config) (m : Medium Stores) :
    Nat → World Stores Unit → IO Bool
  | 0, _ => return false
  | tries + 1, w => do
    match ← attempt path c m .opening w with
    | (.settled _, _) => return true
    | (_, w) =>
      IO.sleep (min c.lockRetryDelay.waitTicks longestSleep).toUInt32
      expireUnderLock path c m tries w

/-- The longest time between two looks at the input, in milliseconds. -/
def heartbeat : UInt32 := 10

/-- Drives a product by the lines that come, and lets its timers run meanwhile. -/
partial def drive (path : Option String) (origin : Timestamp) (input : IO.FS.Stream)
    (line : Task (Except IO.Error String)) (w : Watch) : IO Unit := do
  let passed := ((← present).millis - origin.millis).toNat - w.browser.timeline.tick
  let step (f : Watch → List String × Watch) : IO Watch := do
    let (lines, w) ← withFile path fun disk =>
      let w := { w with browser := w.browser.modifyMedium fun s => { s with disk } }
      let (lines, w) := f (w.act (.advance passed))
      ((lines, w), w.browser.world.medium.disk)
    say lines
    return w
  if ← IO.hasFinished line then
    let text ← IO.ofExcept line.get
    let order := Order.ofLine? text
    let w ← step fun w => match order with
      | some order => w.obey order
      | none => w.tell []
    if text ≠ "" && order != some .quit then
      drive path origin input (← IO.asTask input.getLine) w
  else
    let isDue : Bool := match w.browser.due? with
      | some tick => decide (tick ≤ w.browser.timeline.tick + passed)
      | none => false
    let w ← if isDue then step fun w => w.tell [] else pure w
    IO.sleep heartbeat
    drive path origin input line w

/-- Carries out a command line. -/
def run (args : List String) : IO UInt32 := do
  let env ← surroundings
  match readArguments args with
  | .error r => finish (.refusal r .empty)
  | .ok x =>
    let disk ← glimpse (x.config.or (env.home.map configPath)).toList
    match prepare env x disk with
    | .error e => finish (.failure e.message disk)
    | .ok (c, storage) =>
      let path := match c.storage with
        | .file path => (StorageChoice.filePath env.home path).toOption
        | .memory _ => none
      match x.command with
      | .expire _ false =>
        let tries := c.lockMaxTries.toNat
        let w : World Stores Unit := ⟨⟨disk, none⟩, (), env.names⟩
        let isDone ← if storage.1.locking then expireUnderLock path c storage.1 tries w
          else pure true
        finish (removed false isDone disk)
      | .watch product rate _ =>
        let w ← withFile path fun disk =>
          let w := startWatch env c storage product rate disk
          (w, w.browser.world.medium.disk)
        say [w.status]
        let input ← IO.getStdin
        drive path env.now input (← IO.asTask input.getLine) w
        return 0
      | command =>
        let x ← withFile path fun disk =>
          let x := perform env c storage "" disk command
          (x, x.disk)
        finish x

end SharedSession.Terminal

/-- Runs the command line. -/
def main (args : List String) : IO UInt32 := SharedSession.Terminal.run args
