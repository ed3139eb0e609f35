import SharedSession.Storage.Disk
import SharedSession.Storage.Medium
import SharedSession.Text.Blank

set_option autoImplicit false

/-!
# A file as a medium

The shared text is the content of one file. Any number of writers may share it, so it is always
written under the lock protocol. White space around the text is not part of it, and a blank file
holds nothing. Storing makes the directories on the way, writes a draft beside the file and puts it
in place in one step; removing what is not there succeeds.
-/

namespace SharedSession

/-- The name of the file that holds the session in a directory. -/
def sessionFileName : String := "_tabsync_s"

/-- The path of the session's file in a directory. -/
def sessionFileIn (dir : String) : String := joinPath dir sessionFileName

namespace Medium

/-- The failure of a step on the file system. -/
def ioError (step : String) (kind : IoKind) : StorageError := .io step ⟨kind, ""⟩

/-- What a file with the given text holds. -/
def contentOf (text : String) : Option String :=
  let trimmed := Text.trim text
  if trimmed = "" then none else some trimmed

/-- Reads the text in a file. -/
def readFile (path : String) (d : Disk) : Except StorageError (Option String) :=
  match d.readText path with
  | .ok text => .ok (contentOf text)
  | .error .notFound => .ok none
  | .error kind => .error (ioError "read session file" kind)

/-- Puts a text into a file, whose directory is made if it is missing. -/
def writeFile (path raw : String) (d : Disk) : Except StorageError Unit × Disk :=
  match (PathText.ofString path).parent? with
  | none => (.error (.unavailable ("session file has no parent directory: " ++ path)), d)
  | some dir =>
    match Disk.makeWay dir.isAbsolute dir.names.reverse d with
    | (.error kind, d) => (.error (ioError "create session directory" kind), d)
    | (.ok (), d) =>
      match d.checkDraft dir with
      | .error kind => (.error (ioError "create temp session file" kind), d)
      | .ok () =>
        match d.replace path (Utf8.bytes raw) with
        | .error kind => (.error (ioError "commit session file" kind), d)
        | .ok d => (.ok (), d)

/-- Takes a file away if it is there. -/
def dropFile (path : String) (d : Disk) : Except StorageError Unit × Disk :=
  match d.removeFile path with
  | .ok d => (.ok (), d)
  | .error .notFound => (.ok (), d)
  | .error kind => (.error (ioError "remove session file" kind), d)

/-- The file with the given path. -/
def file (path : String) : Medium Disk where
  locking := true
  retrieve d := (readFile path d, d)
  persist raw d := writeFile path raw d
  clear d := dropFile path d

end Medium

/-- The bytes of the file itself, shown as text. -/
def Backing.file (path : String) : Backing Disk where
  peek d := match d.read path with
    | .ok bytes => some (Utf8.lossy bytes)
    | .error _ => none
  overwrite raw d := match raw with
    | some text => (Medium.writeFile path text d).2
    | none => (Medium.dropFile path d).2

end SharedSession
