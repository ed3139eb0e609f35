import SharedSession.Record.Blob
import SharedSession.Storage.Error

set_option autoImplicit false

/-!
# Paths as texts

A path is a text of names between slashes. What can be said of it without a look at any file
system is here: which of its names lead somewhere, which path lies above it, whether it ends in a
name that can be created or replaced, and whether a file system takes its text at all.
-/

namespace SharedSession

/-- The text of a path and its parts. -/
structure PathText where
  isAbsolute : Bool
  /-- the names between the slashes, as they are written, behind the slash of the root -/
  names : List String
deriving DecidableEq, Repr, Inhabited

namespace PathText

/-- Splits a path at its slashes. -/
def ofString (s : String) : PathText :=
  match s.toList with
  | '/' :: cs => ⟨true, (Text.pieces '/' cs).map String.ofList⟩
  | cs => ⟨false, (Text.pieces '/' cs).map String.ofList⟩

/-- The text of a path. -/
def text (p : PathText) : String :=
  (if p.isAbsolute then "/" else "") ++ "/".intercalate p.names

/-! ## Names -/

/-- An empty name and a single dot stay where they are. -/
def isIdle (name : String) : Bool := name == "" || name == "."

/-- Whether a name behind others, which are given last first, is a part of the path. Idle names
are none, but for a dot in front of a relative path. -/
def counts (isAbsolute : Bool) (name : String) (before : List String) : Bool :=
  !isIdle name || (name == "." && before.isEmpty && !isAbsolute)

/-- Names, last first, from the last one that is a part of the path. -/
def dropIdle (isAbsolute : Bool) : List String → List String
  | [] => []
  | name :: before =>
    if counts isAbsolute name before then name :: before else dropIdle isAbsolute before

/-- The path above, as it is written. The root and the empty path have none. -/
def parent? (p : PathText) : Option PathText :=
  match dropIdle p.isAbsolute p.names.reverse with
  | [] => none
  | _ :: before => some ⟨p.isAbsolute, (dropIdle p.isAbsolute before).reverse⟩

/-- The path without slashes at its end. -/
def withoutSlashes (p : PathText) : PathText :=
  { p with names := (p.names.reverse.dropWhile (· == "")).reverse }

/-- Whether the path ends with a slash behind a name. -/
def endsWithSlash (p : PathText) : Bool :=
  p.names.getLast? == some "" && p.names.any (· != "")

/-- Whether the path ends in a name that can be created, replaced or removed. -/
def endsInName (p : PathText) : Bool :=
  match p.withoutSlashes.names.getLast? with
  | some name => name != "." && name != ".."
  | none => false

/-! ## Limits -/

/-- The longest name that a file system takes, in bytes. -/
def maxNameBytes : Nat := 255

/-- The longest path that a file system takes, in bytes. -/
def maxBytes : Nat := 4095

/-- Whether a null character stands in the path. -/
def hasNull (p : PathText) : Bool := p.names.any fun n => n.toList.contains (Char.ofNat 0)

/-- Refuses a path that a file system does not look at: one with a null character, the empty one,
and one that is too long. -/
def check (p : PathText) : Except IoKind Unit :=
  if p.hasNull then .error .invalidInput
  else if p.text = "" then .error .notFound
  else if maxBytes < p.text.utf8ByteSize then .error .invalidFilename
  else .ok ()

end PathText

/-- A name or a path below a directory; an absolute one stands for itself. -/
def joinPath (dir path : String) : String :=
  if path.toList.head? == some '/' then path
  else if dir = "" ∨ dir.toList.getLast? == some '/' then dir ++ path
  else dir ++ "/" ++ path

end SharedSession
