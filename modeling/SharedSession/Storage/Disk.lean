import SharedSession.Storage.Path

set_option autoImplicit false

/-!
# A small file system

A tree of files and directories, with a working directory. A path is walked name by name: each
step asks for a directory to step from, `..` leads back to the directory's parent, and a slash at
the end asks for a directory too. The operations refuse with the kind of error that a Unix file
system gives.

`Node.reach` finds what a place leads to, and `Node.update` changes it. A file system is only ever
looked at through the one and changed through the other. Main statement:
`Node.reach_update_self`, what is put at a place is found there.
-/

namespace SharedSession

/-! ## The tree -/

/-- What stands under a name. -/
inductive Node where
  | file (content : List UInt8)
  /-- a directory with the nodes under its names -/
  | directory (entries : List (String × Node))
deriving Inhabited

/-- The place of a node: the names that lead to it from the root. -/
abbrev Place := List String

namespace Node

/-- Whether a node is a directory. -/
def isDirectory : Node → Bool
  | .file _ => false
  | .directory _ => true

/-- What a place below a node leads to, where nothing may stand under the last name. On the way to
it every name must be that of a directory, and none may be too long. -/
def reach : Node → Place → Except IoKind (Option Node)
  | n, [] => .ok (some n)
  | .file _, _ :: _ => .error .notADirectory
  | .directory entries, name :: rest =>
    if PathText.maxNameBytes < name.utf8ByteSize then .error .invalidFilename
    else match entries.lookup name with
      | some child => child.reach rest
      | none => if rest.isEmpty then .ok none else .error .notFound

/-- Puts a node at a place below, or takes away what stands there. Where no directory leads to the
place, nothing changes. -/
def update : Node → Place → Option Node → Node
  | n, [], new => new.getD n
  | .file content, _ :: _, _ => .file content
  | .directory entries, name :: rest, new =>
    let others := entries.filter fun e => e.1 != name
    if rest.isEmpty then .directory ((new.map fun n => (name, n)).toList ++ others)
    else match entries.lookup name with
      | some child => .directory ((name, child.update rest new) :: others)
      | none => .directory entries

/-- What is put at a place that can be reached is found there. -/
theorem reach_update_self {n : Node} {p : Place} {found : Option Node} (new : Node)
    (h : n.reach p = .ok found) : (n.update p (some new)).reach p = .ok (some new) := by
  induction p generalizing n found with
  | nil => rfl
  | cons name rest ih =>
    match n with
    | .file _ => simp [reach] at h
    | .directory entries =>
      simp only [reach] at h
      split at h
      · cases h
      rename_i hsize
      simp only [update]
      by_cases hrest : rest.isEmpty = true
      · rw [List.isEmpty_iff] at hrest
        subst hrest
        simp [reach, hsize]
      · cases hchild : entries.lookup name with
        | none => simp [hchild, hrest] at h
        | some child =>
          rw [hchild] at h
          simp [hrest, reach, hsize, ih h]

end Node

/-- A tree of files and directories. -/
structure Disk where
  /-- the directory that relative paths start from -/
  cwd : Place
  root : Node
deriving Inhabited

namespace Disk

/-- The empty directory tree. -/
def empty : Disk := ⟨[], .directory []⟩

/-- What stands at a place. -/
def node? (d : Disk) (p : Place) : Option Node := (d.root.reach p).toOption.join

/-- Puts a node at a place, in place of what is there. -/
def put (d : Disk) (p : Place) (n : Node) : Disk := { d with root := d.root.update p (some n) }

/-- Takes away what stands at a place. -/
def remove (d : Disk) (p : Place) : Disk := { d with root := d.root.update p none }

/-- Sees to it that a directory stands at a place. -/
def keepDirectory (d : Disk) (p : Place) : Disk :=
  if (d.node? p).any (·.isDirectory) then d else d.put p (.directory [])

/-! ## Walking -/

/-- Asks for a directory at a place. -/
def enter (d : Disk) (p : Place) : Except IoKind Unit := do
  match ← d.root.reach p with
  | some (.directory _) => .ok ()
  | some (.file _) => .error .notADirectory
  | none => .error .notFound

/-- Where names lead from a place. Places are given last name first. A look at the tree is only
needed where the walk turns back or ends on an idle name: `Node.reach` finds at every later place
what is wrong on the way to it. -/
def walk (d : Disk) : List String → List String → Except IoKind (List String)
  | back, [] => .ok back
  | back, name :: names =>
    if PathText.isIdle name then
      if names.isEmpty then do d.enter back.reverse; .ok back
      else walk d back names
    else if name = ".." then do d.enter back.reverse; walk d back.tail names
    else walk d (name :: back) names

/-- The place that a path names and what stands there. -/
def locate (d : Disk) (p : PathText) : Except IoKind (Place × Option Node) := do
  p.check
  let back ← d.walk (if p.isAbsolute then [] else d.cwd.reverse) p.names
  let found ← d.root.reach back.reverse
  return (back.reverse, found)

/-! ## Reading -/

/-- Whether a path names a directory. -/
def isDirectory (d : Disk) (p : PathText) : Bool :=
  match d.locate p with
  | .ok (_, some n) => n.isDirectory
  | _ => false

/-- The bytes of a file. -/
def read (d : Disk) (path : String) : Except IoKind (List UInt8) := do
  match ← d.locate (.ofString path) with
  | (_, some (.file content)) => .ok content
  | (_, some (.directory _)) => .error .isADirectory
  | (_, none) => .error .notFound

/-- The text of a file, which must be UTF-8. -/
def readText (d : Disk) (path : String) : Except IoKind String := do
  match Utf8.ofBytes? (← d.read path) with
  | some text => .ok text
  | none => .error .invalidData

/-- The names in a directory in ascending order. -/
def list (d : Disk) (path : String) : List String :=
  match d.locate (.ofString path) with
  | .ok (_, some (.directory entries)) => (entries.map (·.1)).mergeSort fun a b => a ≤ b
  | _ => []

/-! ## Changing -/

/-- Makes one directory, whose parent must exist. -/
def makeDirectory (d : Disk) (p : PathText) : Except IoKind Disk := do
  match ← d.locate p.withoutSlashes with
  | (_, some _) => .error .alreadyExists
  | (place, none) => .ok (d.put place (.directory []))

/-- Makes the directory with the given names, last first, after whatever is missing on the way to
it. What has been made stays if a later one cannot be made. -/
def makeWay (isAbsolute : Bool) : List String → Disk → Except IoKind Unit × Disk
  | [], d => (.ok (), d)
  | name :: before, d =>
    if !PathText.counts isAbsolute name before then makeWay isAbsolute before d
    else
      let path : PathText := ⟨isAbsolute, (name :: before).reverse⟩
      let settle (d : Disk) : Except IoKind Disk → Except IoKind Unit × Disk
        | .ok made => (.ok (), made)
        | .error kind => (if d.isDirectory path then .ok () else .error kind, d)
      match d.makeDirectory path with
      | .error .notFound =>
        match makeWay isAbsolute before d with
        | (.ok (), d) => settle d (d.makeDirectory path)
        | failed => failed
      | made => settle d made

/-- The bytes in the name of a draft. -/
def draftNameBytes : Nat := 10

/-- The path from the root of a directory with a given path. -/
def fromRoot (d : Disk) (dir : PathText) : String :=
  joinPath (PathText.text ⟨true, d.cwd⟩) dir.text

/-- Asks whether a draft can be made in a directory: its path from the root must not be too
long. -/
def checkDraft (d : Disk) (dir : PathText) : Except IoKind Unit :=
  if PathText.maxBytes < (joinPath (d.fromRoot dir) "").utf8ByteSize + draftNameBytes then
    .error .invalidFilename
  else .ok ()

/-- Puts a file with the given content under a path in one step. A directory is not replaced. -/
def replace (d : Disk) (path : String) (content : List UInt8) : Except IoKind Disk := do
  let p := PathText.ofString path
  p.check
  let (place, found) ← d.locate p.withoutSlashes
  if !p.endsInName then .error .resourceBusy
  else if p.endsWithSlash then .error .notADirectory
  else match found with
    | some (.directory _) => .error .isADirectory
    | _ => .ok (d.put place (.file content))

/-- Takes a file away. -/
def removeFile (d : Disk) (path : String) : Except IoKind Disk := do
  match ← d.locate (.ofString path) with
  | (place, some (.file _)) => .ok (d.remove place)
  | (_, some (.directory _)) => .error .isADirectory
  | (_, none) => .error .notFound

end Disk

end SharedSession
