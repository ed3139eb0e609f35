set_option autoImplicit false

/-!
# Failures

What a storage medium and the configuration can fail with, and the text of each failure.
-/

namespace SharedSession

/-- Why the file system refused. -/
inductive IoKind where
  | notFound
  | isADirectory
  | notADirectory
  | alreadyExists
  | invalidData
  /-- the path ends in the working directory or a parent, which cannot be replaced -/
  | resourceBusy
  | invalidInput
  | invalidFilename
deriving DecidableEq, Repr, Inhabited

/-- A refusal of the file system and its wording. -/
structure IoFailure where
  kind : IoKind
  text : String
deriving DecidableEq, Repr, Inhabited

/-- A failure of a call on a storage medium. -/
inductive StorageError where
  | unavailable (details : String)
  /-- the file system refused at the named step -/
  | io (step : String) (cause : IoFailure)
deriving DecidableEq, Repr, Inhabited

/-- The text of a storage failure. -/
def StorageError.message : StorageError → String
  | .unavailable details => "Session storage unavailable: " ++ details
  | .io step cause => "I/O error: " ++ step ++ ": " ++ cause.text

/-- A failure to obtain the configuration. -/
inductive ConfigError where
  /-- the file exists but cannot be read as text -/
  | unreadable (path : String) (cause : IoFailure)
  | malformed (path : String) (details : String)
  | homeNotFound
deriving DecidableEq, Repr, Inhabited

/-- The text of a configuration failure. -/
def ConfigError.message : ConfigError → String
  | .unreadable path cause => "Configuration read failed: " ++ path ++ ": " ++ cause.text
  | .malformed path details => "Configuration file malformed: " ++ path ++ ": " ++ details
  | .homeNotFound => "Home directory not found"

end SharedSession
