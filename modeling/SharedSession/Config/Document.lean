import SharedSession.Config.Basic
import SharedSession.Toml.Document

set_option autoImplicit false

/-!
# Settings as a document

Settings are written as a TOML document: spans as whole milliseconds, the storage as a table with
its kind under `type`. What a document does not mention has its default, and keys that mean nothing
are passed over. The storage may also be an array of its kind and, behind that, its path or its
locking.

A span that is longer than a document can say is not written. Reading alone does not ask whether
the timers can tick; `Config.checked` does.
-/

namespace SharedSession

/-- Why a text is not accepted as settings. -/
inductive ConfigFault where
  | notADocument
  /-- the value under a key is not of its kind -/
  | wrongValue (field : String)
  /-- a timer could not tick -/
  | zeroPeriod (field : String)
deriving DecidableEq, Repr, Inhabited

/-- The text of a fault. -/
def ConfigFault.details : ConfigFault → String
  | .notADocument => "not a TOML document"
  | .wrongValue field => field ++ " has a value of the wrong kind"
  | .zeroPeriod field => field ++ " must be greater than zero"

/-! ## Reading -/

namespace StorageChoice

/-- The choice of a kind, with the values given for its path and its locking. -/
def ofParts? (kind : Toml.Value) (path locking : Option Toml.Value) : Option StorageChoice :=
  match kind with
  | .string "file" =>
    match path with
    | none => some (.file none)
    | some (.string p) => some (.file (some p))
    | some _ => none
  | .string "memory" =>
    match locking with
    | none => some (.memory false)
    | some (.boolean b) => some (.memory b)
    | some _ => none
  | _ => none

/-- The choice that a value of a document stands for. -/
def ofValue? : Toml.Value → Option StorageChoice
  | .table _ t =>
    (Toml.Table.get? t "type").bind fun kind =>
      ofParts? kind (Toml.Table.get? t "path") (Toml.Table.get? t "locking")
  | .array [kind] => ofParts? kind none none
  | .array [kind, setting] => ofParts? kind (some setting) (some setting)
  | _ => none

end StorageChoice

namespace Config

/-- The span of so many milliseconds that a value stands for. -/
def spanOfValue? : Toml.Value → Option Span
  | .integer z => if 0 ≤ z then some (.ofMillis z.toNat) else none
  | _ => none

/-- The number of tries that a value stands for. -/
def triesOfValue? : Toml.Value → Option UInt32
  | .integer z => if 0 ≤ z ∧ z.toNat < UInt32.size then some (UInt32.ofNat z.toNat) else none
  | _ => none

/-- The setting under a name, or its default if there is none. -/
def setting {α : Type} (t : Toml.Table) (name : String) (ofValue? : Toml.Value → Option α)
    (default : α) : Except ConfigFault α :=
  match Toml.Table.get? t name with
  | none => .ok default
  | some v =>
    match ofValue? v with
    | some a => .ok a
    | none => .error (.wrongValue name)

/-- The settings that a table stands for. -/
def ofTable (t : Toml.Table) : Except ConfigFault Config := do
  let d := Config.default
  return {
    pollDelay := ← setting t "poll_delay" spanOfValue? d.pollDelay
    visibilityCheckDelay :=
      ← setting t "visibility_check_delay" spanOfValue? d.visibilityCheckDelay
    expirationDelay := ← setting t "expiration_delay" spanOfValue? d.expirationDelay
    timeOutDelay := ← setting t "time_out_delay" spanOfValue? d.timeOutDelay
    lockRetryDelay := ← setting t "lock_retry_delay" spanOfValue? d.lockRetryDelay
    lockMaxTries := ← setting t "lock_max_tries" triesOfValue? d.lockMaxTries
    historyClearInterval :=
      ← setting t "history_clear_interval" spanOfValue? d.historyClearInterval
    storage := ← setting t "storage" StorageChoice.ofValue? d.storage }

/-- The settings that a text stands for. -/
def ofText (text : String) : Except ConfigFault Config :=
  match Toml.Table.ofText? text with
  | some t => ofTable t
  | none => .error .notADocument

/-- The same settings, if every timer can tick. -/
def checked (c : Config) : Except ConfigFault Config :=
  match c.zeroTimerPeriod? with
  | some field => .error (.zeroPeriod field)
  | none => .ok c

/-! ## Writing -/

/-- A line that gives a key its value. -/
def line (name : String) (value : List Char) : List Char :=
  name.toList ++ [' ', '=', ' '] ++ value ++ ['\n']

/-- The whole milliseconds of a span, unless a document has no integer as large. -/
def spanText? (d : Span) : Option (List Char) :=
  if d.wholeMillis ≤ Span.millisLimit then some (Decimal.digits d.wholeMillis) else none

/-- A truth value. -/
def boolText (b : Bool) : List Char := (if b then "true" else "false").toList

/-- The lines of the storage's table. -/
def storageText : StorageChoice → List Char
  | .file none => line "type" (Toml.Quoted.write "file")
  | .file (some path) =>
    line "type" (Toml.Quoted.write "file") ++ line "path" (Toml.Quoted.write path)
  | .memory locking =>
    line "type" (Toml.Quoted.write "memory") ++ line "locking" (boolText locking)

/-- The settings as a document: all of them in order, then the storage's table behind a blank
line. -/
def toText? (c : Config) : Option String := do
  let poll ← spanText? c.pollDelay
  let visibilityCheck ← spanText? c.visibilityCheckDelay
  let expiration ← spanText? c.expirationDelay
  let timeOut ← spanText? c.timeOutDelay
  let lockRetry ← spanText? c.lockRetryDelay
  let historyClear ← spanText? c.historyClearInterval
  some (String.ofList
    (line "poll_delay" poll ++ line "visibility_check_delay" visibilityCheck
      ++ line "expiration_delay" expiration ++ line "time_out_delay" timeOut
      ++ line "lock_retry_delay" lockRetry
      ++ line "lock_max_tries" (Decimal.digits c.lockMaxTries.toNat)
      ++ line "history_clear_interval" historyClear
      ++ "\n[storage]\n".toList ++ storageText c.storage))

end Config

end SharedSession
