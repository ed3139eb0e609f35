import SharedSession.Calendar
import SharedSession.Record.Json
import SharedSession.Product.Basic

set_option autoImplicit false

/-!
# What the command line prints

A report of the stored session is a JSON object over several lines, indented by two spaces. Its
dates are missing where the record names no timestamp or one without a date. A status line says
which context a product has; a news line says what has become of it.
-/

namespace SharedSession.CommandLine

/-- What is reported about a stored session. -/
structure Report where
  /-- whether it is a session and neither its deadline nor its time is over -/
  active : Bool
  /-- whether some writer holds the lock; at rest that is a writer which died -/
  locked : Bool
  id : Option String
  /-- when the session began -/
  created : Option String
  /-- when the session ends unless there is activity -/
  expire : Option String
  entries : Record

namespace Report

/-- The text of a timestamp's date. -/
def dateText (t : Option Timestamp) : Option String :=
  (t.bind DateTime.ofTimestamp?).map (·.render)

/-- The report of a record. -/
def ofRecord (r : Record) (now : Timestamp) (timeOut : Span) : Report where
  active := !r.isCleared && r.isActive now timeOut
  locked := r.lock?.isSome
  id := r.id?
  created := dateText r.created?
  expire := dateText r.expire?
  entries := r

/-- A truth value. -/
def boolText (b : Bool) : List Char := (if b then "true" else "false").toList

/-- A text, or null. -/
def optionText : Option String → List Char
  | some s => Json.quoted s
  | none => "null".toList

/-- Members of an object on lines of their own, indented by so many spaces. -/
def block (indent : Nat) : List (String × List Char) → List Char
  | [] => ['{', '}']
  | members =>
    '{' :: '\n' :: Text.joinedBy [',', '\n'] (members.map fun e =>
        List.replicate (indent + 2) ' ' ++ Json.quoted e.1 ++ [':', ' '] ++ e.2)
      ++ '\n' :: List.replicate indent ' ' ++ ['}']

/-- A report as JSON. -/
def render (r : Report) : String :=
  String.ofList (block 0
    [("active", boolText r.active), ("locked", boolText r.locked), ("id", optionText r.id),
      ("created", optionText r.created), ("expire", optionText r.expire),
      ("entries", block 2 (r.entries.toList.map fun e => (e.1, Json.quoted e.2)))])

end Report

/-- The line that says which context a product has. -/
def statusLine (key : String) (context : Option Context) : String :=
  "[" ++ key ++ "] " ++ match context with
    | some c => "active id=" ++ c.id.getD "-" ++ " tracking=" ++ c.trackingType.getD "-"
    | none => "no active session"

/-- The line that tells a notice. -/
def newsLine (key : String) (n : Notice) : String :=
  "[" ++ key ++ "] session " ++ if n.isRenewal then "renewed" else "expired"

end SharedSession.CommandLine
