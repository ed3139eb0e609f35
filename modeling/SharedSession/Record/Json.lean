import SharedSession.Record.Basic
import SharedSession.Text.Json

set_option autoImplicit false

/-!
# A record as JSON

A record is one JSON object whose values are all strings. Reading takes exactly that: white space
may stand between the tokens, and of a repeated key the last stays.
-/

namespace SharedSession.Record

/-- The record as compact JSON text, keys in ascending order. -/
def toJson (r : Record) : String :=
  String.ofList ('{' :: Text.joinedBy [','] (r.toList.map fun e =>
    Json.quoted e.1 ++ ':' :: Json.quoted e.2) ++ ['}'])

/-- The record that a JSON text stands for, if it is an object of strings. -/
def ofJson? (text : String) : Option Record := (Json.readStrings? text.toList).map ofList

end SharedSession.Record
