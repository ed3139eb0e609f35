set_option autoImplicit false

/-!
# Values and tables

A table is a list of keys and values in the order of the document, no key twice. How a table came
about decides what may still be added to it: one that a dotted key made may get further entries by
dotted keys only, one that only a longer header named may still be opened by its own header, and
one that was written in braces is complete.
-/

namespace SharedSession.Toml

/-- How a table came about. -/
inductive Origin where
  /-- it is written in braces -/
  | braces
  /-- a dotted key made it -/
  | dotted
  /-- a header of a table below it made it -/
  | implied
  /-- its own header opened it -/
  | header
deriving DecidableEq, Repr, Inhabited

/-- A value of a document. -/
inductive Value where
  | string (s : String)
  | integer (z : Int)
  /-- a float as it is written -/
  | float (text : String)
  /-- a date, a time or both, as they are written -/
  | moment (text : String)
  | boolean (b : Bool)
  | array (items : List Value)
  | table (origin : Origin) (entries : List (String × Value))
  /-- the tables that equal array headers opened, in order -/
  | tables (items : List (List (String × Value)))
deriving Repr, Inhabited

/-- The entries of a table in the order of the document. -/
abbrev Table : Type := List (String × Value)

/-- A key: names with points between them. The value stands under the last name, in the tables
that the names in front of it lead to. -/
structure Key where
  /-- the names of the tables on the way -/
  path : List String
  name : String
deriving DecidableEq, Repr, Inhabited

namespace Table

/-- The value under a name. -/
def get? (t : Table) (name : String) : Option Value := t.lookup name

/-- Puts a value under a name, in place of what is there or at the end. -/
def put (t : Table) (name : String) (v : Value) : Table :=
  if (t.get? name).isSome then t.map fun e => if e.1 == name then (name, v) else e
  else t ++ [(name, v)]

/-- Adds a value under a dotted key. The tables on the way are made by dotted keys; in front of the
last of them there may also be implied ones, and of several tables under one header the last is
taken. -/
def insert : List String → String → Value → Table → Option Table
  | [], name, v, t => if (t.get? name).isSome then none else some (t ++ [(name, v)])
  | first :: path, name, v, t =>
    match t.get? first with
    | none => (insert path name v []).map fun sub => t ++ [(first, .table .dotted sub)]
    | some (.table .dotted sub) =>
      (insert path name v sub).map fun sub => t.put first (.table .dotted sub)
    | some (.table .implied sub) =>
      if path.isEmpty then none
      else (insert path name v sub).map fun sub => t.put first (.table .implied sub)
    | some (.tables items) =>
      if path.isEmpty then none
      else (insert path name v (items.getLast?.getD [])).map fun sub =>
        t.put first (.tables (items.dropLast ++ [sub]))
    | some _ => none

/-- Changes the table that the names of headers lead to. Missing tables on the way are implied, and
of several tables under one header the last is taken. -/
def modifyAt : List String → (Table → Option Table) → Table → Option Table
  | [], f, t => f t
  | first :: path, f, t =>
    match t.get? first with
    | none => (modifyAt path f []).map fun sub => t ++ [(first, .table .implied sub)]
    | some (.table .braces _) => none
    | some (.table origin sub) =>
      (modifyAt path f sub).map fun sub => t.put first (.table origin sub)
    | some (.tables items) =>
      (modifyAt path f (items.getLast?.getD [])).map fun sub =>
        t.put first (.tables (items.dropLast ++ [sub]))
    | some _ => none

/-- Opens the table under a name by its header: it must be new, or be implied by now. -/
def openTable (name : String) (t : Table) : Option Table :=
  match t.get? name with
  | none => some (t ++ [(name, .table .header [])])
  | some (.table .implied sub) => some (t.put name (.table .header sub))
  | some _ => none

/-- Opens a further table under a name by an array header. -/
def openElement (name : String) (t : Table) : Option Table :=
  match t.get? name with
  | none => some (t ++ [(name, .tables [[]])])
  | some (.tables items) => some (t.put name (.tables (items ++ [[]])))
  | some _ => none

/-- The table that entries under dotted keys make up, if no two of them are at odds. -/
def ofEntries? (entries : List (Key × Value)) : Option Table :=
  entries.foldlM (fun t e => t.insert e.1.path e.1.name e.2) []

end Table

end SharedSession.Toml
