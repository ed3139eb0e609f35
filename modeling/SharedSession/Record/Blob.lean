import SharedSession.Record.Basic
import SharedSession.Text.Percent

set_option autoImplicit false

/-!
# The shared text of a record

A record is shared as one line of text: its entries in order, each a percent-coded key, an equals
sign and a percent-coded value, with ampersands between them. An entry under the empty key is not
written. Reading never fails: a piece that is no entry is passed over, and of repeated keys the
last stays.
-/

namespace SharedSession

/-! ## Pieces of a text -/

namespace Text

/-- The pieces between the occurrences of a separator; one piece if there is none. -/
def pieces (sep : Char) : List Char → List (List Char)
  | [] => [[]]
  | c :: rest =>
    if c = sep then [] :: pieces sep rest
    else match pieces sep rest with
      | p :: ps => (c :: p) :: ps
      | [] => [[c]]

/-- The pieces with a separator between each two of them. -/
def joined (sep : Char) : List (List Char) → List Char
  | [] => []
  | [p] => p
  | p :: q :: ps => p ++ sep :: joined sep (q :: ps)

/-- What stands before and behind the first occurrence of a separator, if there is one. -/
def cut? (sep : Char) : List Char → Option (List Char × List Char)
  | [] => none
  | c :: rest =>
    if c = sep then some ([], rest) else (cut? sep rest).map fun p => (c :: p.1, p.2)

theorem pieces_ne_nil (sep : Char) (cs : List Char) : pieces sep cs ≠ [] := by
  cases cs with
  | nil => simp [pieces]
  | cons c rest =>
    simp only [pieces]
    split
    · simp
    · split <;> simp

/-- A separator splits a text into the pieces of what is before it and those of what is behind. -/
theorem pieces_append_cons (sep : Char) (a b : List Char) :
    pieces sep (a ++ sep :: b) = pieces sep a ++ pieces sep b := by
  induction a with
  | nil => simp [pieces]
  | cons c a ih =>
    simp only [List.cons_append, pieces, ih]
    split
    · rfl
    · cases h : pieces sep a with
      | nil => exact absurd h (pieces_ne_nil sep a)
      | cons p ps => rfl

end Text

/-! ## Writing and reading -/

namespace Record

/-- The written form of one entry. -/
def entryChars (e : String × String) : List Char :=
  Percent.encodeChars e.1 ++ '=' :: Percent.encodeChars e.2

/-- The shared text of a record. -/
def encode (r : Record) : String :=
  String.ofList (Text.joined '&' ((r.toList.filter fun e => e.1 ≠ "").map entryChars))

/-- The entry that a piece of text stands for, if it is one. -/
def entry? (piece : List Char) : Option (String × String) := do
  let (k, v) ← Text.cut? '=' piece
  let key ← Percent.decode? (String.ofList k)
  if key = "" then none
  else
    let value ← Percent.decode? (String.ofList v)
    some (key, value)

/-- The record that a shared text stands for. -/
def decode (raw : String) : Record := ofList ((Text.pieces '&' raw.toList).filterMap entry?)

end Record

end SharedSession
