set_option autoImplicit false

/-!
# What stands between the parts of a document

Spaces and tabs may stand between the parts of a line. A comment starts at a number sign and goes
to the end of the line; it may hold every character but the controls, the tab excepted. A line ends
with a line feed, or a carriage return and a line feed; the last one may end with the text.
-/

namespace SharedSession.Toml

/-- A reader takes a value from the front of a text and leaves the rest, or refuses. -/
abbrev Reader (α : Type) : Type := List Char → Option (α × List Char)

/-- Whether a character may stand between the parts of a line. -/
def isSpace (c : Char) : Bool := c == ' ' || c == '\t'

/-- The rest behind the spaces and tabs in front. -/
def skipSpaces (cs : List Char) : List Char := cs.dropWhile isSpace

/-- Whether a character is a control other than the tab. -/
def isControl (c : Char) : Bool := (c < ' ' && c != '\t') || c == '\x7f'

/-- The rest behind the end of a line. -/
def lineEnd? : List Char → Option (List Char)
  | '\n' :: rest => some rest
  | '\r' :: '\n' :: rest => some rest
  | _ => none

/-- The rest behind a comment, if one stands in front. -/
def skipComment : List Char → List Char
  | '#' :: rest => rest.dropWhile fun c => !isControl c
  | cs => cs

/-- Nothing but a comment is left of a line; the rest behind its end. -/
def restOfLine? (cs : List Char) : Option (List Char) :=
  match skipComment (skipSpaces cs) with
  | [] => some []
  | c :: rest => lineEnd? (c :: rest)

theorem length_skipSpaces_le (cs : List Char) : (skipSpaces cs).length ≤ cs.length :=
  (List.dropWhile_suffix _).length_le

theorem length_of_lineEnd? {cs rest : List Char} (h : lineEnd? cs = some rest) :
    rest.length < cs.length := by
  unfold lineEnd? at h
  split at h <;> cases h <;> simp only [List.length_cons] <;> omega

theorem length_skipComment_le (cs : List Char) : (skipComment cs).length ≤ cs.length := by
  unfold skipComment
  split
  · exact Nat.le_trans (List.dropWhile_suffix _).length_le (Nat.le_succ _)
  · exact Nat.le_refl _

/-- An end of a line behind spaces and a comment is always some way on. -/
theorem length_of_lineEnd?_skipComment {cs rest : List Char}
    (h : lineEnd? (skipComment (skipSpaces cs)) = some rest) : rest.length < cs.length :=
  calc rest.length < (skipComment (skipSpaces cs)).length := length_of_lineEnd? h
    _ ≤ (skipSpaces cs).length := length_skipComment_le _
    _ ≤ cs.length := length_skipSpaces_le cs

/-- The rest behind spaces, comments and ends of lines. -/
def skipTrivia (cs : List Char) : List Char :=
  match h : lineEnd? (skipComment (skipSpaces cs)) with
  | some rest =>
    have : rest.length < cs.length := length_of_lineEnd?_skipComment h
    skipTrivia rest
  | none => skipSpaces cs
termination_by cs.length

end SharedSession.Toml
