import SharedSession.Toml.Moment
import SharedSession.Toml.Number
import SharedSession.Toml.Quoted
import SharedSession.Toml.Value

set_option autoImplicit false

/-!
# Statements

A document is a list of statements, each on a line of its own: an entry gives a key and its value,
a header opens a table, and an array header opens a further table of an array. Arrays may go over
several lines, with comments and a comma behind the last value; a table in braces stands in one
line, the values in it apart, and has no comma at its end.

Values are nested less than `nestingLimit` deep, and a key has fewer names than that.
-/

namespace SharedSession.Toml

/-- Keys have fewer names than this, and values are nested less deep. -/
def nestingLimit : Nat := 80

/-! ## Keys -/

/-- Whether a character may stand in a name without quotes. -/
def isNameChar (c : Char) : Bool := c.isAlphanum || c == '_' || c == '-'

/-- Reads a name, quoted or not. -/
def readName? : Reader String
  | [] => none
  | c :: rest =>
    if c = '"' then Quoted.readInLine? .basic rest
    else if c = '\x27' then Quoted.readInLine? .literal rest
    else if isNameChar c then
      some (String.ofList (c :: rest.takeWhile isNameChar), rest.dropWhile isNameChar)
    else none

/-- Reads names with points between them, at most as many as the fuel, and the spaces around
them. -/
def readNames? : Nat → Reader (List String)
  | 0, _ => none
  | fuel + 1, cs => do
    let (name, rest) ← readName? (skipSpaces cs)
    match skipSpaces rest with
    | '.' :: rest =>
      let (names, rest) ← readNames? fuel rest
      some (name :: names, rest)
    | rest => some ([name], rest)

/-- Reads a key and the spaces around it. -/
def readKey? : Reader Key := fun cs => do
  let (names, rest) ← readNames? (nestingLimit - 1) cs
  some (⟨names.dropLast, names.getLast?.getD ""⟩, rest)

/-! ## Values -/

/-- The value of a number. -/
def Value.ofNumber : Number → Value
  | .integer z => .integer z
  | .float text => .float text

/-- Reads a value that holds no others. -/
def readScalar? : Reader Value
  | '"' :: rest => (Quoted.read? .basic rest).map fun p => (.string p.1, p.2)
  | '\x27' :: rest => (Quoted.read? .literal rest).map fun p => (.string p.1, p.2)
  | 't' :: 'r' :: 'u' :: 'e' :: rest => some (.boolean true, rest)
  | 'f' :: 'a' :: 'l' :: 's' :: 'e' :: rest => some (.boolean false, rest)
  | cs =>
    match Moment.read? cs with
    | some (text, rest) => some (.moment text, rest)
    | none => (Number.read? cs).map fun p => (.ofNumber p.1, p.2)

/-- Reads the values of an array and its closing bracket, where each value is read by `value`. A
value takes a character, so there are fewer of them than characters. -/
def readItems? (value : Reader Value) : Nat → Reader (List Value)
  | 0, _ => none
  | fuel + 1, cs =>
    match skipTrivia cs with
    | ']' :: rest => some ([], rest)
    | cs => do
      let (item, rest) ← value cs
      match skipTrivia rest with
      | ']' :: rest => some ([item], rest)
      | ',' :: rest =>
        let (items, rest) ← readItems? value fuel rest
        some (item :: items, rest)
      | _ => none

/-- Reads a key, an equals sign and a value, and the spaces around them. -/
def readPair? (value : Reader Value) : Reader (Key × Value) := fun cs => do
  let (key, rest) ← readKey? cs
  match rest with
  | '=' :: rest =>
    let (v, rest) ← value (skipSpaces rest)
    some ((key, v), skipSpaces rest)
  | _ => none

/-- Reads the entries of a table in braces up to its closing brace; there is one at least. -/
def readEntries? (value : Reader Value) : Nat → Reader (List (Key × Value))
  | 0, _ => none
  | fuel + 1, cs => do
    let (entry, rest) ← readPair? value cs
    match rest with
    | '}' :: rest => some ([entry], rest)
    | ',' :: rest =>
      let (entries, rest) ← readEntries? value fuel rest
      some (entry :: entries, rest)
    | _ => none

/-- Reads a table in braces behind its opening brace. -/
def readBraces? (value : Reader Value) : Reader Value := fun cs =>
  match skipSpaces cs with
  | '}' :: rest => some (.table .braces [], rest)
  | cs => do
    let (entries, rest) ← readEntries? value cs.length cs
    let table ← Table.ofEntries? entries
    some (.table .braces table, rest)

/-- Reads a value that is nested at most so deep. -/
def readValue? : Nat → Reader Value
  | 0, cs => readScalar? cs
  | depth + 1, cs =>
    match cs with
    | '[' :: rest =>
      (readItems? (readValue? depth) (rest.length + 1) rest).map fun p => (.array p.1, p.2)
    | '{' :: rest => readBraces? (readValue? depth) rest
    | cs => readScalar? cs

/-! ## Statements -/

/-- A statement of a document. -/
inductive Statement where
  | entry (key : Key) (value : Value)
  /-- a header, which opens a table -/
  | header (key : Key)
  /-- an array header, which opens a further table under its key -/
  | arrayHeader (key : Key)
deriving Repr, Inhabited

/-- Reads the key of a header and its closing brackets. -/
def readHeader? (close : List Char) : Reader Key := fun cs => do
  let (key, rest) ← readKey? cs
  if close.isPrefixOf rest then some (key, rest.drop close.length) else none

/-- Reads a statement, up to the rest of its line. -/
def readStatement? : Reader Statement
  | '[' :: '[' :: rest => (readHeader? [']', ']'] rest).map fun p => (.arrayHeader p.1, p.2)
  | '[' :: rest => (readHeader? [']'] rest).map fun p => (.header p.1, p.2)
  | cs => (readPair? (readValue? (nestingLimit - 1)) cs).map fun p => (.entry p.1.1 p.1.2, p.2)

/-- Reads statements up to the end of the text. Each line has a character at least, so there are
fewer of them than characters. -/
def readStatements? : Nat → List Char → Option (List Statement)
  | 0, _ => none
  | fuel + 1, cs =>
    match skipSpaces cs with
    | [] => some []
    | cs =>
      match restOfLine? cs with
      | some rest => readStatements? fuel rest
      | none => do
        let (statement, rest) ← readStatement? cs
        let statements ← readStatements? fuel (← restOfLine? rest)
        some (statement :: statements)

/-- The mark that may stand at the start of a document and is no part of it. -/
def byteOrderMark : Char := '\ufeff'

/-- The document behind its mark. -/
def skipMark : List Char → List Char
  | [] => []
  | c :: rest => if c = byteOrderMark then rest else c :: rest

/-- The statements of a document. -/
def statements? (text : String) : Option (List Statement) :=
  let cs := skipMark text.toList
  readStatements? (cs.length + 1) cs

end SharedSession.Toml
