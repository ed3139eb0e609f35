import SharedSession.Text.Hex
import SharedSession.Toml.Trivia

set_option autoImplicit false

/-!
# Quoted text

There are two quotes. Between double quotes a backslash starts an escape; between single quotes
every character stands for itself. Either kind stands in one line between single marks, or in a
block between three marks each. A block may hold ends of lines, of which the first is passed over
if it follows the opening marks at once and the others count as line feeds, and one or two marks in
a row, also in front of the closing ones. In a block between double quotes a backslash at the end
of a line takes away all white space up to the next character.

Writing chooses the plainest form that needs no escape, and escapes if there is none.
-/

namespace SharedSession.Toml

/-- The two quotes. -/
inductive Quote where
  /-- double quotes, between which a backslash starts an escape -/
  | basic
  /-- single quotes, between which every character stands for itself -/
  | literal
deriving DecidableEq, Repr, Inhabited

namespace Quote

/-- The character that opens and closes. -/
def mark : Quote → Char
  | .basic => '"'
  | .literal => '\x27'

/-- The three marks of a block. -/
def fence (q : Quote) : List Char := [q.mark, q.mark, q.mark]

/-- Whether a character other than an end of line stands for itself wherever it is. -/
def isPlain (q : Quote) (c : Char) : Bool :=
  !isControl c && c != q.mark && !(q == .basic && c == '\\')

end Quote

namespace Quoted

/-! ## Reading -/

/-- The character that a one-letter escape stands for. -/
def letterEscape? (c : Char) : Option Char :=
  if c = '"' ∨ c = '\\' then some c
  else if c = 'b' then some '\x08'
  else if c = 't' then some '\t'
  else if c = 'n' then some '\n'
  else if c = 'f' then some '\x0c'
  else if c = 'r' then some '\r'
  else none

/-- The character with a code of so many hexadecimal digits. -/
def codeEscape? (count : Nat) : Reader Char := fun cs =>
  if (cs.take count).length < count then none
  else (Text.hexValue? (cs.take count)).bind fun n =>
    (Text.charOfCode? n).map fun c => (c, cs.drop count)

/-- Reads an escape behind its backslash. -/
def readEscape? : Reader Char
  | [] => none
  | c :: rest =>
    if c = 'u' then codeEscape? 4 rest
    else if c = 'U' then codeEscape? 8 rest
    else (letterEscape? c).map fun e => (e, rest)

/-- The rest behind white space and ends of lines. -/
def skipBlank : List Char → List Char
  | [] => []
  | c :: rest =>
    if isSpace c ∨ c = '\n' then skipBlank rest
    else match c, rest with
      | '\r', '\n' :: rest => skipBlank rest
      | _, _ => c :: rest

/-- Where the text goes on behind a backslash that ends a line. -/
def continuation? (cs : List Char) : Option (List Char) :=
  (lineEnd? (skipSpaces cs)).map skipBlank

/-- The marks of a run that belong to the text, and the rest behind the run, if the run closes a
block. Of more than five marks the last ones do not belong to the block. -/
def closing? (q : Quote) (cs : List Char) : Option (List Char × List Char) :=
  let run := (cs.takeWhile (· == q.mark)).length
  if run < 3 then none
  else some (List.replicate (min run 5 - 3) q.mark, cs.drop (min run 5))

theorem length_of_codeEscape? {count : Nat} {cs rest : List Char} {c : Char}
    (h : codeEscape? count cs = some (c, rest)) : rest.length ≤ cs.length := by
  unfold codeEscape? at h
  split at h
  · cases h
  · simp only [Option.bind_eq_some_iff, Option.map_eq_some_iff, Prod.mk.injEq] at h
    obtain ⟨-, -, -, -, -, rfl⟩ := h
    simp

theorem length_of_readEscape? {cs rest : List Char} {c : Char}
    (h : readEscape? cs = some (c, rest)) : rest.length < cs.length := by
  unfold readEscape? at h
  split at h
  · cases h
  · next c rest' =>
    simp only [List.length_cons]
    split at h
    · exact Nat.lt_succ_of_le (length_of_codeEscape? h)
    · split at h
      · exact Nat.lt_succ_of_le (length_of_codeEscape? h)
      · simp only [Option.map_eq_some_iff, Prod.mk.injEq] at h
        obtain ⟨-, -, -, rfl⟩ := h
        omega

theorem length_skipBlank_le (cs : List Char) : (skipBlank cs).length ≤ cs.length := by
  fun_induction skipBlank cs <;> simp only [List.length_cons, List.length_nil] at * <;> omega

theorem length_of_continuation? {cs rest : List Char} (h : continuation? cs = some rest) :
    rest.length < cs.length := by
  simp only [continuation?, Option.map_eq_some_iff] at h
  obtain ⟨mid, hmid, rfl⟩ := h
  have := length_of_lineEnd? hmid
  have := length_skipSpaces_le cs
  have := length_skipBlank_le mid
  omega

/-- Reads the text of one line up to the closing mark. -/
def readLine? (q : Quote) (cs : List Char) : Option (List Char × List Char) :=
  match cs with
  | [] => none
  | c :: rest =>
    if c = q.mark then some ([], rest)
    else if q.isPlain c then (readLine? q rest).map fun p => (c :: p.1, p.2)
    else if c = '\\' then
      match h : readEscape? rest with
      | none => none
      | some (e, tail) =>
        have := length_of_readEscape? h
        (readLine? q tail).map fun p => (e :: p.1, p.2)
    else none
termination_by cs.length
decreasing_by all_goals (simp only [List.length_cons] at *; omega)

/-- Reads the text of a block up to the closing marks. -/
def readBlock? (q : Quote) (cs : List Char) : Option (List Char × List Char) :=
  match cs with
  | [] => none
  | c :: rest =>
    match closing? q (c :: rest) with
    | some p => some p
    | none =>
      if c = q.mark ∨ q.isPlain c then (readBlock? q rest).map fun p => (c :: p.1, p.2)
      else if c = '\\' then
        match h : continuation? rest with
        | some tail =>
          have := length_of_continuation? h
          readBlock? q tail
        | none =>
          match h : readEscape? rest with
          | none => none
          | some (e, tail) =>
            have := length_of_readEscape? h
            (readBlock? q tail).map fun p => (e :: p.1, p.2)
      else
        match h : lineEnd? (c :: rest) with
        | none => none
        | some tail =>
          have := length_of_lineEnd? h
          (readBlock? q tail).map fun p => ('\n' :: p.1, p.2)
termination_by cs.length
decreasing_by all_goals (simp only [List.length_cons] at *; omega)

/-- A quoted text as its characters and the rest. -/
def asText (p : Option (List Char × List Char)) : Option (String × List Char) :=
  p.map fun p => (String.ofList p.1, p.2)

/-- Reads a text of one line behind its opening mark. -/
def readInLine? (q : Quote) : Reader String := fun cs => asText (readLine? q cs)

/-- Reads a text of either form behind its opening mark. -/
def read? (q : Quote) : Reader String := fun cs =>
  match cs with
  | a :: b :: rest =>
    if a = q.mark ∧ b = q.mark then asText (readBlock? q ((lineEnd? rest).getD rest))
    else readInLine? q cs
  | _ => readInLine? q cs

/-! ## Writing -/

/-- The longest run of a character, where a run of `run` of them stands in front. -/
def longestRun (mark : Char) : Nat → List Char → Nat
  | run, [] => run
  | run, c :: cs => if c = mark then longestRun mark (run + 1) cs else max run (longestRun mark 0 cs)

/-- The written form of a character other than the quote between double quotes in one line. -/
def escaped (c : Char) : List Char :=
  if c = '\x08' then ['\\', 'b']
  else if c = '\t' then ['\\', 't']
  else if c = '\n' then ['\\', 'n']
  else if c = '\x0c' then ['\\', 'f']
  else if c = '\r' then ['\\', 'r']
  else if c = '\\' then ['\\', '\\']
  else if isControl c then
    ['\\', 'u', '0', '0', Text.upperHexDigit (c.toNat / 16), Text.upperHexDigit (c.toNat % 16)]
  else [c]

/-- The written form between double quotes. A quote is escaped if `limit` of them stand in front
of it; in a block, where the limit is two, an end of line stands for itself. -/
def escapedChars (isBlock : Bool) (limit : Nat) : Nat → List Char → List Char
  | _, [] => []
  | run, c :: cs =>
    if c = '"' then
      if limit ≤ run then '\\' :: '"' :: escapedChars isBlock limit 0 cs
      else '"' :: escapedChars isBlock limit (run + 1) cs
    else if isBlock ∧ c = '\n' then '\n' :: escapedChars isBlock limit 0 cs
    else escaped c ++ escapedChars isBlock limit 0 cs

/-- The form in which a text is written: which quote, and whether in a block. -/
structure Form where
  quote : Quote
  isBlock : Bool
deriving DecidableEq, Repr, Inhabited

/-- The plainest form that a text can be written in without an escape, or else the form between
double quotes that has its ends of lines. A tab counts as plain, although it is written as an
escape between double quotes. -/
def formOf (cs : List Char) : Form :=
  let hasLineFeed := cs.contains '\n'
  let hasControl := cs.any fun c => isControl c && c != '\n'
  let hasBackslash := cs.contains '\\'
  let doubles := longestRun '"' 0 cs
  let singles := longestRun '\x27' 0 cs
  if hasControl then ⟨.basic, hasLineFeed⟩
  else if !hasBackslash && doubles == 0 && !hasLineFeed then ⟨.basic, false⟩
  else if singles == 0 && !hasLineFeed then ⟨.literal, false⟩
  else if !hasBackslash && doubles ≤ 2 then ⟨.basic, true⟩
  else if singles ≤ 2 then ⟨.literal, true⟩
  else ⟨.basic, hasLineFeed⟩

/-- A text in the given form. A block that has ends of lines starts with one that is not part of
the text. -/
def writeAs (form : Form) (cs : List Char) : List Char :=
  let body := match form.quote with
    | .basic => escapedChars form.isBlock (if form.isBlock then 2 else 0) 0 cs
    | .literal => cs
  if form.isBlock then
    form.quote.fence ++ (if cs.contains '\n' then ['\n'] else []) ++ body ++ form.quote.fence
  else form.quote.mark :: body ++ [form.quote.mark]

/-- A text between quotes. -/
def write (s : String) : List Char := writeAs (formOf s.toList) s.toList

end Quoted

end SharedSession.Toml
