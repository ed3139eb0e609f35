import SharedSession.Proofs.Toml.Scalars
import SharedSession.Toml.Document

set_option autoImplicit false

/-!
# Documents written line by line

A document whose lines are entries with plain names, blank lines and headers is read as these
statements, one after another: `Lays` describes such a text by its first line and the rest, and
reading follows it. What the statements of such a document make up is the table of the entries in
front of the header, with the table that the header opens behind them.

Main statements: `statements?_of_lays`, `Document.run_entries` and `Document.run_entriesBelow`.
-/

namespace SharedSession.Toml

variable {name : String} {written cs rest : List Char} {v : Value}

/-! ## Plain names -/

/-- A name that needs no quotes. -/
structure IsPlainName (name : String) : Prop where
  ne_nil : name.toList ≠ []
  all_isNameChar : name.toList.all isNameChar = true

theorem ne_of_isNameChar {c d : Char} (hc : isNameChar c = true) (hd : isNameChar d = false) :
    c ≠ d := by
  rintro rfl
  rw [hd] at hc
  cases hc

theorem IsPlainName.exists_cons (h : IsPlainName name) :
    ∃ c t, name.toList = c :: t ∧ isNameChar c = true ∧ t.all isNameChar = true := by
  obtain ⟨c, t, heq⟩ := List.exists_cons_of_ne_nil h.ne_nil
  have hall := h.all_isNameChar
  rw [heq, List.all_cons, Bool.and_eq_true] at hall
  exact ⟨c, t, heq, hall.1, hall.2⟩

/-- No character that must be quoted stands in front. -/
theorem IsPlainName.ne_cons (h : IsPlainName name) {d : Char} {tail : List Char}
    (hd : isNameChar d = false) : name.toList ++ rest ≠ d :: tail := by
  obtain ⟨c, t, heq, hc, -⟩ := h.exists_cons
  rw [heq]
  exact fun hcons => ne_of_isNameChar hc hd (List.cons.inj hcons).1

theorem isSpace_of_isNameChar {c : Char} (h : isNameChar c = true) : isSpace c = false := by
  simp [isSpace, ne_of_isNameChar h (d := ' ') rfl, ne_of_isNameChar h (d := '\t') rfl]

theorem skipSpaces_of_not_isSpace {c : Char} (h : isSpace c = false) (rest : List Char) :
    skipSpaces (c :: rest) = c :: rest :=
  List.dropWhile_cons_of_neg (by simp [h])

/-- A plain name is read up to the first character that cannot belong to it. -/
theorem readName?_plain (h : IsPlainName name) {d : Char} (hd : isNameChar d = false) :
    readName? (name.toList ++ d :: rest) = some (name, d :: rest) := by
  obtain ⟨c, t, heq, hc, ht⟩ := h.exists_cons
  have hall : ∀ x ∈ t, isNameChar x = true := List.all_eq_true.1 ht
  rw [heq, List.cons_append, readName?, if_neg (ne_of_isNameChar hc rfl),
    if_neg (ne_of_isNameChar hc rfl), if_pos hc, List.takeWhile_append_of_pos hall,
    List.dropWhile_append_of_pos hall, List.takeWhile_cons_of_neg (by simp [hd]),
    List.dropWhile_cons_of_neg (by simp [hd]), List.append_nil, ← heq, String.ofList_toList]

/-- A plain name is read as a key of one name, if no point follows. -/
theorem readKey?_plain (h : IsPlainName name) {d e : Char} (hd : isNameChar d = false)
    (hskip : skipSpaces (d :: rest) = e :: cs) (he : e ≠ '.') :
    readKey? (name.toList ++ d :: rest) = some (⟨[], name⟩, e :: cs) := by
  obtain ⟨c, t, heq, hc, -⟩ := h.exists_cons
  have hfront : skipSpaces (name.toList ++ d :: rest) = name.toList ++ d :: rest := by
    rw [heq]
    exact skipSpaces_of_not_isSpace (isSpace_of_isNameChar hc) _
  have hnames : readNames? (nestingLimit - 1) (name.toList ++ d :: rest)
      = some ([name], e :: cs) := by
    show readNames? (78 + 1) _ = _
    rw [readNames?, hfront, readName?_plain h hd]
    simp only [Option.bind_eq_bind, Option.bind_some, hskip]
    split
    · next heq => exact absurd (List.cons.inj heq).1 he
    · rfl
  rw [readKey?, hnames]
  rfl

/-! ## Lines -/

/-- The line of an entry. -/
def entryLine (name : String) (written : List Char) : List Char :=
  name.toList ++ [' ', '=', ' '] ++ written ++ ['\n']

/-- The line of a header. -/
def headerLine (name : String) : List Char := ['['] ++ name.toList ++ [']', '\n']

theorem restOfLine?_lineFeed (rest : List Char) : restOfLine? ('\n' :: rest) = some rest := rfl

/-- A value that holds no others is read at any depth. -/
theorem readValue?_of_shows (h : Shows written v) (depth : Nat) (rest : List Char) :
    readValue? depth (written ++ '\n' :: rest) = some (v, '\n' :: rest) := by
  obtain ⟨c, t, heq, hbracket, hbrace, -⟩ := h.exists_cons
  have hread := h.readScalar? rest
  rw [heq] at hread ⊢
  cases depth with
  | zero => exact hread
  | succ depth =>
    unfold readValue?
    split
    · next hcons => exact absurd (List.cons.inj hcons).1 hbracket
    · next hcons => exact absurd (List.cons.inj hcons).1 hbrace
    · exact hread

theorem readStatement?_entryLine (hname : IsPlainName name) (hv : Shows written v)
    (rest : List Char) :
    readStatement? (entryLine name written ++ rest)
      = some (.entry ⟨[], name⟩ v, '\n' :: rest) := by
  obtain ⟨d, u, hwritten, -, -, hd⟩ := hv.exists_cons
  have htext : entryLine name written ++ rest
      = name.toList ++ ' ' :: '=' :: ' ' :: (written ++ '\n' :: rest) := by
    simp [entryLine]
  have hskip : skipSpaces (' ' :: (written ++ '\n' :: rest)) = written ++ '\n' :: rest := by
    rw [hwritten]
    exact skipSpaces_of_not_isSpace hd _
  have hpair : readPair? (readValue? (nestingLimit - 1)) (entryLine name written ++ rest)
      = some ((⟨[], name⟩, v), '\n' :: rest) := by
    rw [htext, readPair?, readKey?_plain hname rfl rfl (by decide)]
    simp only [Option.bind_eq_bind, Option.bind_some, hskip, readValue?_of_shows hv]
    rfl
  unfold readStatement?
  split
  · next hcons => exact absurd (htext ▸ hcons) (hname.ne_cons rfl)
  · next hcons => exact absurd (htext ▸ hcons) (hname.ne_cons rfl)
  · rw [hpair]
    rfl

theorem readStatement?_headerLine (hname : IsPlainName name) (rest : List Char) :
    readStatement? (headerLine name ++ rest) = some (.header ⟨[], name⟩, '\n' :: rest) := by
  have htext : headerLine name ++ rest = '[' :: (name.toList ++ ']' :: '\n' :: rest) := by
    simp [headerLine]
  have hkey : readHeader? [']'] (name.toList ++ ']' :: '\n' :: rest)
      = some (⟨[], name⟩, '\n' :: rest) := by
    rw [readHeader?, readKey?_plain hname rfl rfl (by decide)]
    rfl
  rw [htext]
  unfold readStatement?
  split
  · next hcons => exact absurd (List.cons.inj hcons).2 (hname.ne_cons rfl)
  · next hcons =>
    rw [← (List.cons.inj hcons).2, hkey]
    rfl
  · next hcons => exact absurd rfl (hcons _)

/-! ## Documents -/

/-- How a text is laid out in lines, and the statements in it. -/
inductive Lays : List Char → List Statement → Prop where
  | nil : Lays [] []
  | blank {cs : List Char} {ss : List Statement} (h : Lays cs ss) : Lays ('\n' :: cs) ss
  | entry {name : String} {written cs : List Char} {v : Value} {ss : List Statement}
      (hname : IsPlainName name) (hv : Shows written v) (h : Lays cs ss) :
      Lays (entryLine name written ++ cs) (.entry ⟨[], name⟩ v :: ss)
  | header {name : String} {cs : List Char} {ss : List Statement}
      (hname : IsPlainName name) (h : Lays cs ss) :
      Lays (headerLine name ++ cs) (.header ⟨[], name⟩ :: ss)

/-- Whether a statement may start with a character. -/
def IsOpening (c : Char) : Prop := isNameChar c = true ∨ c = '['

theorem IsOpening.ne {c d : Char} (h : IsOpening c) (hd : isNameChar d = false) (hne : d ≠ '[') :
    c ≠ d := by
  rcases h with h | rfl
  · exact ne_of_isNameChar h hd
  · exact hne.symm

theorem entryLine_eq_cons (hname : IsPlainName name) (written : List Char) :
    ∃ c t, entryLine name written = c :: t ∧ IsOpening c := by
  obtain ⟨c, t, heq, hc, -⟩ := hname.exists_cons
  exact ⟨c, t ++ [' ', '=', ' '] ++ written ++ ['\n'], by simp [entryLine, heq], .inl hc⟩

theorem headerLine_eq_cons (name : String) : ∃ c t, headerLine name = c :: t ∧ IsOpening c :=
  ⟨'[', _, rfl, .inr rfl⟩

/-- A line with a statement is read as the statement, and reading goes on behind the line. -/
theorem readStatements?_line {line : List Char} {s : Statement}
    (hline : ∃ c t, line = c :: t ∧ IsOpening c)
    (hread : readStatement? (line ++ rest) = some (s, '\n' :: rest)) (fuel : Nat) :
    readStatements? (fuel + 1) (line ++ rest) = (readStatements? fuel rest).map (s :: ·) := by
  obtain ⟨c, t, rfl, hc⟩ := hline
  have hspace : isSpace c = false := by
    simp [isSpace, hc.ne (d := ' ') rfl (by decide), hc.ne (d := '\t') rfl (by decide)]
  have hfront : skipSpaces (c :: t ++ rest) = c :: t ++ rest :=
    skipSpaces_of_not_isSpace hspace _
  have hcomment : skipComment (c :: t ++ rest) = c :: t ++ rest := by
    unfold skipComment
    split
    · next hcons => exact absurd (List.cons.inj hcons).1 (hc.ne rfl (by decide))
    · rfl
  have hrest : restOfLine? (c :: t ++ rest) = none := by
    rw [restOfLine?, hfront, hcomment]
    exact Quoted.lineEnd?_eq_none (hc.ne rfl (by decide)) (hc.ne rfl (by decide)) _
  rw [readStatements?, hfront]
  simp only [List.cons_append] at hread hrest ⊢
  simp only [hrest, hread, Option.bind_eq_bind, Option.bind_some, restOfLine?_lineFeed]
  cases readStatements? fuel rest <;> rfl

theorem length_lt_entryLine (name : String) (written cs : List Char) :
    cs.length < (entryLine name written ++ cs).length := by
  simp only [entryLine, List.length_append, List.length_cons, List.length_nil]
  omega

theorem length_lt_headerLine (name : String) (cs : List Char) :
    cs.length < (headerLine name ++ cs).length := by
  simp only [headerLine, List.length_append, List.length_cons, List.length_nil]
  omega

/-- Reading follows the lines. -/
theorem readStatements?_of_lays {ss : List Statement} (h : Lays cs ss) {fuel : Nat}
    (hfuel : cs.length < fuel) : readStatements? fuel cs = some ss := by
  induction h generalizing fuel with
  | nil =>
    obtain ⟨fuel, rfl⟩ := Nat.exists_eq_add_one.2 (Nat.zero_lt_of_lt hfuel)
    rfl
  | blank h ih =>
    obtain ⟨fuel, rfl⟩ := Nat.exists_eq_add_one.2 (Nat.zero_lt_of_lt hfuel)
    exact @ih fuel (by simpa using hfuel)
  | @entry name written cs v ss hname hv h ih =>
    obtain ⟨fuel, rfl⟩ := Nat.exists_eq_add_one.2 (Nat.zero_lt_of_lt hfuel)
    have := length_lt_entryLine name written cs
    rw [readStatements?_line (entryLine_eq_cons hname written)
      (readStatement?_entryLine hname hv cs), ih (by omega), Option.map_some]
  | @header name cs ss hname h ih =>
    obtain ⟨fuel, rfl⟩ := Nat.exists_eq_add_one.2 (Nat.zero_lt_of_lt hfuel)
    have := length_lt_headerLine name cs
    rw [readStatements?_line (headerLine_eq_cons name) (readStatement?_headerLine hname cs),
      ih (by omega), Option.map_some]

/-- No mark stands at the start of a text that is laid out in lines. -/
theorem skipMark_of_lays {ss : List Statement} (h : Lays cs ss) : skipMark cs = cs := by
  have hopening : ∀ {c t}, cs = c :: t → IsOpening c → skipMark cs = cs := by
    rintro c t rfl hc
    exact if_neg (hc.ne rfl (by decide))
  cases h with
  | nil => rfl
  | blank _ => rfl
  | entry hname _ _ =>
    obtain ⟨c, t, heq, hc⟩ := entryLine_eq_cons hname _
    exact hopening (by rw [heq]; rfl) hc
  | header _ _ => exact hopening rfl (.inr rfl)

/-- A text that is laid out in lines is read as the statements in them. -/
theorem statements?_of_lays {text : String} {ss : List Statement} (h : Lays text.toList ss) :
    statements? text = some ss := by
  simp only [statements?, skipMark_of_lays h]
  exact readStatements?_of_lays h (Nat.lt_succ_self _)

/-! ## The table of a document -/

namespace Table

variable {t : Table}

theorem get?_eq_none (h : name ∉ t.map (·.1)) : t.get? name = none := by
  rw [get?, List.lookup_eq_none_iff]
  intro e he
  rw [bne_iff_ne]
  rintro rfl
  exact h (List.mem_map_of_mem he)

theorem get?_append_self (h : name ∉ t.map (·.1)) (v : Value) :
    get? (t ++ [(name, v)]) name = some v := by
  have hfront := get?_eq_none h
  rw [get?] at hfront
  rw [get?, List.lookup_append, hfront, Option.none_or, List.lookup_cons_self]

/-- Putting another value under the last name. -/
theorem put_append_self (h : name ∉ t.map (·.1)) (v w : Value) :
    put (t ++ [(name, v)]) name w = t ++ [(name, w)] := by
  have hfront : ∀ e ∈ t, (if e.1 == name then (name, w) else e) = e := by
    intro e he
    rw [if_neg]
    rw [beq_iff_eq]
    rintro rfl
    exact h (List.mem_map_of_mem he)
  rw [put, get?_append_self h, Option.isSome_some, if_pos rfl, List.map_append,
    List.map_congr_left hfront, List.map_id']
  simp

theorem insert_new (h : name ∉ t.map (·.1)) (v : Value) :
    insert [] name v t = some (t ++ [(name, v)]) := by
  rw [insert, get?_eq_none h]
  rfl

end Table

/-- The statement that puts a value under a name of its own. -/
def Statement.plain (e : String × Value) : Statement := .entry ⟨[], e.1⟩ e.2

namespace Document

variable {t below : Table}

theorem run_append (d : Document) (ss ts : List Statement) :
    d.run (ss ++ ts) = (d.run ss).bind fun d => d.run ts := List.foldlM_append

/-- Entries go one behind another into the table that the last header opened, where `place` puts
that table into the document. -/
theorem run_plain (place : Table → Document)
    (hstep : ∀ t e, e.1 ∉ t.map (·.1) → (place t).step (.plain e) = some (place (t ++ [e])))
    {entries : Table} (h : ((t ++ entries).map (·.1)).Nodup) :
    (place t).run (entries.map .plain) = some (place (t ++ entries)) := by
  induction entries generalizing t with
  | nil => rw [List.append_nil]; rfl
  | cons e entries ih =>
    have hnew : e.1 ∉ t.map (·.1) := by
      rw [List.map_append, List.nodup_append] at h
      exact fun hmem => h.2.2 e.1 hmem e.1 List.mem_cons_self rfl
    have hjoin : t ++ e :: entries = t ++ [e] ++ entries := List.append_cons t e entries
    rw [List.map_cons, run, List.foldlM_cons, hstep t e hnew, hjoin]
    exact ih (hjoin ▸ h)

theorem step_plain {e : String × Value} (h : e.1 ∉ t.map (·.1)) :
    step ⟨t, []⟩ (.plain e) = some ⟨t ++ [e], []⟩ := by
  rw [Statement.plain, step, Table.modifyAt, Table.insert_new h]
  rfl

theorem step_header (h : name ∉ t.map (·.1)) :
    step ⟨t, []⟩ (.header ⟨[], name⟩) = some ⟨t ++ [(name, .table .header [])], [name]⟩ := by
  rw [step, Table.modifyAt, Table.openTable, Table.get?_eq_none h]
  rfl

theorem step_plain_below (hname : name ∉ t.map (·.1)) {e : String × Value}
    (h : e.1 ∉ below.map (·.1)) :
    step ⟨t ++ [(name, .table .header below)], [name]⟩ (.plain e)
      = some ⟨t ++ [(name, .table .header (below ++ [e]))], [name]⟩ := by
  rw [Statement.plain, step, Table.modifyAt, Table.get?_append_self hname]
  simp only [Table.modifyAt, Table.insert_new h, Option.map_some, Table.put_append_self hname]

end Document

/-- The table of a document with entries, a header and entries under it. -/
theorem Table.ofText?_of_lays {text : String} {t below : Table}
    (h : Lays text.toList
      (t.map .plain ++ .header ⟨[], name⟩ :: below.map .plain))
    (ht : (t.map (·.1)).Nodup) (hname : name ∉ t.map (·.1)) (hbelow : (below.map (·.1)).Nodup) :
    Table.ofText? text = some (t ++ [(name, .table .header below)]) := by
  have htop : Document.empty.run (t.map .plain) = some ⟨t, []⟩ :=
    Document.run_plain (fun t => ⟨t, []⟩) (t := []) (fun _ _ => Document.step_plain) ht
  have hrest : (Document.mk t []).run (.header ⟨[], name⟩ :: below.map .plain)
      = some ⟨t ++ [(name, .table .header below)], [name]⟩ := by
    rw [Document.run, List.foldlM_cons, Document.step_header hname]
    exact Document.run_plain (fun b => ⟨t ++ [(name, .table .header b)], [name]⟩) (t := [])
      (fun _ _ => Document.step_plain_below hname) hbelow
  rw [Table.ofText?, statements?_of_lays h, Option.bind_some, Document.run_append, htop,
    Option.bind_some, hrest]
  rfl

end SharedSession.Toml
