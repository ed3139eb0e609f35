import Mathlib.Tactic.SplitIfs
import SharedSession.Toml.Quoted

set_option autoImplicit false

/-!
# Quoted text reads back

Whatever text is written between quotes, reading gives it back, and what stands behind it is not
touched. Between double quotes every text can be written: a character that could not stand for
itself is escaped. Between single quotes nothing is escaped, so they are chosen only for texts whose
characters all stand for themselves.

In a block the marks of the quote itself need care. Up to two in a row stand for themselves, and at
the end such a run goes over into the closing marks without a gap, so a run is read as a whole:
`Spells` says how a body is made up, with the number of marks in front of it, and the induction over
it carries that number along.

Main statements: `Quoted.readBlock?_of_spells` and `Quoted.readsBack_write`.
-/

namespace SharedSession.Toml.Quoted

variable {q : Quote} {c e : Char} {cs v w rest tail : List Char} {run : Nat}

/-! ## Characters between the marks -/

/-- A character in front of what was read. -/
def push (c : Char) (p : Option (List Char × List Char)) : Option (List Char × List Char) :=
  p.map fun p => (c :: p.1, p.2)

theorem ne_mark_of_isPlain (h : q.isPlain c = true) : c ≠ q.mark := by
  rintro rfl
  simp [Quote.isPlain] at h

theorem readLine?_mark (q : Quote) (rest : List Char) :
    readLine? q (q.mark :: rest) = some ([], rest) := by
  rw [readLine?, if_pos rfl]

theorem readLine?_of_isPlain (h : q.isPlain c = true) (rest : List Char) :
    readLine? q (c :: rest) = push c (readLine? q rest) := by
  rw [readLine?, if_neg (ne_mark_of_isPlain h), if_pos h, push]

theorem readLine?_of_escape (h : readEscape? rest = some (e, tail)) :
    readLine? .basic ('\\' :: rest) = push e (readLine? .basic tail) := by
  rw [readLine?, if_neg (by decide), if_neg (by decide), if_pos rfl]
  split
  · next hnone => rw [h] at hnone; cases hnone
  · next hsome =>
    rw [h] at hsome
    cases hsome
    rfl

/-- A block goes on where no three marks stand. -/
theorem closing?_of_ne_mark (h : c ≠ q.mark) (rest : List Char) :
    closing? q (c :: rest) = none := by
  simp [closing?, h]

theorem readBlock?_of_closing {p : List Char × List Char} (h : closing? q rest = some p) :
    readBlock? q rest = some p := by
  cases rest with
  | nil => simp [closing?] at h
  | cons c rest => rw [readBlock?, h]

theorem readBlock?_of_mark (h : closing? q (q.mark :: rest) = none) :
    readBlock? q (q.mark :: rest) = push q.mark (readBlock? q rest) := by
  rw [readBlock?, h]
  simp only [true_or, if_true, push]

theorem readBlock?_of_isPlain (h : q.isPlain c = true) (rest : List Char) :
    readBlock? q (c :: rest) = push c (readBlock? q rest) := by
  rw [readBlock?, closing?_of_ne_mark (ne_mark_of_isPlain h)]
  simp only [h, or_true, if_true, push]

/-- An end of line stands for itself in a block. -/
theorem readBlock?_lineFeed (q : Quote) (rest : List Char) :
    readBlock? q ('\n' :: rest) = push '\n' (readBlock? q rest) := by
  have hmark : '\n' ≠ q.mark := by cases q <;> decide
  have hplain : q.isPlain '\n' = false := by cases q <;> decide
  rw [readBlock?, closing?_of_ne_mark hmark]
  simp only [hmark, hplain, Bool.false_eq_true, or_self, if_false, show ¬ '\n' = '\\' by decide]
  rfl

theorem readBlock?_of_escape (hcont : continuation? rest = none)
    (h : readEscape? rest = some (e, tail)) :
    readBlock? .basic ('\\' :: rest) = push e (readBlock? .basic tail) := by
  have hplain : Quote.basic.isPlain '\\' = false := by decide
  rw [readBlock?, closing?_of_ne_mark (by decide)]
  simp only [hplain, show ¬ '\\' = Quote.basic.mark by decide, Bool.false_eq_true, or_self,
    if_false, if_true]
  split
  · next hsome => rw [hcont] at hsome; cases hsome
  · split
    · next hnone => rw [h] at hnone; cases hnone
    · next hsome =>
      rw [h] at hsome
      cases hsome
      rfl

/-! ## Escapes -/

theorem toNat_of_isControl (h : isControl c = true) : c.toNat < 128 := by
  rw [isControl, Bool.or_eq_true, Bool.and_eq_true, decide_eq_true_eq, beq_iff_eq] at h
  rcases h with ⟨hlow, -⟩ | rfl
  · have : c.toNat < 32 := hlow
    omega
  · decide

/-- A code below 128 is read back from its two digits. -/
theorem readEscape?_code (h : c.toNat < 128) (rest : List Char) :
    readEscape? ('u' :: '0' :: '0' :: Text.upperHexDigit (c.toNat / 16)
      :: Text.upperHexDigit (c.toNat % 16) :: rest) = some (c, rest) := by
  have hvalue : ∀ n < 128, Text.hexValue? ['0', '0', Text.upperHexDigit (n / 16),
      Text.upperHexDigit (n % 16)] = some n := by decide
  have hchar : ∀ n < 128, Text.charOfCode? n = some (Char.ofNat n) := by decide
  rw [readEscape?, if_pos rfl, codeEscape?, if_neg (by simp)]
  simp only [List.take_succ_cons, List.take_zero, List.drop_succ_cons, List.drop_zero]
  rw [hvalue _ h, Option.bind_some, hchar _ h, Option.map_some, Char.ofNat_toNat]

theorem lineEnd?_eq_none (hfeed : c ≠ '\n') (hreturn : c ≠ '\r') (rest : List Char) :
    lineEnd? (c :: rest) = none := by
  unfold lineEnd?
  split
  · next heq => exact absurd (List.cons.inj heq).1 hfeed
  · next heq => exact absurd (List.cons.inj heq).1 hreturn
  · rfl

/-- Behind a backslash that ends no line the text does not go on elsewhere. -/
theorem continuation?_cons (hspace : isSpace c = false) (hfeed : c ≠ '\n') (hreturn : c ≠ '\r')
    (rest : List Char) : continuation? (c :: rest) = none := by
  rw [continuation?, skipSpaces, List.dropWhile_cons_of_neg (by simp [hspace]),
    lineEnd?_eq_none hfeed hreturn, Option.map_none]

/-- A character is written as it is, or as an escape that stands for it. -/
inductive Escaped (c : Char) : List Char → Prop where
  | plain (h : Quote.basic.isPlain c = true) : Escaped c [c]
  | escape {body : List Char} (hcont : ∀ rest, continuation? (body ++ rest) = none)
      (hread : ∀ rest, readEscape? (body ++ rest) = some (c, rest)) : Escaped c ('\\' :: body)

/-- The letters of escapes. -/
def escapeLetters : List Char := ['"', '\\', 'b', 't', 'n', 'f', 'r']

theorem escaped_letter {letter : Char} (hmem : letter ∈ escapeLetters)
    (h : letterEscape? letter = some c) : Escaped c ['\\', letter] := by
  obtain ⟨hspace, hfeed, hreturn, hu, hU⟩ : isSpace letter = false ∧ letter ≠ '\n'
      ∧ letter ≠ '\r' ∧ letter ≠ 'u' ∧ letter ≠ 'U' := by
    simp only [escapeLetters, List.mem_cons, List.not_mem_nil, or_false] at hmem
    rcases hmem with rfl | rfl | rfl | rfl | rfl | rfl | rfl <;> decide
  refine .escape (continuation?_cons hspace hfeed hreturn) fun rest => ?_
  rw [List.singleton_append, readEscape?, if_neg hu, if_neg hU, h, Option.map_some]

/-- Which written form a character has. -/
theorem escaped_cases (c : Char) :
    (∃ letter ∈ escapeLetters, letterEscape? letter = some c ∧ escaped c = ['\\', letter])
      ∨ (isControl c = true ∧ escaped c = ['\\', 'u', '0', '0', Text.upperHexDigit (c.toNat / 16),
          Text.upperHexDigit (c.toNat % 16)])
      ∨ (isControl c = false ∧ c ≠ '\\' ∧ escaped c = [c]) := by
  have hletter : ∀ letter ∈ escapeLetters, letterEscape? letter = some c →
      ∃ l ∈ escapeLetters, letterEscape? l = some c ∧ ['\\', letter] = ['\\', l] :=
    fun letter hmem h => ⟨letter, hmem, h, rfl⟩
  unfold escaped
  split_ifs with hb ht hn hf hr hbackslash hcontrol
  · exact .inl (hletter 'b' (by decide) (hb ▸ rfl))
  · exact .inl (hletter 't' (by decide) (ht ▸ rfl))
  · exact .inl (hletter 'n' (by decide) (hn ▸ rfl))
  · exact .inl (hletter 'f' (by decide) (hf ▸ rfl))
  · exact .inl (hletter 'r' (by decide) (hr ▸ rfl))
  · exact .inl (hletter '\\' (by decide) (by rw [hbackslash]; rfl))
  · exact .inr (.inl ⟨hcontrol, rfl⟩)
  · exact .inr (.inr ⟨Bool.eq_false_iff.2 hcontrol, hbackslash, rfl⟩)

theorem escaped_quote : Escaped '"' ['\\', '"'] := escaped_letter (by decide) rfl

/-- Every character but the quote has a written form between double quotes. -/
theorem escaped_escaped (h : c ≠ '"') : Escaped c (escaped c) := by
  rcases escaped_cases c with
    ⟨letter, hmem, hletter, heq⟩ | ⟨hcontrol, heq⟩ | ⟨hcontrol, hback, heq⟩
  · exact heq ▸ escaped_letter hmem hletter
  · exact heq ▸ .escape (fun rest => continuation?_cons rfl (by decide) (by decide) _)
      (readEscape?_code (toNat_of_isControl hcontrol))
  · exact heq ▸ .plain (by simp [Quote.isPlain, Quote.mark, hcontrol, hback, h])

theorem Escaped.readLine? (h : Escaped c v) (rest : List Char) :
    readLine? .basic (v ++ rest) = push c (Quoted.readLine? .basic rest) := by
  cases h with
  | plain h => exact readLine?_of_isPlain h rest
  | escape _ hread => exact readLine?_of_escape (hread rest)

theorem Escaped.readBlock? (h : Escaped c v) (rest : List Char) :
    readBlock? .basic (v ++ rest) = push c (Quoted.readBlock? .basic rest) := by
  cases h with
  | plain h => exact readBlock?_of_isPlain h rest
  | escape hcont hread => exact readBlock?_of_escape (hcont rest) (hread rest)

/-- A written form starts neither with the quote nor with an end of line. -/
theorem Escaped.exists_cons (h : Escaped c v) :
    ∃ a t, v = a :: t ∧ a ≠ '"' ∧ a ≠ '\n' ∧ a ≠ '\r' := by
  cases h with
  | plain h =>
    refine ⟨c, [], rfl, ne_mark_of_isPlain h, ?_, ?_⟩ <;> rintro rfl <;> revert h <;> decide
  | escape _ _ => exact ⟨'\\', _, rfl, by decide, by decide, by decide⟩

/-! ## Texts of one line -/

/-- What is written between double quotes in one line is read up to the closing one. -/
theorem readLine?_escapedChars (run : Nat) (cs rest : List Char) :
    readLine? .basic (escapedChars false 0 run cs ++ '"' :: rest) = some (cs, rest) := by
  induction cs generalizing run with
  | nil => exact readLine?_mark .basic rest
  | cons c cs ih =>
    have hread : ∀ {v}, Escaped c v → ∀ run, readLine? .basic
        (v ++ escapedChars false 0 run cs ++ '"' :: rest) = some (c :: cs, rest) := by
      intro v hv run
      rw [List.append_assoc, hv.readLine?, ih]
      rfl
    by_cases hc : c = '"'
    · subst hc
      rw [escapedChars, if_pos rfl, if_pos (Nat.zero_le run)]
      exact hread escaped_quote 0
    · rw [escapedChars, if_neg hc, if_neg (by simp)]
      exact hread (escaped_escaped hc) 0

/-- Characters that stand for themselves are read up to the closing mark. -/
theorem readLine?_of_forall_isPlain (h : ∀ c ∈ cs, q.isPlain c = true) (rest : List Char) :
    readLine? q (cs ++ q.mark :: rest) = some (cs, rest) := by
  induction cs with
  | nil => exact readLine?_mark q rest
  | cons c cs ih =>
    rw [List.cons_append, readLine?_of_isPlain (h c List.mem_cons_self),
      ih fun d hd => h d (List.mem_cons_of_mem _ hd)]
    rfl

/-! ## Blocks -/

/-- A written form of a character in a block: reading takes it for the character. It does not start
with a mark, and with an end of line only if the character is one. -/
structure StandsFor (q : Quote) (c : Char) (v : List Char) : Prop where
  exists_cons : ∃ a t, v = a :: t ∧ a ≠ q.mark ∧ (a = '\n' → c = '\n') ∧ a ≠ '\r'
  readBlock? : ∀ rest, readBlock? q (v ++ rest) = push c (Quoted.readBlock? q rest)

theorem Escaped.standsFor (h : Escaped c v) : StandsFor .basic c v := by
  obtain ⟨a, t, heq, hmark, hfeed, hreturn⟩ := h.exists_cons
  exact ⟨⟨a, t, heq, hmark, fun hn => absurd hn hfeed, hreturn⟩, h.readBlock?⟩

theorem standsFor_of_isPlain (h : q.isPlain c = true) : StandsFor q c [c] := by
  refine ⟨⟨c, [], rfl, ne_mark_of_isPlain h, id, ?_⟩, readBlock?_of_isPlain h⟩
  rintro rfl
  revert h
  cases q <;> decide

theorem standsFor_lineFeed (q : Quote) : StandsFor q '\n' ['\n'] :=
  ⟨⟨'\n', [], rfl, by cases q <;> decide, id, by decide⟩, readBlock?_lineFeed q⟩

/-- How the body of a block spells a text, where `run` marks stand in front of it: a mark for itself
if it is at most the second in a row, any other character by a written form. -/
inductive Spells (q : Quote) : Nat → List Char → List Char → Prop where
  | nil {run : Nat} : Spells q run [] []
  | mark {run : Nat} {cs w : List Char} (hrun : run < 2) (h : Spells q (run + 1) cs w) :
      Spells q run (q.mark :: cs) (q.mark :: w)
  | char {run : Nat} {c : Char} {v cs w : List Char} (hv : StandsFor q c v) (h : Spells q 0 cs w) :
      Spells q run (c :: cs) (v ++ w)

/-- Marks in front of another character. -/
theorem takeWhile_marks (n : Nat) (hrest : rest.head? ≠ some q.mark) :
    (List.replicate n q.mark ++ rest).takeWhile (· == q.mark) = List.replicate n q.mark := by
  have hnil : rest.takeWhile (· == q.mark) = [] := by
    cases rest with
    | nil => rfl
    | cons c rest => simp_all
  rw [List.takeWhile_append_of_pos (by simp +contextual), hnil, List.append_nil]

/-- Up to two marks in a row are read as such. -/
theorem readBlock?_marks {n : Nat} (hn : n ≤ 2) (hrest : rest.head? ≠ some q.mark) :
    readBlock? q (List.replicate n q.mark ++ rest)
      = (readBlock? q rest).map fun p => (List.replicate n q.mark ++ p.1, p.2) := by
  induction n with
  | zero => simp
  | succ n ih =>
    have hclosing : closing? q (List.replicate (n + 1) q.mark ++ rest) = none := by
      simp only [closing?, takeWhile_marks (n + 1) hrest, List.length_replicate]
      exact if_pos (by omega)
    rw [List.replicate_succ, List.cons_append] at hclosing ⊢
    rw [readBlock?_of_mark hclosing, ih (by omega), push, Option.map_map]
    rfl

/-- Of the marks at the end the last three close the block. -/
theorem readBlock?_fence {n : Nat} (hn : n ≤ 2) (hrest : rest.head? ≠ some q.mark) :
    readBlock? q (List.replicate n q.mark ++ (q.fence ++ rest))
      = some (List.replicate n q.mark, rest) := by
  have hfence : List.replicate n q.mark ++ (q.fence ++ rest)
      = List.replicate (n + 3) q.mark ++ rest := by
    rw [← List.append_assoc, List.replicate_append_replicate.symm]
    rfl
  refine readBlock?_of_closing ?_
  simp only [hfence, closing?, takeWhile_marks _ hrest, List.length_replicate]
  rw [if_neg (by omega), Nat.min_eq_left (by omega), Nat.add_sub_cancel,
    List.drop_left' (List.length_replicate)]

/-- A block is read as the text that its body spells. -/
theorem readBlock?_of_spells (h : Spells q run cs w) (hrun : run ≤ 2)
    (hrest : rest.head? ≠ some q.mark) :
    readBlock? q (List.replicate run q.mark ++ (w ++ (q.fence ++ rest)))
      = some (List.replicate run q.mark ++ cs, rest) := by
  induction h with
  | nil => simpa using readBlock?_fence hrun hrest
  | @mark run cs w hlt _ ih =>
    -- the mark joins those in front
    have hjoin : ∀ x, List.replicate run q.mark ++ q.mark :: x
        = List.replicate (run + 1) q.mark ++ x := by
      intro x
      rw [List.replicate_succ', List.append_assoc, List.singleton_append]
    rw [List.cons_append, hjoin, hjoin, ih (by omega)]
  | @char run c v cs w hv _ ih =>
    obtain ⟨a, t, rfl, hmark, -⟩ := hv.exists_cons
    have hhead : (a :: t ++ w ++ (q.fence ++ rest)).head? ≠ some q.mark := by simpa using hmark
    have htail := ih (Nat.zero_le 2)
    rw [List.replicate_zero, List.nil_append, List.nil_append] at htail
    rw [readBlock?_marks hrun hhead, List.append_assoc, hv.readBlock?, htail]
    rfl

/-- A body without a line feed does not start with an end of line. -/
theorem lineEnd?_of_spells (h : Spells q 0 cs w) (hfeed : '\n' ∉ cs) (rest : List Char) :
    lineEnd? (w ++ (q.fence ++ rest)) = none := by
  have hmark : lineEnd? (q.mark :: (w.drop 1 ++ (q.fence ++ rest))) = none := by
    cases q <;> exact lineEnd?_eq_none (by decide) (by decide) _
  cases h with
  | nil => cases q <;> exact lineEnd?_eq_none (by decide) (by decide) _
  | mark => exact hmark
  | char hv _ =>
    obtain ⟨a, t, rfl, -, ha, hreturn⟩ := hv.exists_cons
    refine lineEnd?_eq_none (fun hn => hfeed ?_) hreturn _
    rw [ha hn]
    exact List.mem_cons_self

/-- The body of a block between double quotes spells the text, whatever this is. -/
theorem spells_escapedChars (run : Nat) (cs : List Char) :
    Spells .basic run cs (escapedChars true 2 run cs) := by
  induction cs generalizing run with
  | nil => exact .nil
  | cons c cs ih =>
    by_cases hc : c = '"'
    · subst hc
      rw [escapedChars, if_pos rfl]
      split_ifs with hrun
      · exact .char escaped_quote.standsFor (ih 0)
      · exact .mark (by omega) (ih (run + 1))
    · rw [escapedChars, if_neg hc]
      split_ifs with hfeed
      · obtain ⟨-, rfl⟩ := hfeed
        exact .char (standsFor_lineFeed .basic) (ih 0)
      · exact .char (escaped_escaped hc).standsFor (ih 0)

/-! ## Texts that need no escape -/

theorem le_longestRun (mark : Char) (run : Nat) (cs : List Char) :
    run ≤ longestRun mark run cs := by
  induction cs generalizing run with
  | nil => exact Nat.le_refl run
  | cons c cs ih =>
    rw [longestRun]
    split_ifs
    · exact Nat.le_of_succ_le (ih (run + 1))
    · exact Nat.le_max_left _ _

/-- Without a run of marks there is no mark. -/
theorem not_mem_of_longestRun {mark : Char} (h : longestRun mark run cs = 0) : mark ∉ cs := by
  induction cs generalizing run with
  | nil => exact List.not_mem_nil
  | cons c cs ih =>
    rw [longestRun] at h
    split_ifs at h
    · have := le_longestRun mark (run + 1) cs
      omega
    · rw [List.mem_cons, not_or]
      exact ⟨Ne.symm ‹_›, ih (Nat.le_zero.1 (h ▸ Nat.le_max_right _ _))⟩

theorem isPlain_literal (hcontrol : isControl c = false) (hmark : c ≠ '\x27') :
    Quote.literal.isPlain c = true := by
  simp [Quote.isPlain, Quote.mark, hcontrol, hmark]

/-- A text whose marks come in runs of two at most spells itself between single quotes. -/
theorem spells_self (hcontrol : ∀ c ∈ cs, isControl c = true → c = '\n')
    (hmarks : longestRun '\x27' run cs ≤ 2) : Spells .literal run cs cs := by
  induction cs generalizing run with
  | nil => exact .nil
  | cons c cs ih =>
    have htail : ∀ {run}, longestRun '\x27' run cs ≤ 2 → Spells .literal run cs cs :=
      ih fun d hd => hcontrol d (List.mem_cons_of_mem _ hd)
    rw [longestRun] at hmarks
    split_ifs at hmarks with hc
    · subst hc
      have := le_longestRun '\x27' (run + 1) cs
      exact .mark (by omega) (htail hmarks)
    · have hv : StandsFor .literal c [c] := by
        by_cases hctl : isControl c = true
        · rw [hcontrol c List.mem_cons_self hctl]
          exact standsFor_lineFeed .literal
        · exact standsFor_of_isPlain (isPlain_literal (Bool.eq_false_iff.2 hctl) hc)
      exact .char hv (htail (by omega))

/-- Single quotes are chosen for texts without any control but the line feed: for one line if there
is no line feed and no mark, for a block if there are no more than two marks in a row. -/
theorem formOf_cases (cs : List Char) :
    (∃ isBlock, formOf cs = ⟨.basic, isBlock⟩)
      ∨ (∀ c ∈ cs, isControl c = true → c = '\n')
        ∧ ((formOf cs = ⟨.literal, false⟩ ∧ longestRun '\x27' 0 cs = 0 ∧ '\n' ∉ cs)
          ∨ (formOf cs = ⟨.literal, true⟩ ∧ longestRun '\x27' 0 cs ≤ 2)) := by
  have hcontrols : ¬ (cs.any fun c => isControl c && c != '\n') = true →
      ∀ c ∈ cs, isControl c = true → c = '\n' := by
    simp
  simp only [formOf]
  split_ifs with hcontrol _ hline _ hruns
  · exact .inl ⟨_, rfl⟩
  · exact .inl ⟨_, rfl⟩
  · exact .inr ⟨hcontrols hcontrol, .inl ⟨rfl, by simpa using hline⟩⟩
  · exact .inl ⟨_, rfl⟩
  · exact .inr ⟨hcontrols hcontrol, .inr ⟨rfl, hruns⟩⟩
  · exact .inl ⟨_, rfl⟩

/-! ## Reading what was written -/

/-- What is written is read as a text from behind the opening mark, and nothing behind it is
touched; only a further mark would be taken for a part of it. -/
def ReadsBack (v cs : List Char) : Prop :=
  ∃ (q : Quote) (body : List Char), v = q.mark :: body
    ∧ ∀ rest, rest.head? ≠ some q.mark → read? q (body ++ rest) = some (String.ofList cs, rest)

/-- A text in one line reads back. The body must not start with the mark, or else it would be taken
for a block. -/
theorem readsBack_line (h : ∀ rest, readLine? q (w ++ q.mark :: rest) = some (cs, rest))
    (hw : w.head? ≠ some q.mark) : ReadsBack (q.mark :: w ++ [q.mark]) cs := by
  refine ⟨q, w ++ [q.mark], rfl, fun rest hrest => ?_⟩
  rw [List.append_assoc, List.singleton_append]
  have hline : readInLine? q (w ++ q.mark :: rest) = some (String.ofList cs, rest) := by
    rw [readInLine?, h]
    rfl
  unfold read?
  split
  · next a b tail heq =>
    rw [if_neg]
    · exact hline
    · rintro ⟨rfl, rfl⟩
      cases w with
      | nil => simp_all
      | cons a w => simp_all
  · exact hline

/-- A block reads back. The line feed behind the opening marks is passed over, and where none is
written the body does not start with one. -/
theorem readsBack_block (h : Spells q 0 cs w) :
    ReadsBack (q.fence ++ (if cs.contains '\n' then ['\n'] else []) ++ w ++ q.fence) cs := by
  refine ⟨q, _, rfl, fun rest hrest => ?_⟩
  have hskip :
      (lineEnd? ((if cs.contains '\n' then ['\n'] else []) ++ (w ++ (q.fence ++ rest)))).getD
          ((if cs.contains '\n' then ['\n'] else []) ++ (w ++ (q.fence ++ rest)))
        = w ++ (q.fence ++ rest) := by
    split_ifs with hfeed
    · rfl
    · rw [List.nil_append, lineEnd?_of_spells h (by simpa using hfeed), Option.getD_none]
  have hblock := readBlock?_of_spells h (Nat.zero_le 2) hrest
  rw [List.replicate_zero, List.nil_append, List.nil_append] at hblock
  simp only [List.append_eq, List.append_assoc, List.cons_append, List.nil_append, read?, and_self,
    if_true]
  rw [hskip, hblock]
  rfl

theorem head?_escapedChars (run : Nat) (cs : List Char) :
    (escapedChars false 0 run cs).head? ≠ some '"' := by
  cases cs with
  | nil => simp [escapedChars]
  | cons c cs =>
    by_cases hc : c = '"'
    · simp [escapedChars, hc]
    · obtain ⟨a, t, heq, ha, -⟩ := (escaped_escaped hc).exists_cons
      simp [escapedChars, hc, heq, ha]

/-- Every text reads back in the form that is chosen for it. -/
theorem readsBack_writeAs (cs : List Char) : ReadsBack (writeAs (formOf cs) cs) cs := by
  rcases formOf_cases cs with
    ⟨isBlock, hform⟩ | ⟨hcontrol, ⟨hform, hmarks, hfeed⟩ | ⟨hform, hmarks⟩⟩
  · rw [hform]
    cases isBlock with
    | false =>
      exact readsBack_line (q := .basic) (readLine?_escapedChars 0 cs) (head?_escapedChars 0 cs)
    | true => exact readsBack_block (spells_escapedChars 0 cs)
  · rw [hform]
    have hplain : ∀ c ∈ cs, Quote.literal.isPlain c = true := by
      intro c hc
      refine isPlain_literal (Bool.eq_false_iff.2 fun hctl => hfeed ?_) ?_
      · exact hcontrol c hc hctl ▸ hc
      · exact fun heq => not_mem_of_longestRun hmarks (heq ▸ hc)
    refine readsBack_line (readLine?_of_forall_isPlain hplain) fun hhead => ?_
    exact not_mem_of_longestRun hmarks (List.mem_of_head? hhead)
  · rw [hform]
    exact readsBack_block (spells_self hcontrol hmarks)

/-- A text that was written between quotes is read back, whatever it is. -/
theorem readsBack_write (s : String) : ReadsBack (write s) s.toList := readsBack_writeAs s.toList

end SharedSession.Toml.Quoted
