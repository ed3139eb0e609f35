import SharedSession.Proofs.Toml.Quoted
import SharedSession.Toml.Statement

set_option autoImplicit false

/-!
# Values in front of an end of line

Integers, truth values and quoted texts are read back from what is written for them, if the line
ends there. Digits at the start of a value may be those of a date, of a time, of a number with a
base or of a float; what decides is the end of the line, which none of these has behind its first
digits.

Main statements: `shows_digits`, `shows_boolean` and `shows_quoted`.
-/

namespace SharedSession.Toml

variable {c : Char} {cs ds rest tail : List Char} {n : Nat}

/-- Characters show a value: they open neither an array nor a table in braces, no space stands in
front, and reading takes them for the value if the line ends behind them. -/
structure Shows (written : List Char) (v : Value) : Prop where
  exists_cons : ∃ c t, written = c :: t ∧ c ≠ '[' ∧ c ≠ '{' ∧ isSpace c = false
  readScalar? : ∀ rest, readScalar? (written ++ '\n' :: rest) = some (v, '\n' :: rest)

/-! ## Texts and truth values -/

theorem shows_quoted (s : String) : Shows (Quoted.write s) (.string s) := by
  obtain ⟨q, body, heq, hread⟩ := Quoted.readsBack_write s
  rw [heq]
  refine ⟨⟨q.mark, body, rfl, ?_⟩, fun rest => ?_⟩
  · cases q <;> decide
  · have hfeed : ('\n' :: rest).head? ≠ some q.mark := by cases q <;> simp [Quote.mark]
    have htext := hread ('\n' :: rest) hfeed
    rw [String.ofList_toList] at htext
    cases q with
    | basic =>
      show (Quoted.read? .basic (body ++ '\n' :: rest)).map _ = _
      rw [htext, Option.map_some]
    | literal =>
      show (Quoted.read? .literal (body ++ '\n' :: rest)).map _ = _
      rw [htext, Option.map_some]

theorem shows_true : Shows "true".toList (.boolean true) :=
  ⟨⟨'t', _, rfl, by decide⟩, fun _ => rfl⟩

theorem shows_false : Shows "false".toList (.boolean false) :=
  ⟨⟨'f', _, rfl, by decide⟩, fun _ => rfl⟩

/-! ## Digits are not those of a date or a time -/

namespace Moment

/-- What is left behind some of the digits of a line are digits and its end. -/
theorem eq_of_readDigits? {count acc : Nat} (hds : ds.all Char.isDigit = true)
    (h : readDigits? count acc (ds ++ '\n' :: rest) = some (n, tail)) :
    ∃ es, es.all Char.isDigit = true ∧ tail = es ++ '\n' :: rest := by
  induction count generalizing acc ds with
  | zero =>
    cases h
    exact ⟨ds, hds, rfl⟩
  | succ count ih =>
    cases ds with
    | nil => simp [readDigits?] at h
    | cons d ds =>
      rw [List.all_cons, Bool.and_eq_true] at hds
      rw [List.cons_append, readDigits?, if_pos hds.1] at h
      exact ih hds.2 h

/-- Behind digits up to the end of the line no other character is found. -/
theorem expect?_eq_none (hc : c.isDigit = false) (hfeed : c ≠ '\n')
    (hds : ds.all Char.isDigit = true) : expect? c (ds ++ '\n' :: rest) = none := by
  cases ds with
  | nil => exact if_neg (Ne.symm hfeed)
  | cons d ds =>
    rw [List.all_cons, Bool.and_eq_true] at hds
    refine if_neg ?_
    rintro rfl
    rw [hc] at hds
    exact absurd hds.1 (by decide)

theorem skipDate?_eq_none (hds : ds.all Char.isDigit = true) :
    skipDate? (ds ++ '\n' :: rest) = none := by
  rw [skipDate?]
  cases h : readDigits? 4 0 (ds ++ '\n' :: rest) with
  | none => rfl
  | some p =>
    obtain ⟨n, tail⟩ := p
    obtain ⟨es, hes, htail⟩ := eq_of_readDigits? hds h
    simp only [htail, Option.bind_eq_bind, Option.bind_some, Option.bind_none,
      expect?_eq_none (c := '-') rfl (by decide) hes]

theorem skipTime?_eq_none (hds : ds.all Char.isDigit = true) :
    skipTime? (ds ++ '\n' :: rest) = none := by
  rw [skipTime?, readTwo?]
  cases h : readDigits? 2 0 (ds ++ '\n' :: rest) with
  | none => rfl
  | some p =>
    obtain ⟨n, tail⟩ := p
    obtain ⟨es, hes, htail⟩ := eq_of_readDigits? hds h
    simp only [Option.bind_eq_bind, Option.bind_some]
    split
    · simp only [htail, Option.bind_some, Option.bind_none,
        expect?_eq_none (c := ':') rfl (by decide) hes]
    · rfl

theorem read?_eq_none (hds : ds.all Char.isDigit = true) : read? (ds ++ '\n' :: rest) = none := by
  rw [read?, skip?, skipDate?_eq_none hds, skipTime?_eq_none hds, Option.map_none]

end Moment

/-! ## Digits are those of an integer -/

theorem ne_of_isDigit {d : Char} (hc : c.isDigit = true) (hd : d.isDigit = false) : c ≠ d := by
  rintro rfl
  rw [hd] at hc
  cases hc

namespace Number

theorem digitRun_lineFeed (hds : ds.all Char.isDigit = true) :
    digitRun Char.isDigit (ds ++ '\n' :: rest) = (ds, '\n' :: rest) := by
  induction ds with
  | nil => rfl
  | cons d ds ih =>
    rw [List.all_cons, Bool.and_eq_true] at hds
    have hd : d ≠ '_' := ne_of_isDigit hds.1 rfl
    rw [List.cons_append, digitRun, if_pos hds.1, ih hds.2]
    exact fun _ _ heq => absurd heq hd

/-- No base stands in front of digits up to the end of the line. -/
theorem readBase?_eq_none (hds : ds.all Char.isDigit = true) :
    readBase? (ds ++ '\n' :: rest) = none := by
  have hletter : ∀ {c}, c.isDigit = true ∨ c = '\n' → Base.ofLetter? c = none := by
    intro c hc
    have hne : ∀ d, d.isDigit = false → d ≠ '\n' → c ≠ d := by
      rintro d hd hfeed rfl
      rcases hc with hc | rfl
      · exact ne_of_isDigit hc hd rfl
      · exact hfeed rfl
    rw [Base.ofLetter?, if_neg (hne 'x' rfl (by decide)), if_neg (hne 'o' rfl (by decide)),
      if_neg (hne 'b' rfl (by decide))]
  unfold readBase?
  split
  · next c tail heq =>
    rw [Option.map_eq_none_iff]
    refine hletter ?_
    match ds, heq with
    | [_], heq => exact .inr (List.cons.inj (List.cons.inj heq).2).1.symm
    | _ :: d :: ds, heq => exact .inl (by simp_all)
  · rfl

/-- Digits without a leading zero. -/
structure IsWhole (ds : List Char) : Prop where
  all_isDigit : ds.all Char.isDigit = true
  eq_zero_or : ds = ['0'] ∨ ∃ d t, ds = d :: t ∧ d ≠ '0'

theorem IsWhole.exists_cons (h : IsWhole ds) : ∃ d t, ds = d :: t ∧ d.isDigit = true := by
  rcases h.eq_zero_or with rfl | ⟨d, t, rfl, -⟩
  · exact ⟨'0', [], rfl, rfl⟩
  · exact ⟨d, t, rfl, List.all_eq_true.1 h.all_isDigit d List.mem_cons_self⟩

/-- No other character stands in front. -/
theorem IsWhole.ne_cons (h : IsWhole ds) (hc : c.isDigit = false) : ds ++ rest ≠ c :: tail := by
  obtain ⟨d, t, rfl, hd⟩ := h.exists_cons
  exact fun heq => ne_of_isDigit hd hc (List.cons.inj heq).1

theorem readWhole?_lineFeed (h : IsWhole ds) :
    readWhole? (ds ++ '\n' :: rest) = some (ds, '\n' :: rest) := by
  rcases h.eq_zero_or with rfl | ⟨d, t, rfl, hd⟩
  · rfl
  · have hall := h.all_isDigit
    rw [List.all_cons, Bool.and_eq_true] at hall
    rw [List.cons_append, readWhole?, readDigits?, if_pos hall.1, digitRun_lineFeed hall.2]
    exact fun _ heq => hd (List.cons.inj heq).1

theorem read?_lineFeed (h : IsWhole ds) :
    read? (ds ++ '\n' :: rest)
      = (integer? (Nat.ofDigitChars 10 ds 0)).map fun number => (number, '\n' :: rest) := by
  have hsign : readSign (ds ++ '\n' :: rest) = (false, ds ++ '\n' :: rest) := by
    unfold readSign
    split
    · next heq => exact absurd heq (h.ne_cons rfl)
    · next heq => exact absurd heq (h.ne_cons rfl)
    · rfl
  have hfraction : readFraction? ('\n' :: rest) = some (none, '\n' :: rest) := rfl
  have hexponent : readExponent? ('\n' :: rest) = some (none, '\n' :: rest) := rfl
  rw [read?, readBase?_eq_none h.all_isDigit, hsign]
  simp only [readUnsigned?]
  split
  · next heq => exact absurd heq (h.ne_cons rfl)
  · next heq => exact absurd heq (h.ne_cons rfl)
  · rw [readWhole?_lineFeed h]
    simp only [hfraction, hexponent, ofParts?, Option.bind_eq_bind, Option.bind_some,
      Bool.false_eq_true, if_false]
    cases integer? (Nat.ofDigitChars 10 ds 0) <;> rfl

/-- Only zero is written with a zero in front. -/
theorem exists_digits_cons {n : Nat} (h : 0 < n) : ∃ d t, Decimal.digits n = d :: t ∧ d ≠ '0' := by
  induction n using Nat.strongRecOn with
  | _ n ih =>
    rw [Decimal.digits]
    by_cases hsmall : n < 10
    · have hdigit : ∀ k < 10, 0 < k → Nat.digitChar k ≠ '0' := by decide
      rw [Nat.toDigits_of_lt_base hsmall]
      exact ⟨_, [], rfl, hdigit n hsmall h⟩
    · -- the digits in front are those of a smaller number, which is not zero
      obtain ⟨d, t, heq, hd⟩ := ih (n / 10) (by omega) (by omega)
      rw [Nat.toDigits_of_base_le (by omega) (by omega), ← Decimal.digits, heq]
      exact ⟨d, _, rfl, hd⟩

theorem isWhole_digits (n : Nat) : IsWhole (Decimal.digits n) where
  all_isDigit := List.all_eq_true.2 fun _ h => Decimal.isDigit_of_mem_digits h
  eq_zero_or := by
    rcases Nat.eq_zero_or_pos n with rfl | hn
    · exact .inl rfl
    · exact .inr (exists_digits_cons hn)

end Number

/-- An integer is read back from its digits if a document can hold it. -/
theorem shows_digits {n : Nat} (h : n ≤ 9223372036854775807) :
    Shows (Decimal.digits n) (.integer n) := by
  have hwhole := Number.isWhole_digits n
  have hvalue : Nat.ofDigitChars 10 (Decimal.digits n) 0 = n :=
    Nat.ofDigitChars_toDigits (by decide) (by decide)
  have hnumber : Number.integer? n = some (.integer n) := if_pos (by omega)
  constructor
  · obtain ⟨d, t, heq, hd⟩ := hwhole.exists_cons
    refine ⟨d, t, heq, ne_of_isDigit hd rfl, ne_of_isDigit hd rfl, ?_⟩
    simp [isSpace, ne_of_isDigit hd (d := ' ') rfl, ne_of_isDigit hd (d := '\t') rfl]
  · intro rest
    unfold readScalar?
    split
    · next heq => exact absurd heq (hwhole.ne_cons rfl)
    · next heq => exact absurd heq (hwhole.ne_cons rfl)
    · next heq => exact absurd heq (hwhole.ne_cons rfl)
    · next heq => exact absurd heq (hwhole.ne_cons rfl)
    · rw [Moment.read?_eq_none hwhole.all_isDigit, Number.read?_lineFeed hwhole, hvalue, hnumber]
      rfl

end SharedSession.Toml
