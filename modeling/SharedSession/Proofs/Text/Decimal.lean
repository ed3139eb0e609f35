import Mathlib.Data.List.Induction
import SharedSession.Text.Decimal

set_option autoImplicit false

/-!
# Which texts name an integer

Numerals in positional notation, and what they name with and without a sign. The two notions are
stated without a word about how a text is read; reading accepts exactly the texts that they describe
and gives what these name, so that a timestamp is read from a text exactly if the text names its
milliseconds.

Main statements: `Decimal.read?_eq_some_iff`, `Timestamp.read?_eq_some_iff`.
-/

namespace SharedSession

namespace Decimal

/-- Digits stand for a number: a single one for its value, and a further one behind others for its
value and ten times what these stand for. -/
inductive IsNumeral : List Char → Nat → Prop where
  | digit {k : Nat} (hk : k < 10) : IsNumeral [Nat.digitChar k] k
  | snoc {ds : List Char} {n k : Nat} (h : IsNumeral ds n) (hk : k < 10) :
      IsNumeral (ds ++ [Nat.digitChar k]) (10 * n + k)

/-- Characters name an integer: a numeral the number that it stands for, alone or behind a plus
sign, and the opposite of it behind a minus sign. -/
inductive Names : List Char → Int → Prop where
  | bare {ds : List Char} {n : Nat} (h : IsNumeral ds n) : Names ds n
  | plus {ds : List Char} {n : Nat} (h : IsNumeral ds n) : Names ('+' :: ds) n
  | minus {ds : List Char} {n : Nat} (h : IsNumeral ds n) : Names ('-' :: ds) (-n)

/-! ## Digits -/

/-- A digit is written for one of ten values. -/
theorem exists_digitChar {c : Char} (h : c.isDigit = true) : ∃ k, k < 10 ∧ c = Nat.digitChar k := by
  rw [Char.isDigit, Bool.and_eq_true, decide_eq_true_eq, decide_eq_true_eq, ge_iff_le,
    UInt32.le_iff_toNat_le, UInt32.le_iff_toNat_le] at h
  have hlow : 48 ≤ c.toNat := h.1
  have hhigh : c.toNat ≤ 57 := h.2
  refine ⟨c.toNat - 48, by omega, Char.toNat_inj.1 ?_⟩
  rw [Nat.toNat_digitChar_of_lt_ten (by omega)]
  omega

/-- A numeral is a digit at least, and nothing but digits. -/
theorem IsNumeral.ne_nil_and_all_isDigit {ds : List Char} {n : Nat} (h : IsNumeral ds n) :
    ds ≠ [] ∧ ds.all Char.isDigit = true := by
  induction h with
  | digit hk => simp [hk]
  | snoc h hk ih => simp [hk, ih.2]

theorem IsNumeral.ofDigitChars_eq {ds : List Char} {n : Nat} (h : IsNumeral ds n) :
    Nat.ofDigitChars 10 ds 0 = n := by
  induction h with
  | digit hk => rw [Nat.ofDigitChars_cons_digitChar_of_lt_ten hk, Nat.ofDigitChars_nil]; omega
  | snoc h hk ih =>
    rw [Nat.ofDigitChars_append, ih, Nat.ofDigitChars_cons_digitChar_of_lt_ten hk,
      Nat.ofDigitChars_nil]

/-- Digits make a numeral, whichever they are. -/
theorem isNumeral_ofDigitChars {ds : List Char} (hne : ds ≠ [])
    (hall : ds.all Char.isDigit = true) : IsNumeral ds (Nat.ofDigitChars 10 ds 0) := by
  -- the last digit is taken off, as it is in `IsNumeral.snoc`
  induction ds using List.reverseRecOn with
  | nil => exact absurd rfl hne
  | append_singleton ds c ih =>
    rw [List.all_append, Bool.and_eq_true, List.all_cons, List.all_nil, Bool.and_true] at hall
    obtain ⟨k, hk, rfl⟩ := exists_digitChar hall.2
    rw [Nat.ofDigitChars_append, Nat.ofDigitChars_cons_digitChar_of_lt_ten hk, Nat.ofDigitChars_nil]
    by_cases hds : ds = []
    · subst hds
      simpa using IsNumeral.digit hk
    · exact .snoc (ih hds hall.1) hk

theorem readDigits?_eq_some_iff {ds : List Char} {n : Nat} :
    readDigits? ds = some n ↔ IsNumeral ds n := by
  unfold readDigits?
  constructor
  · intro h
    split at h
    · next hds =>
      cases h
      exact isNumeral_ofDigitChars hds.1 hds.2
    · cases h
  · intro h
    rw [if_pos h.ne_nil_and_all_isDigit, h.ofDigitChars_eq]

/-! ## Integers -/

/-- A numeral starts with no sign. -/
theorem IsNumeral.not_isDigit_cons {c : Char} {ds : List Char} {n : Nat} (hc : c.isDigit = false) :
    ¬ IsNumeral (c :: ds) n := by
  intro h
  have hall := h.ne_nil_and_all_isDigit.2
  rw [List.all_cons, hc, Bool.false_and] at hall
  cases hall

/-- What is made of the number that digits stand for. -/
theorem map_readDigits?_eq_some_iff {ds : List Char} {f : Int → Int} {z : Int} :
    (do let n ← readDigits? ds; pure (n : Int) : Option Int).map f = some z
      ↔ ∃ n : Nat, IsNumeral ds n ∧ f n = z := by
  constructor
  · intro h
    obtain ⟨m, hm, rfl⟩ := Option.map_eq_some_iff.1 h
    obtain ⟨n, hn, heq⟩ := Option.bind_eq_some_iff.1 hm
    cases heq
    exact ⟨n, readDigits?_eq_some_iff.1 hn, rfl⟩
  · rintro ⟨n, h, rfl⟩
    rw [readDigits?_eq_some_iff.2 h]
    rfl

/-- Characters are read as the integer that they name. -/
theorem read?_eq_some_iff {cs : List Char} {z : Int} : read? cs = some z ↔ Names cs z := by
  constructor
  · intro h
    unfold read? at h
    split at h <;> obtain ⟨n, hn, rfl⟩ := map_readDigits?_eq_some_iff.1 h
    · exact .minus hn
    · exact .plus hn
    · exact .bare hn
  · intro h
    cases h with
    | bare h =>
      unfold read?
      split
      · exact absurd h (IsNumeral.not_isDigit_cons rfl)
      · exact absurd h (IsNumeral.not_isDigit_cons rfl)
      · exact map_readDigits?_eq_some_iff.2 ⟨_, h, rfl⟩
    | plus h => exact map_readDigits?_eq_some_iff.2 ⟨_, h, rfl⟩
    | minus h => exact map_readDigits?_eq_some_iff.2 ⟨_, h, rfl⟩

end Decimal

namespace Timestamp

theorem ofMillis?_eq_some_iff {z : Int} {t : Timestamp} : ofMillis? z = some t ↔ z = t.millis := by
  constructor
  · intro h
    unfold ofMillis? at h
    split at h
    · cases h
      rfl
    · cases h
  · rintro rfl
    exact ofMillis?_millis t

/-- A timestamp is read from the texts that name its milliseconds, and from no others. -/
theorem read?_eq_some_iff {s : String} {t : Timestamp} :
    read? s = some t ↔ Decimal.Names s.toList t.millis := by
  simp only [read?, Option.bind_eq_some_iff, Decimal.read?_eq_some_iff, ofMillis?_eq_some_iff,
    exists_eq_right]

end Timestamp

end SharedSession
