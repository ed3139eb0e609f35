import SharedSession.Names

set_option autoImplicit false

/-!
# Names that never repeat

A name that has just been drawn is none that was in use, if no name is drawn twice and none was
taken beforehand.

Names are also drawn in groups of equal size, of which only the last name is given away.
-/

namespace SharedSession

namespace Supply

/-- None of the names up to a number is drawn twice or was taken before. -/
def NeverRepeats (names : Supply) (taken : Option String) (used : Nat) : Prop :=
  ∀ k < used, names.used ≤ k →
    some (names.name k) ≠ taken ∧ ∀ j < k, names.used ≤ j → names.name j ≠ names.name k

instance (names : Supply) (taken : Option String) (used : Nat) :
    Decidable (names.NeverRepeats taken used) := by
  unfold NeverRepeats
  infer_instance

/-- Whether an identifier is one that was taken before or has been drawn, if it is one. -/
def Knows (names : Supply) (taken : Option String) (used : Nat) (id : Option String) : Prop :=
  id = none ∨ id = taken ∨ ∃ k, names.used ≤ k ∧ k < used ∧ id = some (names.name k)

variable {names : Supply} {taken id : Option String} {used n : Nat}

theorem NeverRepeats.mono (h : names.NeverRepeats taken n) (hle : used ≤ n) :
    names.NeverRepeats taken used :=
  fun k hk => h k (Nat.lt_of_lt_of_le hk hle)

theorem Knows.mono (h : names.Knows taken used id) (hle : used ≤ n) : names.Knows taken n id := by
  rcases h with hnone | htaken | ⟨k, hfrom, hk, hid⟩
  · exact .inl hnone
  · exact .inr (.inl htaken)
  · exact .inr (.inr ⟨k, hfrom, Nat.lt_of_lt_of_le hk hle, hid⟩)

/-- A name that is drawn is none that is known. -/
theorem Knows.ne_name (h : names.Knows taken used id) (hfresh : names.NeverRepeats taken (n + 1))
    (hfrom : names.used ≤ n) (hle : used ≤ n) : id ≠ some (names.name n) := by
  obtain ⟨hne, hothers⟩ := hfresh n (Nat.lt_succ_self n) hfrom
  rcases h with rfl | rfl | ⟨k, hk, hlt, rfl⟩
  · exact nofun
  · exact hne.symm
  · intro heq
    exact hothers k (Nat.lt_of_lt_of_le hlt hle) hk (Option.some.inj heq)

/-! ## Names in groups -/

/-- The source behind so many names. -/
def skip (names : Supply) (count : Nat) : Supply := ⟨names.name, names.used + count⟩

/-- The last name of a group of names, where all groups have the same size. -/
def lastOf (names : Supply) (size group : Nat) : String :=
  names.name (names.used + group * size + (size - 1))

theorem lastOf_skip (names : Supply) (size group : Nat) :
    (names.skip size).lastOf size group = names.lastOf size (group + 1) := by
  show names.name (names.used + size + group * size + (size - 1)) = names.name _
  rw [Nat.succ_mul, Nat.add_right_comm names.used, Nat.add_assoc names.used]

/-- Short names, all different. -/
def tallies : Supply := ⟨fun n => String.ofList (List.replicate (n + 1) 'i'), 0⟩

/-! ## Names that are not to come -/

/-- None of the names to come is an identifier. -/
def Avoids (id : String) (names : Supply) : Prop := ∀ n, names.used ≤ n → names.name n ≠ id

theorem Avoids.draw {id : String} (h : names.Avoids id) : names.draw.2.Avoids id :=
  fun n hn => h n (Nat.le_of_succ_le hn)

/-- A name with another letter is no tally. -/
theorem avoids_tallies {id : String} (letter : Char) (hletter : letter ∈ id.toList)
    (hother : letter ≠ 'i') : tallies.Avoids id := by
  rintro n - rfl
  have hmem : letter ∈ List.replicate (n + 1) 'i' := by
    rwa [← @String.toList_ofList (List.replicate (n + 1) 'i')]
  exact hother (List.eq_of_mem_replicate hmem)

end Supply

end SharedSession
