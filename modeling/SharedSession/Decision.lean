set_option autoImplicit false

/-!
# Decisions of a product

Each product decides for the current session whether to track it, and under which word it stores
that choice. A sampled product keeps a choice that it finds stored, and otherwise tracks a given
percentage of the sessions.
-/

namespace SharedSession

/-- A product's choice for a session. -/
structure Decision where
  isTracked : Bool
  /-- the word stored under the product's key -/
  trackingType : String
deriving DecidableEq, Repr, Inhabited

namespace Decision

/-- The word that a sampled product stores when it tracks. -/
def trackedWord : String := "1"

/-- The word that a sampled product stores when it does not track. -/
def untrackedWord : String := "0"

/-- A sampled product's choice to track. -/
def sampledIn : Decision := ⟨true, trackedWord⟩

/-- A sampled product's choice not to track. -/
def sampledOut : Decision := ⟨false, untrackedWord⟩

/-- Keeps a stored choice; otherwise tracks if the draw, a number from zero up to but not including
one, falls below the rate, which is a percentage. -/
def sampled (rate draw : Float) (prior : Option String) : Decision :=
  if prior = some trackedWord then sampledIn
  else if prior = some untrackedWord then sampledOut
  else if draw * 100.0 < rate then sampledIn else sampledOut

theorem sampled_tracked (rate draw : Float) : sampled rate draw (some trackedWord) = sampledIn := by
  simp [sampled]

/-- Whatever is drawn, the stored word says whether the session is tracked. -/
theorem sampled_isTracked_iff (rate draw : Float) (prior : Option String) :
    (sampled rate draw prior).isTracked ↔ (sampled rate draw prior).trackingType = trackedWord := by
  unfold sampled
  split
  · simp [sampledIn]
  · split
    · simp [sampledOut, trackedWord, untrackedWord]
    · split <;> simp [sampledIn, sampledOut, trackedWord, untrackedWord]

end Decision

end SharedSession
