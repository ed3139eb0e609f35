import SharedSession.Proofs.Record.Liveness
import SharedSession.Proofs.Text.Decimal

set_option autoImplicit false

/-!
# Dates and deadlines at the ends of the range

The age of a session and its new deadline are computed with saturation, and the answers are those of
unbounded integers all the same: an age that saturates is no less than the longest time-out, and one
that saturates below is less than every time-out. So a session is live exactly as long as the plain
differences say, creation dates to come and the ends of the range included.

Main statement: `Record.liveness_is_exact`.
-/

namespace SharedSession

/-- An age that saturates is on the same side of every time-out as the true one. -/
theorem Timestamp.millis_sub_lt_iff (t u : Timestamp) (d : Span) :
    (t.sub u).millis < d.millis ↔ t.millis - u.millis < d.millis := by
  have hlimit : d.millis ≤ 9223372036854775807 := d.millis_le
  rw [millis_sub]
  omega

theorem Timestamp.millis_add_millis (t : Timestamp) (d : Span) :
    (t.add d.millis).millis = min (t.millis + d.millis) 9223372036854775807 :=
  t.millis_add d.millis

namespace Record

/-- A session is active exactly if it is younger than the time-out and its deadline is to come, as
far as there is a readable date. -/
theorem isActive_iff {r : Record} {now : Timestamp} {timeOut : Span} :
    r.isActive now timeOut = true ↔
      (∀ t, r.created? = some t → now.millis - t.millis < timeOut.millis) ∧
      (∀ t, r.expire? = some t → now.millis < t.millis) := by
  unfold isActive
  rw [Bool.and_eq_true]
  refine and_congr ?_ ?_
  · cases r.created? with
    | none => simp
    | some created =>
      simp only [decide_eq_true_eq, Timestamp.millis_sub_lt_iff, Option.some.injEq, forall_eq']
  · cases r.expire? with
    | none => simp
    | some expire =>
      simp only [decide_eq_true_eq, Timestamp.lt_iff, Option.some.injEq, forall_eq']

/-- The creation date is what the text under its key names. -/
theorem created?_eq_some_iff {r : Record} {t : Timestamp} :
    r.created? = some t ↔
      ∃ text, r.get? createdKey = some text ∧ Decimal.Names text.toList t.millis := by
  simp only [created?, Option.bind_eq_some_iff, Timestamp.read?_eq_some_iff]

/-- The deadline is what the text under its key names. -/
theorem expire?_eq_some_iff {r : Record} {t : Timestamp} :
    r.expire? = some t ↔
      ∃ text, r.get? expireKey = some text ∧ Decimal.Names text.toList t.millis := by
  simp only [expire?, Option.bind_eq_some_iff, Timestamp.read?_eq_some_iff]

theorem created?_set_render (r : Record) (t : Timestamp) :
    (r.set createdKey t.render).created? = some t := by
  rw [created?, get?_set, if_pos rfl, Option.bind_some, Timestamp.read?_render]

theorem expire?_set_render (r : Record) (t : Timestamp) :
    (r.set expireKey t.render).expire? = some t := by
  rw [expire?, get?_set, if_pos rfl, Option.bind_some, Timestamp.read?_render]

/-- Liveness is exact at every moment and for every span. Whatever deadline a record had, a new one
lies as many whole milliseconds ahead as the span has and the range allows, and no other entry
changes. A session is active exactly if its age in plain integers is below the time-out and its
deadline is to come, and once it is not it never is again. The dates are read from the texts that
name an integer in range, and a date that was written is read back. -/
theorem liveness_is_exact (r : Record) (now : Timestamp) (d : Span) :
    d.millis = min (d.nanos / 1000000) 9223372036854775807 ∧
    ((∃ t, (r.expand now d).expire? = some t ∧
        t.millis = min (now.millis + d.millis) 9223372036854775807) ∧
      ∀ key, key ≠ expireKey → (r.expand now d).get? key = r.get? key) ∧
    (r.isActive now d = true ↔
      (∀ t, r.created? = some t → now.millis - t.millis < d.millis) ∧
      (∀ t, r.expire? = some t → now.millis < t.millis)) ∧
    (∀ later : Timestamp, now.millis ≤ later.millis →
      r.isActive now d = false → r.isActive later d = false) ∧
    (∀ t, r.created? = some t ↔
      ∃ text, r.get? createdKey = some text ∧ Decimal.Names text.toList t.millis) ∧
    (∀ t, r.expire? = some t ↔
      ∃ text, r.get? expireKey = some text ∧ Decimal.Names text.toList t.millis) ∧
    (r.set createdKey now.render).created? = some now ∧
    (r.set expireKey now.render).expire? = some now := by
  refine ⟨rfl, ⟨⟨_, expire?_expand r now d, now.millis_add_millis d⟩, ?_⟩, isActive_iff, ?_,
    fun _ => created?_eq_some_iff, fun _ => expire?_eq_some_iff, created?_set_render r now,
    expire?_set_render r now⟩
  · intro key hkey
    exact get?_expand hkey now d
  · intro later hle hdead
    exact isActive_eq_false_of_le (Timestamp.le_iff.2 hle) hdead

/-- A session from the first moment of all, with a deadline that is written with a sign and leading
zeros. At the last moment its age does not fit the range; it is dead at its deadline and for good,
while a new deadline set at the last moment is that moment itself. -/
theorem liveness_is_exact_at_the_ends :
    let first : Timestamp := .clamp (-9223372036854775808)
    let last : Timestamp := .clamp 9223372036854775807
    let r := ((∅ : Record).set createdKey first.render).set expireKey "+00042"
    (r.isActive (.clamp 42) ⟨0⟩ = false ∧ r.isActive last ⟨0⟩ = false) ∧
      Decimal.Names "+00042".toList 42 ∧
      ((r.expand last ⟨1000000⟩).expire? = some last ∧
        (r.expand last ⟨1000000⟩).get? createdKey = some "-9223372036854775808") := by
  intro first last r
  have hdead : r.isActive (.clamp 42) ⟨0⟩ = false := by decide +kernel
  have hcreated : r.get? createdKey = some "-9223372036854775808" := by decide +kernel
  have hdeadline : r.expire? = some (.clamp 42) := by decide +kernel
  obtain ⟨-, -, -, hforever, -, hnamed, -, -⟩ := liveness_is_exact r (.clamp 42) ⟨0⟩
  obtain ⟨-, ⟨⟨t, hexpire, hmillis⟩, hothers⟩, -⟩ := liveness_is_exact r last ⟨1000000⟩
  obtain ⟨text, htext, hnames⟩ := (hnamed _).1 hdeadline
  have heq : text = "+00042" := by
    rw [show r.get? expireKey = some "+00042" by decide +kernel] at htext
    exact (Option.some.inj htext).symm
  refine ⟨⟨hdead, hforever last (by decide) hdead⟩, ?_, ?_, ?_⟩
  · rw [heq] at hnames
    exact hnames
  · rw [hexpire]
    exact congrArg some (Timestamp.ext hmillis)
  · rw [hothers createdKey (by decide), hcreated]

end Record

end SharedSession
