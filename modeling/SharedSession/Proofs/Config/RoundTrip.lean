import SharedSession.Config.Location
import SharedSession.Proofs.Toml.Lines

set_option autoImplicit false

/-!
# Settings that are written and loaded

Settings are written unless one of their spans has more whole milliseconds than a document can say.
Loading the text gives them back with each span cut down to whole milliseconds. A period that is
less than a millisecond is cut down to zero, at which no timer can tick, so the settings are then
refused, although they were written: the check sees the spans that were read and not those that
were written. What is loaded, from whatever file, has only periods of a millisecond or more.

Main statement: `Config.loaded_as_written`.
-/

namespace SharedSession

open Toml

/-! ## What is written -/

/-- The entries in the storage's table. -/
def StorageChoice.table : StorageChoice → Table
  | .file none => [("type", .string "file")]
  | .file (some path) => [("type", .string "file"), ("path", .string path)]
  | .memory locking => [("type", .string "memory"), ("locking", .boolean locking)]

namespace Config

/-- All spans of the settings. -/
def spans (c : Config) : List Span :=
  [c.pollDelay, c.visibilityCheckDelay, c.expirationDelay, c.timeOutDelay, c.lockRetryDelay,
    c.historyClearInterval]

/-- The settings with each span cut down to whole milliseconds. -/
def floored (c : Config) : Config :=
  { c with
    pollDelay := c.pollDelay.floorMillis
    visibilityCheckDelay := c.visibilityCheckDelay.floorMillis
    expirationDelay := c.expirationDelay.floorMillis
    timeOutDelay := c.timeOutDelay.floorMillis
    lockRetryDelay := c.lockRetryDelay.floorMillis
    historyClearInterval := c.historyClearInterval.floorMillis }

/-- A span as an integer of a document. -/
def spanValue (d : Span) : Value := .integer d.wholeMillis

/-- The settings in front of the storage's table. -/
def plainTable (c : Config) : Table :=
  [("poll_delay", spanValue c.pollDelay),
    ("visibility_check_delay", spanValue c.visibilityCheckDelay),
    ("expiration_delay", spanValue c.expirationDelay), ("time_out_delay", spanValue c.timeOutDelay),
    ("lock_retry_delay", spanValue c.lockRetryDelay),
    ("lock_max_tries", .integer c.lockMaxTries.toNat),
    ("history_clear_interval", spanValue c.historyClearInterval)]

/-- The table that the settings are written as. -/
def table (c : Config) : Table := c.plainTable ++ [("storage", .table .header c.storage.table)]

theorem spanText?_eq_some_iff {d : Span} {cs : List Char} :
    spanText? d = some cs
      ↔ d.wholeMillis ≤ 9223372036854775807 ∧ Decimal.digits d.wholeMillis = cs := by
  rw [spanText?, Span.millisLimit]
  split_ifs with h <;> simp [h]

/-- The lines of the settings. -/
def lines (c : Config) : List Char :=
  entryLine "poll_delay" (Decimal.digits c.pollDelay.wholeMillis)
    ++ (entryLine "visibility_check_delay" (Decimal.digits c.visibilityCheckDelay.wholeMillis)
    ++ (entryLine "expiration_delay" (Decimal.digits c.expirationDelay.wholeMillis)
    ++ (entryLine "time_out_delay" (Decimal.digits c.timeOutDelay.wholeMillis)
    ++ (entryLine "lock_retry_delay" (Decimal.digits c.lockRetryDelay.wholeMillis)
    ++ (entryLine "lock_max_tries" (Decimal.digits c.lockMaxTries.toNat)
    ++ (entryLine "history_clear_interval" (Decimal.digits c.historyClearInterval.wholeMillis)
    ++ '\n' :: (headerLine "storage" ++ storageText c.storage)))))))

/-- Settings are written if a document can say all their spans. -/
theorem toText?_eq_some_iff {c : Config} {text : String} :
    c.toText? = some text
      ↔ (∀ d ∈ c.spans, d.wholeMillis ≤ 9223372036854775807) ∧ String.ofList c.lines = text := by
  have hline : line = entryLine := rfl
  have hlines : ∀ a b : List Char, a ++ "\n[storage]\n".toList ++ b
      = a ++ '\n' :: (headerLine "storage" ++ b) := by
    intro a b
    rw [List.append_assoc]
    rfl
  simp only [toText?, Option.bind_eq_bind, Option.bind_eq_some_iff, spanText?_eq_some_iff,
    and_assoc, exists_and_left, exists_eq_left', spans, List.forall_mem_cons, List.not_mem_nil,
    false_implies, implies_true, true_and, Option.some.injEq, hline, hlines, lines,
    List.append_assoc]

/-- Settings are not written exactly if one of their spans is too long. -/
theorem toText?_eq_none_iff {c : Config} :
    c.toText? = none ↔ ∃ d ∈ c.spans, 9223372036854775807 < d.wholeMillis := by
  rw [Option.eq_none_iff_forall_ne_some]
  constructor
  · intro h
    refine Classical.byContradiction fun hall => ?_
    simp only [not_exists, not_and, Nat.not_lt] at hall
    exact h _ (toText?_eq_some_iff.2 ⟨hall, rfl⟩)
  · rintro ⟨d, hd, hlong⟩ text h
    have := (toText?_eq_some_iff.1 h).1 d hd
    omega

/-! ## What is read -/

theorem shows_boolText (b : Bool) : Shows (boolText b) (.boolean b) := by
  cases b
  · exact shows_false
  · exact shows_true

theorem lays_storageText (s : StorageChoice) : Lays (storageText s) (s.table.map .plain) := by
  have htype : IsPlainName "type" := ⟨by decide, by decide⟩
  have hpath : IsPlainName "path" := ⟨by decide, by decide⟩
  have hlocking : IsPlainName "locking" := ⟨by decide, by decide⟩
  rcases s with (_ | path) | locking
  · rw [storageText, ← List.append_nil (line _ _)]
    exact .entry htype (shows_quoted "file") .nil
  · rw [storageText, ← List.append_nil (line "path" _)]
    exact .entry htype (shows_quoted "file") (.entry hpath (shows_quoted path) .nil)
  · rw [storageText, ← List.append_nil (line "locking" _)]
    exact .entry htype (shows_quoted "memory") (.entry hlocking (shows_boolText locking) .nil)

theorem lays_lines {c : Config} (h : ∀ d ∈ c.spans, d.wholeMillis ≤ 9223372036854775807) :
    Lays c.lines
      (c.plainTable.map .plain ++ .header ⟨[], "storage"⟩ :: c.storage.table.map .plain) := by
  have hspan : ∀ d ∈ c.spans, Shows (Decimal.digits d.wholeMillis) (spanValue d) :=
    fun d hd => shows_digits (h d hd)
  have htries : Shows (Decimal.digits c.lockMaxTries.toNat) (.integer c.lockMaxTries.toNat) :=
    shows_digits (Nat.le_of_lt (Nat.lt_trans c.lockMaxTries.toNat_lt (by decide)))
  refine .entry ⟨by decide, by decide⟩ (hspan _ (by simp [spans])) ?_
  refine .entry ⟨by decide, by decide⟩ (hspan _ (by simp [spans])) ?_
  refine .entry ⟨by decide, by decide⟩ (hspan _ (by simp [spans])) ?_
  refine .entry ⟨by decide, by decide⟩ (hspan _ (by simp [spans])) ?_
  refine .entry ⟨by decide, by decide⟩ (hspan _ (by simp [spans])) ?_
  refine .entry ⟨by decide, by decide⟩ htries ?_
  refine .entry ⟨by decide, by decide⟩ (hspan _ (by simp [spans])) ?_
  exact .blank (.header ⟨by decide, by decide⟩ (lays_storageText c.storage))

/-- The text of settings stands for the table that they are written as. -/
theorem ofText?_of_toText? {c : Config} {text : String} (h : c.toText? = some text) :
    Table.ofText? text = some c.table := by
  obtain ⟨hspans, rfl⟩ := toText?_eq_some_iff.1 h
  have hlays := lays_lines hspans
  rw [← String.toList_ofList (l := c.lines)] at hlays
  have hnames : c.plainTable.map (·.1) = ["poll_delay", "visibility_check_delay",
    "expiration_delay", "time_out_delay", "lock_retry_delay", "lock_max_tries",
    "history_clear_interval"] := rfl
  refine Table.ofText?_of_lays hlays ?_ ?_ ?_
  · rw [hnames]
    decide
  · rw [hnames]
    decide
  · rcases c.storage with (_ | path) | locking <;> simp [StorageChoice.table]

/-! ## What the table stands for -/

theorem spanOfValue?_spanValue (d : Span) : spanOfValue? (spanValue d) = some d.floorMillis := by
  rw [spanValue, spanOfValue?, if_pos (Int.natCast_nonneg _), Int.toNat_natCast]
  rfl

theorem triesOfValue?_toNat (n : UInt32) : triesOfValue? (.integer n.toNat) = some n := by
  rw [triesOfValue?, if_pos ⟨Int.natCast_nonneg _, n.toNat_lt⟩, Int.toNat_natCast,
    UInt32.ofNat_toNat]

theorem ofValue?_table (s : StorageChoice) :
    StorageChoice.ofValue? (.table .header s.table) = some s := by
  rcases s with (_ | path) | locking <;> rfl

/-- What a setting is read as that has a value. -/
theorem setting_of_get? {α : Type} {t : Table} (name : String) {ofValue? : Value → Option α}
    {default a : α} {v : Value} (h : t.get? name = some v) (hv : ofValue? v = some a) :
    setting t name ofValue? default = .ok a := by
  rw [setting, h]
  simp only [hv]

/-- The table of settings is read as the settings with their spans cut down. -/
theorem ofTable_table (c : Config) : ofTable c.table = .ok c.floored := by
  rw [ofTable, setting_of_get? "poll_delay" rfl (spanOfValue?_spanValue c.pollDelay),
    setting_of_get? "visibility_check_delay" rfl
      (spanOfValue?_spanValue c.visibilityCheckDelay),
    setting_of_get? "expiration_delay" rfl (spanOfValue?_spanValue c.expirationDelay),
    setting_of_get? "time_out_delay" rfl (spanOfValue?_spanValue c.timeOutDelay),
    setting_of_get? "lock_retry_delay" rfl (spanOfValue?_spanValue c.lockRetryDelay),
    setting_of_get? "lock_max_tries" rfl (triesOfValue?_toNat c.lockMaxTries),
    setting_of_get? "history_clear_interval" rfl
      (spanOfValue?_spanValue c.historyClearInterval),
    setting_of_get? "storage" rfl (ofValue?_table c.storage)]
  rfl

/-! ## What is checked -/

theorem timerPeriods_floored (c : Config) :
    c.floored.timerPeriods = c.timerPeriods.map fun e => (e.1, e.2.floorMillis) := rfl

theorem nanos_floorMillis_eq_zero_iff (d : Span) :
    d.floorMillis.nanos = 0 ↔ d.wholeMillis = 0 := by
  show d.wholeMillis * 1000000 = 0 ↔ _
  omega

/-- Settings whose periods all are a millisecond at least pass the check once they are cut down. -/
theorem checked_floored {c : Config} (h : ∀ e ∈ c.timerPeriods, 1 ≤ e.2.wholeMillis) :
    c.floored.checked = .ok c.floored := by
  have hnone : c.floored.zeroTimerPeriod? = none := by
    rw [zeroTimerPeriod?, Option.map_eq_none_iff, List.find?_eq_none, timerPeriods_floored]
    intro e he
    obtain ⟨e, hmem, rfl⟩ := List.mem_map.1 he
    rw [beq_iff_eq, nanos_floorMillis_eq_zero_iff]
    have := h e hmem
    omega
  rw [checked, hnone]

/-- The check names the first of the periods that are cut down to zero. -/
theorem checked_floored_of_zero {c : Config} {before after : List (String × Span)} {name : String}
    {d : Span} (hperiods : c.timerPeriods = before ++ (name, d) :: after)
    (hbefore : ∀ e ∈ before, 1 ≤ e.2.wholeMillis) (hd : d.wholeMillis = 0) :
    c.floored.checked = .error (.zeroPeriod name) := by
  have hfirst : c.floored.zeroTimerPeriod? = some name := by
    rw [zeroTimerPeriod?, Option.map_eq_some_iff]
    refine ⟨(name, d.floorMillis), List.find?_eq_some_iff_append.2 ⟨?_, ?_⟩, rfl⟩
    · rw [beq_iff_eq, nanos_floorMillis_eq_zero_iff, hd]
    · refine ⟨before.map fun e => (e.1, e.2.floorMillis), after.map fun e => (e.1, e.2.floorMillis),
        ?_, ?_⟩
      · rw [timerPeriods_floored, hperiods, List.map_append, List.map_cons]
      · intro e he
        obtain ⟨e, hmem, rfl⟩ := List.mem_map.1 he
        rw [Bool.not_eq_true', beq_eq_false_iff_ne, ne_eq, nanos_floorMillis_eq_zero_iff]
        have := hbefore e hmem
        omega
  rw [checked, hfirst]

theorem ofFile_eq (path text : String) :
    ofFile path text = (ofText text >>= checked).mapError fun fault =>
      .malformed path fault.details := by
  unfold ofFile
  cases ofText text >>= checked <;> rfl

/-- What comes of the text of settings is what the check says of the settings cut down. -/
theorem load_of_toText? {c : Config} {text path : String} {disk : Disk}
    (h : c.toText? = some text) (hread : disk.read path = .ok (Utf8.bytes text)) :
    load disk path = c.floored.checked.mapError fun fault => .malformed path fault.details := by
  have htext : disk.readText path = .ok text := by
    simp only [Disk.readText, hread, bind, Except.bind, Utf8.ofBytes?_bytes]
  have hchecked : (ofText text >>= checked) = c.floored.checked := by
    simp only [ofText, ofText?_of_toText? h, ofTable_table]
    exact pure_bind c.floored checked
  simp only [load, htext]
  rw [ofFile_eq, hchecked]

/-! ## What any file is loaded as -/

theorem bind_eq_ok_iff {α β : Type} {x : Except ConfigFault α} {f : α → Except ConfigFault β}
    {b : β} : (x >>= f) = .ok b ↔ ∃ a, x = .ok a ∧ f a = .ok b := by
  cases x <;> simp [bind, Except.bind]

/-- A setting is the default or what a value is read as. -/
theorem setting_cases {α : Type} {t : Table} {name : String} {ofValue? : Value → Option α}
    {default a : α} (h : setting t name ofValue? default = .ok a) :
    a = default ∨ ∃ v, t.get? name = some v ∧ ofValue? v = some a := by
  unfold setting at h
  split at h
  · cases h
    exact .inl rfl
  · next v hv =>
    split at h
    · next ha =>
      cases h
      exact .inr ⟨v, hv, ha⟩
    · cases h

theorem exists_ofMillis_of_spanOfValue? {v : Value} {d : Span} (h : spanOfValue? v = some d) :
    ∃ n, d = .ofMillis n := by
  unfold spanOfValue? at h
  split at h
  · split at h
    · cases h
      exact ⟨_, rfl⟩
    · cases h
  · cases h

/-- A span that is read is one of whole milliseconds, if its default is. -/
theorem setting_span {t : Table} {name : String} {default d : Span}
    (hdefault : ∃ n, default = .ofMillis n) (h : setting t name spanOfValue? default = .ok d) :
    ∃ n, d = .ofMillis n := by
  rcases setting_cases h with rfl | ⟨v, -, hv⟩
  · exact hdefault
  · exact exists_ofMillis_of_spanOfValue? hv

theorem timerPeriods_of_ofTable {t : Table} {c : Config} (h : ofTable t = .ok c) :
    ∀ e ∈ c.timerPeriods, ∃ n, e.2 = .ofMillis n := by
  simp only [ofTable, bind_eq_ok_iff, pure, Except.pure, Except.ok.injEq] at h
  obtain ⟨poll, hpoll, visibility, hvisibility, -, -, -, -, -, -, -, -, clear, hclear, -, -, rfl⟩ :=
    h
  intro e he
  simp only [timerPeriods, List.mem_cons, List.not_mem_nil, or_false] at he
  rcases he with rfl | rfl | rfl
  · exact setting_span ⟨_, rfl⟩ hpoll
  · exact setting_span ⟨_, rfl⟩ hvisibility
  · exact setting_span ⟨_, rfl⟩ hclear

theorem ofText_eq_ok_iff {text : String} {c : Config} :
    ofText text = .ok c ↔ ∃ t, Table.ofText? text = some t ∧ ofTable t = .ok c := by
  unfold ofText
  cases Table.ofText? text <;> simp

/-- Of what passes the check no period is zero. -/
theorem nanos_pos_of_checked {c c' : Config} (h : c.checked = .ok c') :
    c' = c ∧ ∀ e ∈ c.timerPeriods, e.2.nanos ≠ 0 := by
  unfold checked at h
  split at h
  · cases h
  · next hnone =>
    cases h
    rw [zeroTimerPeriod?, Option.map_eq_none_iff, List.find?_eq_none] at hnone
    exact ⟨rfl, fun e he => by simpa using hnone e he⟩

/-- A period that was read and is not zero is a millisecond at least. -/
theorem timerPeriods_of_ofFile {path text : String} {c : Config} (h : ofFile path text = .ok c) :
    ∀ e ∈ c.timerPeriods, 1000000 ≤ e.2.nanos := by
  intro e he
  unfold ofFile at h
  split at h
  · next loaded hloaded =>
    cases h
    obtain ⟨read, htext, hchecked⟩ := bind_eq_ok_iff.1 hloaded
    obtain ⟨rfl, hnanos⟩ := nanos_pos_of_checked hchecked
    obtain ⟨t, -, htable⟩ := ofText_eq_ok_iff.1 htext
    obtain ⟨n, hn⟩ := timerPeriods_of_ofTable htable e he
    have hpos := hnanos e he
    have hvalue : e.2.nanos = n * 1000000 := by
      rw [hn]
      rfl
    omega
  · cases h

/-- Whatever is loaded, its timers have periods of a millisecond at least. -/
theorem timerPeriods_of_load {disk : Disk} {path : String} {c : Config}
    (h : load disk path = .ok c) : ∀ e ∈ c.timerPeriods, 1000000 ≤ e.2.nanos := by
  unfold load at h
  split at h
  · exact timerPeriods_of_ofFile h
  · cases h
    decide
  · cases h

/-- Settings are written unless one of their spans has more whole milliseconds than a signed 64-bit
word can hold. Whatever file has that text, loading it gives the settings with each span cut down to
whole milliseconds if the periods of all timers are a millisecond at least, and otherwise refuses
the file and names the first period that is less. Whatever file is loaded, the timers then have
periods of a millisecond at least. -/
theorem loaded_as_written (c : Config) :
    (c.toText? = none ↔ ∃ d ∈ c.spans, 9223372036854775807 < d.wholeMillis) ∧
    (∀ text (disk : Disk) path, c.toText? = some text → disk.read path = .ok (Utf8.bytes text) →
      ((∀ e ∈ c.timerPeriods, 1 ≤ e.2.wholeMillis) → load disk path = .ok c.floored) ∧
      (∀ before name d after, c.timerPeriods = before ++ (name, d) :: after →
        (∀ e ∈ before, 1 ≤ e.2.wholeMillis) → d.wholeMillis = 0 →
        load disk path = .error (.malformed path (name ++ " must be greater than zero")))) ∧
    (∀ (disk : Disk) path loaded, load disk path = .ok loaded →
      ∀ e ∈ loaded.timerPeriods, 1000000 ≤ e.2.nanos) := by
  refine ⟨toText?_eq_none_iff, fun text disk path htext hread => ⟨?_, ?_⟩, fun _ _ _ =>
    timerPeriods_of_load⟩
  · intro hperiods
    rw [load_of_toText? htext hread, checked_floored hperiods]
    rfl
  · intro before name d after hperiods hbefore hd
    rw [load_of_toText? htext hread, checked_floored_of_zero hperiods hbefore hd]
    rfl

/-- A span that is not one of whole milliseconds, the longest span that can be written, and a path
that takes two lines: they are written and loaded. With a period of less than a millisecond the file
is refused, although the settings themselves pass the check. -/
theorem loaded_as_written_at_the_ends :
    let c : Config := { Config.default with
      expirationDelay := ⟨1999999⟩, timeOutDelay := .ofMillis 9223372036854775807,
      storage := .file (some "a\"\n\"b") }
    let text := "poll_delay = 1000\nvisibility_check_delay = 60000\nexpiration_delay = 1\n"
      ++ "time_out_delay = 9223372036854775807\nlock_retry_delay = 10\nlock_max_tries = 100\n"
      ++ "history_clear_interval = 60000\n\n[storage]\ntype = \"file\"\n"
      ++ "path = \"\"\"\na\"\n\"b\"\"\"\n"
    let disk : Disk := ⟨[], .directory [("c", .file (Utf8.bytes text))]⟩
    (c.toText? = some text ∧ load disk "c" = .ok { c with expirationDelay := .ofMillis 1 }) ∧
    let rapid : Config := { Config.default with historyClearInterval := ⟨999999⟩ }
    ∃ text, rapid.toText? = some text ∧
      (rapid.checked = .ok rapid ∧
        load ⟨[], .directory [("c", .file (Utf8.bytes text))]⟩ "c"
          = .error (.malformed "c" "history_clear_interval must be greater than zero")) := by
  intro c text disk
  refine ⟨?_, ?_⟩
  · have htext : c.toText? = some text := by decide +kernel
    have hread : disk.read "c" = .ok (Utf8.bytes text) := rfl
    have hperiods : ∀ e ∈ c.timerPeriods, 1 ≤ e.2.wholeMillis := by decide
    have hfloored : c.floored = { c with expirationDelay := .ofMillis 1 } := by decide
    refine ⟨htext, ?_⟩
    rw [((loaded_as_written c).2.1 text disk "c" htext hread).1 hperiods, hfloored]
  · intro rapid
    have hspans : ∀ d ∈ rapid.spans, d.wholeMillis ≤ 9223372036854775807 := by decide
    have htext := toText?_eq_some_iff.2 ⟨hspans, rfl⟩
    exact ⟨_, htext, rfl, ((loaded_as_written rapid).2.1 _ _ "c" htext rfl).2
      [("poll_delay", rapid.pollDelay), ("visibility_check_delay", rapid.visibilityCheckDelay)]
      "history_clear_interval" rapid.historyClearInterval [] rfl (by decide) (by decide)⟩

end Config

end SharedSession
