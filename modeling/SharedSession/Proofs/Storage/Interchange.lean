import Mathlib.Data.List.Induction
import SharedSession.Proofs.Storage.Cell
import SharedSession.Proofs.Storage.Places
import SharedSession.Storage.File

set_option autoImplicit false

/-!
# A file in place of a cell of memory

Where no call fails and nobody else writes, a reader of records cannot tell whether they are kept in
a file or in memory: either medium answers with what was stored last. The text of a record holds no
white space, so nothing of it is trimmed away. Only a text that is empty altogether, that of a
record with no key but the empty one, is not found in the file, where it counts as nothing, while
memory keeps it; both are read as the same session without entries.

Whether calls succeed is settled at the start: where the file can be written once, no call fails
from then on. `Medium.openFile` is the file on the disks where that is so.

Main statements: `Medium.file_like_memory`, `Medium.succeedsAll_of_fresh`, and what speaks against
keeping every text as it is, `Medium.empty_text_not_kept`.
-/

namespace SharedSession

/-! ## Shared texts have no white space -/

theorem Percent.isBlank_asciiChar_of_mem_encodeByte {a b : UInt8} (h : a ∈ encodeByte b) :
    Text.isBlank (asciiChar a) = false := by
  have hall : (encodeByte b).all fun a => !Text.isBlank (asciiChar a) :=
    forall_byte (p := fun b => (encodeByte b).all fun a => !Text.isBlank (asciiChar a))
      (by decide +kernel) b
  rw [← Bool.not_eq_true']
  exact List.all_eq_true.1 hall a h

theorem Percent.isBlank_of_mem_encodeChars {s : String} {c : Char} (h : c ∈ encodeChars s) :
    Text.isBlank c = false := by
  obtain ⟨a, ha, rfl⟩ := List.mem_map.1 h
  obtain ⟨b, -, hab⟩ := List.mem_flatMap.1 ha
  exact isBlank_asciiChar_of_mem_encodeByte hab

theorem Text.mem_joined {sep c : Char} {ps : List (List Char)} (h : c ∈ joined sep ps) :
    c = sep ∨ ∃ p ∈ ps, c ∈ p := by
  fun_induction joined sep ps with
  | case1 => cases h
  | case2 p => exact .inr ⟨p, List.mem_singleton_self p, h⟩
  | case3 p q ps ih =>
    rcases List.mem_append.1 h with hp | h
    · exact .inr ⟨p, List.mem_cons_self, hp⟩
    · rcases List.mem_cons.1 h with rfl | h
      · exact .inl rfl
      · obtain hsep | ⟨r, hr, hc⟩ := ih h
        · exact .inl hsep
        · exact .inr ⟨r, List.mem_cons_of_mem p hr, hc⟩

namespace Record

/-- No character of a shared text is white space. -/
theorem isBlank_of_mem_encode {r : Record} {c : Char} (h : c ∈ r.encode.toList) :
    Text.isBlank c = false := by
  rw [encode, String.toList_ofList] at h
  rcases Text.mem_joined h with rfl | ⟨p, hp, hc⟩
  · rfl
  · obtain ⟨e, -, rfl⟩ := List.mem_map.1 hp
    rcases List.mem_append.1 hc with hkey | hc
    · exact Percent.isBlank_of_mem_encodeChars hkey
    · rcases List.mem_cons.1 hc with rfl | hvalue
      · rfl
      · exact Percent.isBlank_of_mem_encodeChars hvalue

theorem trim_encode (r : Record) : Text.trim r.encode = r.encode := by
  rw [Text.trim, Text.trimChars_eq_self, String.ofList_toList]
  · intro c hc
    exact isBlank_of_mem_encode (List.mem_of_mem_head? hc)
  · intro c hc
    exact isBlank_of_mem_encode (List.mem_of_getLast? hc)

/-- The text is empty where there is no key but the empty one. -/
theorem encode_eq_empty_iff {r : Record} : r.encode = "" ↔ r.erase "" = ∅ := by
  constructor
  · intro h
    rw [← decode_encode, h]
    rfl
  · intro h
    rw [← encode_erase_empty, h]
    rfl

end Record

namespace Medium

/-- A file keeps the text of a record as it is, unless that is empty. -/
theorem contentOf_encode (r : Record) :
    contentOf r.encode = if r.erase "" = ∅ then none else some r.encode := by
  rw [contentOf, r.trim_encode]
  simp only [Record.encode_eq_empty_iff]

/-- What a reader sees of a record in a file is what was stored of it. -/
theorem ofStored_contentOf_encode (r : Record) :
    Record.ofStored (contentOf r.encode) = r.erase "" := by
  rw [contentOf_encode]
  split
  · next h => rw [h]; rfl
  · exact r.decode_encode

/-! ## One call on a file -/

section File

variable {d d' : Disk} {path raw : String} {place : Place}

theorem readFile_of_locate_text
    (h : d.locate (.ofString path) = .ok (place, some (.file (Utf8.bytes raw)))) :
    readFile path d = .ok (contentOf raw) := by
  simp only [readFile, Disk.readText, Disk.read, h, bind, Except.bind, Utf8.ofBytes?_bytes]

theorem readFile_of_notFound (h : d.read path = .error .notFound) :
    readFile path d = .ok none := by
  simp only [readFile, Disk.readText, h, bind, Except.bind]

theorem read_of_locate_none (h : d.locate (.ofString path) = .ok (place, none)) :
    d.read path = .error .notFound := by
  simp only [Disk.read, h, bind, Except.bind]

/-- A file can be kept under a path: the way to it is there, and it ends at a place where nothing
stands, or a file with a text. -/
structure IsReady (d : Disk) (path : String) : Prop where
  endsInName : (PathText.ofString path).endsInName = true
  noSlash : (PathText.ofString path).endsWithSlash = false
  way : ∃ dir, (PathText.ofString path).parent? = some dir ∧
    d.HasWay dir.isAbsolute dir.names.reverse ∧ d.checkDraft dir = .ok ()
  place : ∃ place found, d.locate (.ofString path) = .ok (place, found) ∧
    ∀ n, found = some n → ∃ raw, n = .file (Utf8.bytes raw)

/-- All that writing a file does: it makes the way, and puts the text where the path leads. -/
theorem writeFile_eq_ok_iff :
    writeFile path raw d = (.ok (), d') ↔
      (PathText.ofString path).endsInName = true ∧ (PathText.ofString path).endsWithSlash = false ∧
      ∃ dir d₁ place found, (PathText.ofString path).parent? = some dir ∧
        Disk.makeWay dir.isAbsolute dir.names.reverse d = (.ok (), d₁) ∧
        d₁.checkDraft dir = .ok () ∧ d₁.locate (.ofString path) = .ok (place, found) ∧
        (∀ entries, found ≠ some (.directory entries)) ∧
        d' = d₁.put place (.file (Utf8.bytes raw)) := by
  constructor
  · intro h
    unfold writeFile at h
    split at h
    · cases h
    · next dir hdir =>
      split at h
      · cases h
      · next d₁ hmake =>
        split at h
        · cases h
        · next hdraft =>
          split at h
          · cases h
          · next hreplace =>
            cases h
            obtain ⟨hname, hslash, place, found, hlocate, hfound, rfl⟩ :=
              Disk.replace_eq_ok_iff.1 hreplace
            exact ⟨hname, hslash, dir, d₁, place, found, hdir, hmake, hdraft, hlocate, hfound, rfl⟩
  · rintro ⟨hname, hslash, dir, d₁, place, found, hdir, hmake, hdraft, hlocate, hfound, rfl⟩
    simp only [writeFile, hdir, hmake, hdraft,
      Disk.replace_eq_ok_iff.2 ⟨hname, hslash, place, found, hlocate, hfound, rfl⟩]

/-- Whether a file can be written does not depend on the text. -/
theorem exists_writeFile_of_writeFile (h : writeFile path raw d = (.ok (), d')) (text : String) :
    ∃ d', writeFile path text d = (.ok (), d') := by
  obtain ⟨hname, hslash, dir, d₁, place, found, hdir, hmake, hdraft, hlocate, hfound, -⟩ :=
    writeFile_eq_ok_iff.1 h
  exact ⟨_, writeFile_eq_ok_iff.2
    ⟨hname, hslash, dir, d₁, place, found, hdir, hmake, hdraft, hlocate, hfound, rfl⟩⟩

/-- What is written is there afterwards, and can be written over and taken away. -/
theorem writeFile_eq_ok (h : writeFile path raw d = (.ok (), d')) :
    readFile path d' = .ok (contentOf raw) ∧ IsReady d' path := by
  obtain ⟨hname, hslash, dir, d₁, place, found, hdir, hmake, hdraft, hlocate, hfound, rfl⟩ :=
    writeFile_eq_ok_iff.1 h
  obtain ⟨hkeeps, hthere⟩ := Disk.locate_put hlocate hfound (.file (Utf8.bytes raw))
  refine ⟨readFile_of_locate_text hthere, hname, hslash, ⟨dir, hdir, ?_, hdraft⟩,
    place, _, hthere, fun n hn => ⟨raw, (Option.some.inj hn).symm⟩⟩
  exact hkeeps.hasWay (Disk.makeWay_eq_ok hmake).2

/-- What is taken away is not there afterwards. -/
theorem dropFile_eq_ok (h : dropFile path d = (.ok (), d')) : readFile path d' = .ok none := by
  unfold dropFile at h
  split at h
  · next hremove =>
    cases h
    obtain ⟨place, content, hlocate, rfl⟩ := Disk.removeFile_eq_ok_iff.1 hremove
    have hgone := (Disk.locate_remove hlocate (PathText.names_ofString_ne_nil path)
      (fun _ => nofun)).2
    exact readFile_of_notFound (read_of_locate_none hgone)
  · next hnone =>
    cases h
    exact readFile_of_notFound (Disk.removeFile_eq_notFound_iff.1 hnone)
  · cases h

/-- Where there is no file, none is taken away. -/
theorem dropFile_of_notFound (h : d.read path = .error .notFound) :
    dropFile path d = (.ok (), d) := by
  rw [dropFile, Disk.removeFile_eq_notFound_iff.2 h]

theorem IsReady.exists_readFile (h : IsReady d path) :
    ∃ content, readFile path d = .ok content := by
  obtain ⟨place, found, hlocate, htext⟩ := h.place
  cases found with
  | none => exact ⟨none, readFile_of_notFound (read_of_locate_none hlocate)⟩
  | some n =>
    obtain ⟨raw, rfl⟩ := htext n rfl
    exact ⟨contentOf raw, readFile_of_locate_text hlocate⟩

theorem IsReady.exists_writeFile (h : IsReady d path) (raw : String) :
    ∃ d', writeFile path raw d = (.ok (), d') := by
  obtain ⟨dir, hdir, hway, hdraft⟩ := h.way
  obtain ⟨place, found, hlocate, htext⟩ := h.place
  refine ⟨_, writeFile_eq_ok_iff.2 ⟨h.endsInName, h.noSlash, dir, d, place, found, hdir,
    Disk.makeWay_of_hasWay hway, hdraft, hlocate, ?_, rfl⟩⟩
  rintro entries rfl
  obtain ⟨raw, hraw⟩ := htext _ rfl
  cases hraw

theorem IsReady.exists_dropFile (h : IsReady d path) :
    ∃ d', dropFile path d = (.ok (), d') ∧ IsReady d' path := by
  obtain ⟨place, found, hlocate, htext⟩ := h.place
  cases found with
  | none => exact ⟨d, dropFile_of_notFound (read_of_locate_none hlocate), h⟩
  | some n =>
    obtain ⟨raw, rfl⟩ := htext n rfl
    obtain ⟨dir, hdir, hway, hdraft⟩ := h.way
    obtain ⟨hkeeps, hgone⟩ :=
      Disk.locate_remove hlocate (PathText.names_ofString_ne_nil path) (fun _ => nofun)
    refine ⟨d.remove place, ?_, h.endsInName, h.noSlash, ⟨dir, hdir, hkeeps.hasWay hway, hdraft⟩,
      place, none, hgone, fun _ => nofun⟩
    rw [dropFile, Disk.removeFile_eq_ok_iff.2 ⟨place, _, hlocate, rfl⟩]

end File

end Medium

/-! ## Sequences of calls -/

/-- A call through the view of records. -/
inductive SessionCall where
  | load
  | save (r : Record)
  | wipe

namespace SessionCall

/-- The record that a call leaves to be seen, if it changes anything. -/
def left? : SessionCall → Option Record
  | .load => none
  | .save r => some (r.erase "")
  | .wipe => some ∅

/-- The record that calls one after another leave to be seen: that of the last one that changes
anything, and no session where there is none. -/
def leftBy (calls : List SessionCall) : Record := (calls.filterMap left?).getLast?.getD ∅

theorem leftBy_concat (calls : List SessionCall) (c : SessionCall) :
    leftBy (calls ++ [c]) = c.left?.getD (leftBy calls) := by
  unfold leftBy
  rw [List.filterMap_append]
  cases hleft : c.left? <;> simp [hleft]

end SessionCall

namespace Medium

section Calls

variable {μ : Type} (m : Medium μ)

/-- The medium after a call. -/
def after (s : μ) : SessionCall → μ
  | .load => (m.load s).2
  | .save r => m.save r s
  | .wipe => m.wipe s

/-- The medium after calls one after another. -/
def afterAll (s : μ) (calls : List SessionCall) : μ := calls.foldl m.after s

/-- What the medium itself answers behind a call is no failure. -/
def Succeeds (s : μ) : SessionCall → Prop
  | .load => ∃ content, (m.retrieve s).1 = .ok content
  | .save r => if r.isEmpty then (m.clear s).1 = .ok () else (m.persist r.encode s).1 = .ok ()
  | .wipe => (m.clear s).1 = .ok ()

/-- No call fails. -/
def SucceedsAll (s : μ) : List SessionCall → Prop
  | [] => True
  | c :: calls => m.Succeeds s c ∧ SucceedsAll (m.after s c) calls

/-- The records that are answered, in order. -/
def answers (s : μ) : List SessionCall → List Record
  | [] => []
  | .load :: calls => (m.load s).1 :: answers (m.load s).2 calls
  | c :: calls => answers (m.after s c) calls

variable {m} {s : μ} {calls before rest : List SessionCall} {c : SessionCall}

theorem succeeds_save_of_isEmpty {r : Record} (h : r.isEmpty = true) :
    m.Succeeds s (.save r) ↔ (m.clear s).1 = .ok () := by
  rw [Succeeds, if_pos h]

theorem succeeds_save_of_not_isEmpty {r : Record} (h : ¬ r.isEmpty = true) :
    m.Succeeds s (.save r) ↔ (m.persist r.encode s).1 = .ok () := by
  rw [Succeeds, if_neg h]

theorem after_save_of_isEmpty {r : Record} (h : r.isEmpty = true) :
    m.after s (.save r) = (m.clear s).2 := by
  rw [after, save, if_pos h, wipe]

theorem after_save_of_not_isEmpty {r : Record} (h : ¬ r.isEmpty = true) :
    m.after s (.save r) = (m.persist r.encode s).2 := by
  rw [after, save, if_neg h]

theorem afterAll_concat (m : Medium μ) (s : μ) (calls : List SessionCall) (c : SessionCall) :
    m.afterAll s (calls ++ [c]) = m.after (m.afterAll s calls) c :=
  List.foldl_concat ..

theorem succeedsAll_append :
    m.SucceedsAll s (before ++ rest) ↔
      m.SucceedsAll s before ∧ m.SucceedsAll (m.afterAll s before) rest := by
  induction before generalizing s with
  | nil => simp [SucceedsAll, afterAll]
  | cons c before ih => rw [List.cons_append, SucceedsAll, SucceedsAll, ih, and_assoc]; rfl

/-- Media answer alike if they do so at each single call. -/
theorem answers_congr {ν : Type} {m' : Medium ν} {t : ν}
    (h : ∀ before rest, calls = before ++ .load :: rest →
      (m.load (m.afterAll s before)).1 = (m'.load (m'.afterAll t before)).1) :
    m.answers s calls = m'.answers t calls := by
  induction calls generalizing s t with
  | nil => rfl
  | cons c calls ih =>
    have htail : m.answers (m.after s c) calls = m'.answers (m'.after t c) calls :=
      ih fun before rest heq => h (c :: before) rest (by rw [heq, List.cons_append])
    cases c with
    | load => exact congrArg₂ List.cons (h [] calls rfl) htail
    | save r => exact htail
    | wipe => exact htail

end Calls

/-! ## Sequences of calls on a file and in memory -/

variable {d : Disk} {path : String} {r : Record} {calls : List SessionCall}

/-- A reader of the file sees a record. -/
def FileShows (path : String) (d : Disk) (r : Record) : Prop :=
  ∃ content, readFile path d = .ok content ∧ Record.ofStored content = r

theorem FileShows.load_eq (h : FileShows path d r) : ((Medium.file path).load d).1 = r := by
  obtain ⟨content, hread, rfl⟩ := h
  show recordOf (readFile path d) = Record.ofStored content
  rw [hread]
  rfl

theorem fileShows_after_clear (hc : ((Medium.file path).clear d).1 = .ok ()) :
    FileShows path ((Medium.file path).clear d).2 ∅ :=
  ⟨none, dropFile_eq_ok (Prod.ext hc rfl), rfl⟩

/-- The text of a record that is stored is the one that is found, if it is not empty. -/
theorem retrieve_after_save (hfull : ¬ r.isEmpty = true)
    (hc : (Medium.file path).Succeeds d (.save r)) :
    ((Medium.file path).retrieve ((Medium.file path).after d (.save r))).1
      = .ok (contentOf r.encode) := by
  rw [succeeds_save_of_not_isEmpty hfull] at hc
  rw [after_save_of_not_isEmpty hfull]
  exact (writeFile_eq_ok (Prod.ext hc rfl)).1

/-- After a call that does not fail, a reader sees what it left, or what was there before. -/
theorem FileShows.after {c : SessionCall} (h : FileShows path d r)
    (hc : (Medium.file path).Succeeds d c) :
    FileShows path ((Medium.file path).after d c) (c.left?.getD r) := by
  cases c with
  | load => exact h
  | wipe => exact fileShows_after_clear hc
  | save r =>
    show FileShows path _ (r.erase "")
    by_cases hempty : r.isEmpty = true
    · rw [succeeds_save_of_isEmpty hempty] at hc
      rw [after_save_of_isEmpty hempty, Record.isEmpty_iff.1 hempty, Record.erase_empty]
      exact fileShows_after_clear hc
    · exact ⟨_, retrieve_after_save hempty hc, ofStored_contentOf_encode r⟩

/-- A reader of the file sees what the calls up to now have left. -/
theorem FileShows.afterAll (h : FileShows path d ∅)
    (hwell : (Medium.file path).SucceedsAll d calls) :
    FileShows path ((Medium.file path).afterAll d calls) (SessionCall.leftBy calls) := by
  induction calls using List.reverseRecOn with
  | nil => exact h
  | append_singleton calls c ih =>
    obtain ⟨hbefore, hc, -⟩ := succeedsAll_append.1 hwell
    rw [afterAll_concat, SessionCall.leftBy_concat]
    exact (ih hbefore).after hc

/-- A file can be written, and taken away if it is there: either it has been kept there before, or
there is none and a text could be written. -/
def IsOpen (path : String) (d : Disk) : Prop :=
  IsReady d path ∨
    d.read path = .error .notFound ∧ ((Medium.file path).persist "" d).1 = .ok ()

theorem IsOpen.persist (h : IsOpen path d) (raw : String) :
    ((Medium.file path).persist raw d).1 = .ok () ∧
      IsOpen path ((Medium.file path).persist raw d).2 := by
  obtain ⟨d', hwrite⟩ : ∃ d', writeFile path raw d = (.ok (), d') := by
    rcases h with hready | ⟨-, hcan⟩
    · exact hready.exists_writeFile raw
    · exact exists_writeFile_of_writeFile (Prod.ext hcan rfl) raw
  show (writeFile path raw d).1 = _ ∧ IsOpen path (writeFile path raw d).2
  rw [hwrite]
  exact ⟨rfl, .inl (writeFile_eq_ok hwrite).2⟩

theorem IsOpen.clear (h : IsOpen path d) :
    ((Medium.file path).clear d).1 = .ok () ∧ IsOpen path ((Medium.file path).clear d).2 := by
  show (dropFile path d).1 = _ ∧ IsOpen path (dropFile path d).2
  rcases h with hready | ⟨hnone, hcan⟩
  · obtain ⟨d', hdrop, hready'⟩ := hready.exists_dropFile
    rw [hdrop]
    exact ⟨rfl, .inl hready'⟩
  · rw [dropFile_of_notFound hnone]
    exact ⟨rfl, .inr ⟨hnone, hcan⟩⟩

theorem IsOpen.retrieve (h : IsOpen path d) :
    ∃ content, ((Medium.file path).retrieve d).1 = .ok content := by
  rcases h with hready | ⟨hnone, -⟩
  · exact hready.exists_readFile
  · exact ⟨none, readFile_of_notFound hnone⟩

/-- A call on such a file does not fail, and leaves it so. -/
theorem IsOpen.step (h : IsOpen path d) (c : SessionCall) :
    (Medium.file path).Succeeds d c ∧ IsOpen path ((Medium.file path).after d c) := by
  cases c with
  | load => exact ⟨h.retrieve, h⟩
  | wipe => exact h.clear
  | save r =>
    by_cases hempty : r.isEmpty = true
    · rw [succeeds_save_of_isEmpty hempty, after_save_of_isEmpty hempty]
      exact h.clear
    · rw [succeeds_save_of_not_isEmpty hempty, after_save_of_not_isEmpty hempty]
      exact h.persist r.encode

/-- Where there is no file at first and one could be written, no call ever fails. -/
theorem succeedsAll_of_fresh (hnone : d.read path = .error .notFound)
    (hcan : ((Medium.file path).persist "" d).1 = .ok ()) (calls : List SessionCall) :
    (Medium.file path).SucceedsAll d calls := by
  have hopen : IsOpen path d := .inr ⟨hnone, hcan⟩
  clear hnone hcan
  induction calls generalizing d with
  | nil => trivial
  | cons c calls ih => exact ⟨(hopen.step c).1, ih (hopen.step c).2⟩

/-- A reader of a cell of memory sees the same. -/
theorem load_memory_afterAll (locking : Bool) (calls : List SessionCall) :
    ((memory locking).load ((memory locking).afterAll none calls)).1
      = SessionCall.leftBy calls := by
  induction calls using List.reverseRecOn with
  | nil => rfl
  | append_singleton calls c ih =>
    rw [afterAll_concat, SessionCall.leftBy_concat]
    cases c with
    | load => exact ih
    | wipe => rfl
    | save r => exact Record.ofStored_stored r

/-- Where no call fails and nothing is stored at first, a file and a cell of memory answer alike:
with the record that was stored last, without an entry under the empty key, and with no session
where none was stored since the last removal. A text that is stored is not trimmed; memory answers
with it as it is, and so does the file unless it is empty, which is the text of a record with no key
but the empty one: then the file answers that there is none. -/
theorem file_like_memory (locking : Bool)
    (hnothing : ((Medium.file path).retrieve d).1 = .ok none)
    (hwell : (Medium.file path).SucceedsAll d calls) :
    (Medium.file path).answers d calls = (memory locking).answers none calls ∧
    (∀ before rest, calls = before ++ .load :: rest →
      ((Medium.file path).load ((Medium.file path).afterAll d before)).1
        = SessionCall.leftBy before ∧
      ((memory locking).load ((memory locking).afterAll none before)).1
        = SessionCall.leftBy before) ∧
    (∀ before r rest, calls = before ++ .save r :: rest → r.isEmpty = false →
      Text.trim r.encode = r.encode ∧
      ((Medium.file path).retrieve ((Medium.file path).afterAll d (before ++ [.save r]))).1
        = .ok (if r.erase "" = ∅ then none else some r.encode) ∧
      ((memory locking).retrieve ((memory locking).afterAll none (before ++ [.save r]))).1
        = .ok (some r.encode)) := by
  have hload : ∀ before rest, calls = before ++ .load :: rest →
      ((Medium.file path).load ((Medium.file path).afterAll d before)).1
        = SessionCall.leftBy before ∧
      ((memory locking).load ((memory locking).afterAll none before)).1
        = SessionCall.leftBy before := by
    rintro before rest rfl
    have hshows : FileShows path d ∅ := ⟨none, hnothing, rfl⟩
    exact ⟨(hshows.afterAll (succeedsAll_append.1 hwell).1).load_eq,
      load_memory_afterAll locking before⟩
  refine ⟨answers_congr fun before rest heq => ?_, hload, ?_⟩
  · rw [(hload before rest heq).1, (hload before rest heq).2]
  · rintro before r rest rfl hfull
    obtain ⟨-, hc, -⟩ := succeedsAll_append.1 hwell
    have hnonempty : ¬ r.isEmpty = true := by
      rw [hfull]
      exact Bool.false_ne_true
    refine ⟨r.trim_encode, ?_, ?_⟩
    · rw [afterAll_concat, ← contentOf_encode]
      exact retrieve_after_save hnonempty hc
    · rw [afterAll_concat, after_save_of_not_isEmpty hnonempty]
      rfl

/-- A file in a directory that has yet to be made, before anything is stored, after a record with
white space in it, after one that has nothing but an entry under the empty key, and after a
removal. -/
theorem file_like_memory_throughout :
    let mixed := ((∅ : Record).set " note\u00a0" "a&b =\n").set "" "lost"
    let calls := [.load, .save mixed, .load, .save ((∅ : Record).set "" "x"), .load, .wipe, .load]
    (((Medium.file "dir/s").retrieve Disk.empty).1 = .ok none ∧
      (Medium.file "dir/s").SucceedsAll Disk.empty calls) ∧
    (Medium.file "dir/s").answers Disk.empty calls = (memory false).answers none calls ∧
    ((Medium.file "dir/s").load ((Medium.file "dir/s").afterAll Disk.empty [.load, .save mixed])).1
      = (∅ : Record).set " note\u00a0" "a&b =\n" ∧
    ((Medium.file "dir/s").retrieve
        ((Medium.file "dir/s").afterAll Disk.empty [.load, .save mixed])).1
      = .ok (some "%20note%C2%A0=a%26b%20%3D%0A") := by
  intro mixed calls
  have hnone : Disk.empty.read "dir/s" = .error .notFound := by rfl
  have hcan : ((Medium.file "dir/s").persist "" Disk.empty).1 = .ok () := by rfl
  have hwell := succeedsAll_of_fresh hnone hcan calls
  have hnothing : ((Medium.file "dir/s").retrieve Disk.empty).1 = .ok none :=
    readFile_of_notFound hnone
  obtain ⟨halike, hload, htext⟩ := file_like_memory false hnothing hwell
  refine ⟨⟨hnothing, hwell⟩, halike, ?_, ?_⟩
  · rw [(hload [.load, .save mixed] _ rfl).1]
    decide +kernel
  · refine (htext [.load] mixed _ rfl (by decide +kernel)).2.1.trans ?_
    decide +kernel

/-- A record with nothing but an entry under the empty key is not one without entries, so its text,
which is empty, is stored. Memory keeps that text; the file has it but answers that there is
none. -/
theorem empty_text_not_kept :
    let r := (∅ : Record).set "" "x"
    (r.isEmpty = false ∧ r.encode = "") ∧
    ((memory true).retrieve ((memory true).save r none)).1 = .ok (some r.encode) ∧
    (Backing.file "s").peek ((Medium.file "s").save r Disk.empty) = some r.encode ∧
    ((Medium.file "s").retrieve ((Medium.file "s").save r Disk.empty)).1 = .ok none := by
  decide +kernel

end Medium

/-! ## A file that can be written, as a medium -/

/-- The file with the given path, on the disks where it can be written and no others. -/
def Medium.openFile (path : String) : Medium {d : Disk // IsOpen path d} where
  locking := (Medium.file path).locking
  retrieve d := (((Medium.file path).retrieve d.1).1, d)
  persist raw d :=
    (((Medium.file path).persist raw d.1).1,
      ⟨((Medium.file path).persist raw d.1).2, (d.2.persist raw).2⟩)
  clear d := (((Medium.file path).clear d.1).1, ⟨((Medium.file path).clear d.1).2, d.2.clear.2⟩)

/-- The text that a reader finds in such a file. -/
def Backing.openFile (path : String) : Backing {d : Disk // Medium.IsOpen path d} where
  peek d := match Medium.readFile path d.1 with
    | .ok content => content
    | .error _ => none
  overwrite raw d := match raw with
    | some text => ((Medium.openFile path).persist text d).2
    | none => ((Medium.openFile path).clear d).2

namespace Medium

variable {path : String}

theorem peek_openFile {d : {d : Disk // IsOpen path d}} {content : Option String}
    (h : readFile path d.1 = .ok content) : (Backing.openFile path).peek d = content := by
  simp only [Backing.openFile, h]

theorem retrieve_openFile (d : {d : Disk // IsOpen path d}) :
    (openFile path).retrieve d = (.ok ((Backing.openFile path).peek d), d) := by
  obtain ⟨content, hread⟩ := d.2.retrieve
  rw [peek_openFile hread]
  exact Prod.ext hread rfl

theorem persist_openFile (raw : String) (d : {d : Disk // IsOpen path d}) :
    ∃ t, (openFile path).persist raw d = (.ok (), t) ∧
      (Backing.openFile path).peek t = contentOf raw := by
  have hanswer : ((openFile path).persist raw d).1 = .ok () := (d.2.persist raw).1
  have hwrite : writeFile path raw d.1 = (.ok (), ((openFile path).persist raw d).2.1) :=
    Prod.ext hanswer rfl
  exact ⟨_, Prod.ext hanswer rfl, peek_openFile (writeFile_eq_ok hwrite).1⟩

theorem clear_openFile (d : {d : Disk // IsOpen path d}) :
    ∃ t, (openFile path).clear d = (.ok (), t) ∧ (Backing.openFile path).peek t = none := by
  have hanswer : ((openFile path).clear d).1 = .ok () := d.2.clear.1
  have hdrop : dropFile path d.1 = (.ok (), ((openFile path).clear d).2.1) :=
    Prod.ext hanswer rfl
  exact ⟨_, Prod.ext hanswer rfl, peek_openFile (dropFile_eq_ok hdrop)⟩

end Medium

end SharedSession
