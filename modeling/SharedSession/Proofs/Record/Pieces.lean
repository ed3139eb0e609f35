import Mathlib.Data.List.Induction
import SharedSession.Proofs.Record.RoundTrip

set_option autoImplicit false

/-!
# A shared text piece by piece

Each piece of a shared text stands for one entry or for none, whatever the others are. `Denotes`
says for which, without a word about how a piece is read. The text as a whole stands for the
entries of its pieces put over one another from left to right: a piece that is no entry leaves no
trace wherever it stands, and of the entries under one key the last one stays, however their keys
are spelled.

Main statement: `Record.read_piece_by_piece`.
-/

namespace SharedSession

/-! ## Dividing a text -/

namespace Text

/-- A text is cut at the first occurrence of the separator. -/
theorem cut?_eq_some_iff {sep : Char} {p a b : List Char} :
    cut? sep p = some (a, b) ↔ sep ∉ a ∧ p = a ++ sep :: b := by
  constructor
  · intro h
    induction p generalizing a with
    | nil => cases h
    | cons c p ih =>
      unfold cut? at h
      split at h
      · next hc =>
        cases h
        exact ⟨List.not_mem_nil, by rw [hc, List.nil_append]⟩
      · next hc =>
        obtain ⟨⟨a', b'⟩, hcut, heq⟩ := Option.map_eq_some_iff.1 h
        cases heq
        obtain ⟨hmem, rfl⟩ := ih hcut
        exact ⟨List.not_mem_cons_of_ne_of_not_mem (Ne.symm hc) hmem, rfl⟩
  · rintro ⟨hmem, rfl⟩
    exact cut?_append_cons hmem b

/-- No piece contains the separator. -/
theorem not_mem_of_mem_pieces {sep : Char} {cs p : List Char} (h : p ∈ pieces sep cs) :
    sep ∉ p := by
  induction cs generalizing p with
  | nil =>
    rw [List.mem_singleton.1 h]
    exact List.not_mem_nil
  | cons c cs ih =>
    unfold pieces at h
    split at h
    · rcases List.mem_cons.1 h with rfl | hmem
      · exact List.not_mem_nil
      · exact ih hmem
    · next hc =>
      split at h
      · next q qs hpieces =>
        rw [hpieces] at ih
        rcases List.mem_cons.1 h with rfl | hmem
        · exact List.not_mem_cons_of_ne_of_not_mem (Ne.symm hc) (ih List.mem_cons_self)
        · exact ih (List.mem_cons_of_mem q hmem)
      · rw [List.mem_singleton.1 h, List.mem_singleton]
        exact Ne.symm hc

end Text

/-- A text is read from its percent coding: the bytes that the coding stands for are its own. -/
theorem Percent.decode?_eq_some_iff {s t : String} :
    decode? s = some t ↔ decodeBytes (Utf8.bytes s) = Utf8.bytes t := by
  constructor
  · exact Utf8.eq_bytes_of_ofBytes?
  · intro h
    rw [decode?, h, Utf8.ofBytes?_bytes]

namespace Record

/-! ## What a piece stands for -/

/-- A piece stands for an entry: in front of its first equals sign there is a percent coding of the
key, which is not empty, and behind it one of the value. -/
inductive Denotes : List Char → String → String → Prop where
  | intro {k v : List Char} {key value : String} (hfirst : '=' ∉ k)
      (hkey : Percent.decodeBytes (Utf8.bytes (.ofList k)) = Utf8.bytes key) (hne : key ≠ "")
      (hvalue : Percent.decodeBytes (Utf8.bytes (.ofList v)) = Utf8.bytes value) :
      Denotes (k ++ '=' :: v) key value

/-- A piece is read as the entry that it stands for. -/
theorem entry?_eq_some_iff {p : List Char} {key value : String} :
    entry? p = some (key, value) ↔ Denotes p key value := by
  constructor
  · intro h
    simp only [Option.bind_eq_bind, entry?, Option.bind_eq_some_iff] at h
    obtain ⟨⟨k, v⟩, hcut, key', hkey, hif⟩ := h
    obtain ⟨hfirst, rfl⟩ := Text.cut?_eq_some_iff.1 hcut
    split at hif
    · cases hif
    · next hne =>
      obtain ⟨value', hvalue, heq⟩ := Option.bind_eq_some_iff.1 hif
      cases heq
      exact .intro hfirst (Percent.decode?_eq_some_iff.1 hkey) hne
        (Percent.decode?_eq_some_iff.1 hvalue)
  · rintro ⟨hfirst, hkey, hne, hvalue⟩
    simp only [Option.bind_eq_bind, entry?, Text.cut?_append_cons hfirst, Option.bind_some,
      Percent.decode?_eq_some_iff.2 hkey, Percent.decode?_eq_some_iff.2 hvalue, if_neg hne]

/-- A piece is an entry. -/
def IsEntry (p : List Char) : Prop := ∃ key value, Denotes p key value

theorem isEntry_iff {p : List Char} : IsEntry p ↔ entry? p ≠ none := by
  rw [Option.ne_none_iff_exists']
  constructor
  · rintro ⟨key, value, h⟩
    exact ⟨(key, value), entry?_eq_some_iff.2 h⟩
  · rintro ⟨⟨key, value⟩, h⟩
    exact ⟨key, value, entry?_eq_some_iff.1 h⟩

instance : DecidablePred IsEntry := fun _ => decidable_of_iff _ isEntry_iff.symm

theorem entry?_of_not_isEntry {p : List Char} (h : ¬ IsEntry p) : entry? p = none := by
  rw [isEntry_iff, not_not] at h
  exact h

/-- The pieces of a shared text that are entries, in their order. -/
def entryPieces (raw : String) : List (List Char) :=
  (Text.pieces '&' raw.toList).filter fun p => IsEntry p

/-! ## Records over one another -/

/-- The record with the entries of another one put over its own. -/
def overriddenBy (r s : Record) : Record := r.setAll s.toList

@[simp] theorem get?_overriddenBy (r s : Record) (key : String) :
    (r.overriddenBy s).get? key = (s.get? key).or (r.get? key) := by
  rw [overriddenBy]
  cases hget : s.get? key with
  | some value =>
    exact get?_setAll_of_mem (e := (key, value)) (pairwise_ne_toList s) (mem_toList_iff.2 hget)
  | none =>
    refine get?_setAll_of_forall_ne ?_
    rintro e he rfl
    rw [mem_toList_iff.1 he] at hget
    cases hget

/-- Putting entries in one after another is putting the record of the entries over what is there. -/
theorem setAll_eq_overriddenBy (r : Record) (es : List (String × String)) :
    r.setAll es = r.overriddenBy (ofList es) := by
  -- the induction takes an entry off the end, so that the last one decides on both sides
  induction es using List.reverseRecOn with
  | nil =>
    ext1 key
    rw [get?_overriddenBy, setAll_nil, show (ofList []).get? key = none from get?_empty key,
      Option.none_or]
  | append_singleton es e ih =>
    ext1 key
    rw [ofList, setAll_append, setAll_append, ih, get?_overriddenBy]
    simp only [setAll_cons, setAll_nil, get?_set, get?_overriddenBy, ofList]
    split <;> rfl

theorem ofList_append (es fs : List (String × String)) :
    ofList (es ++ fs) = (ofList es).overriddenBy (ofList fs) := by
  rw [ofList, setAll_append, setAll_eq_overriddenBy]
  rfl

/-- The record of entries is decided by the last one under each key. -/
theorem get?_ofList_eq_some_iff {es : List (String × String)} {key value : String} :
    (ofList es).get? key = some value ↔
      ∃ before after, es = before ++ (key, value) :: after ∧ ∀ e ∈ after, e.1 ≠ key := by
  constructor
  · intro h
    induction es using List.reverseRecOn with
    | nil =>
      rw [show (ofList []).get? key = none from get?_empty key] at h
      cases h
    | append_singleton es e ih =>
      rw [ofList, setAll_append, setAll_cons, setAll_nil, get?_set] at h
      split at h
      · next hkey =>
        cases h
        exact ⟨es, [], by rw [← hkey], fun _ hmem => absurd hmem List.not_mem_nil⟩
      · next hkey =>
        obtain ⟨before, after, rfl, hafter⟩ := ih h
        refine ⟨before, after ++ [e], by simp, fun x hx => ?_⟩
        rcases List.mem_append.1 hx with hold | hnew
        · exact hafter x hold
        · rw [List.mem_singleton.1 hnew]
          exact hkey
  · rintro ⟨before, after, rfl, hafter⟩
    rw [ofList, setAll_append, setAll_cons, get?_setAll_of_forall_ne hafter, get?_set, if_pos rfl]

/-! ## The whole text -/

/-- What stands before an ampersand and what stands behind it are read apart. -/
theorem decode_append (a b : String) :
    decode (a ++ "&" ++ b) = (decode a).overriddenBy (decode b) := by
  have hchars : (a ++ "&" ++ b).toList = a.toList ++ '&' :: b.toList := by
    simp [String.toList_append]
  rw [decode, hchars, Text.pieces_append_cons, List.filterMap_append, ofList_append]
  rfl

/-- A piece on its own is read as the entry that it stands for. -/
theorem decode_piece {p : List Char} (h : '&' ∉ p) :
    decode (.ofList p) = ofList ([p].filterMap entry?) := by
  rw [decode, String.toList_ofList, Text.pieces_of_not_mem h]

theorem decode_of_denotes {p : List Char} (h : '&' ∉ p) {key value : String}
    (hp : Denotes p key value) : decode (.ofList p) = (∅ : Record).set key value := by
  rw [decode_piece h, List.filterMap_cons_some (entry?_eq_some_iff.2 hp)]
  rfl

theorem decode_of_not_isEntry {p : List Char} (h : '&' ∉ p) (hp : ¬ IsEntry p) :
    decode (.ofList p) = ∅ := by
  rw [decode_piece h, List.filterMap_cons_none (entry?_of_not_isEntry hp)]
  rfl

/-- A text is read as its pieces are read, each put over those before it. -/
theorem decode_eq_foldl (raw : String) :
    decode raw = ((Text.pieces '&' raw.toList).map fun p => decode (.ofList p)).foldl
      overriddenBy ∅ := by
  have hall : ∀ (ps : List (List Char)) (r : Record), (∀ p ∈ ps, '&' ∉ p) →
      r.setAll (ps.filterMap entry?)
        = (ps.map fun p => decode (.ofList p)).foldl overriddenBy r := by
    intro ps
    induction ps with
    | nil => exact fun r _ => rfl
    | cons p ps ih =>
      intro r hps
      have hrest := ih (r.overriddenBy (decode (.ofList p)))
        fun q hq => hps q (List.mem_cons_of_mem p hq)
      rw [List.map_cons, List.foldl_cons, ← hrest, decode_piece (hps p List.mem_cons_self),
        ← setAll_eq_overriddenBy, ← setAll_append]
      cases hentry : entry? p <;> simp [hentry]
  exact hall _ _ fun p hp => Text.not_mem_of_mem_pieces hp

/-- Pieces that are no entries make no difference. -/
theorem decode_congr {a b : String} (h : entryPieces a = entryPieces b) : decode a = decode b := by
  have hkept : ∀ raw : String,
      (Text.pieces '&' raw.toList).filterMap entry? = (entryPieces raw).filterMap entry? := by
    intro raw
    rw [entryPieces, List.filterMap_filter]
    refine List.filterMap_congr fun p _ => ?_
    split
    · rfl
    · next hp => exact entry?_of_not_isEntry (by simpa using hp)
  rw [decode, decode, hkept a, hkept b, h]

/-- The last piece that stands for an entry under a key decides what is found there. -/
theorem get?_decode_eq_some_iff {raw key value : String} :
    (decode raw).get? key = some value ↔
      ∃ before p after, Text.pieces '&' raw.toList = before ++ p :: after ∧ Denotes p key value ∧
        ∀ q ∈ after, ∀ other, ¬ Denotes q key other := by
  rw [decode, get?_ofList_eq_some_iff]
  constructor
  · rintro ⟨es, fs, heq, hlast⟩
    obtain ⟨before, rest, hpieces, -, hrest⟩ := List.filterMap_eq_append_iff.1 heq
    obtain ⟨skipped, p, after, rfl, hskipped, hp, hafter⟩ := List.filterMap_eq_cons_iff.1 hrest
    refine ⟨before ++ skipped, p, after, by rw [hpieces, List.append_assoc],
      entry?_eq_some_iff.1 hp, fun q hq other hother => ?_⟩
    refine hlast (key, other) ?_ rfl
    rw [← hafter]
    exact List.mem_filterMap.2 ⟨q, hq, entry?_eq_some_iff.2 hother⟩
  · rintro ⟨before, p, after, heq, hp, hlast⟩
    refine ⟨before.filterMap entry?, after.filterMap entry?, ?_, ?_⟩
    · rw [heq, List.filterMap_append, List.filterMap_cons_some (entry?_eq_some_iff.2 hp)]
    · rintro ⟨key', other⟩ he rfl
      obtain ⟨q, hq, hother⟩ := List.mem_filterMap.1 he
      exact hlast q hq other (entry?_eq_some_iff.1 hother)

/-- A shared text is read piece by piece. What is in front of an ampersand and what is behind it are
read apart, and where both have an entry under a key the one behind stays; so the text is read as its
pieces are, each put over those before it. A piece on its own is read as the entry that it stands
for, and one that is no entry as nothing. Where pieces that are no entries stand, and whether there
are any, makes no difference; and under each key the last piece that stands for an entry decides. -/
theorem read_piece_by_piece :
    (∀ a b key : String,
      (decode (a ++ "&" ++ b)).get? key = ((decode b).get? key).or ((decode a).get? key)) ∧
    (∀ raw : String, decode raw
      = ((Text.pieces '&' raw.toList).map fun p => decode (.ofList p)).foldl overriddenBy ∅) ∧
    (∀ (p : List Char) (key value : String), '&' ∉ p → Denotes p key value →
      decode (.ofList p) = (∅ : Record).set key value) ∧
    (∀ p : List Char, '&' ∉ p → ¬ IsEntry p → decode (.ofList p) = ∅) ∧
    (∀ a b : String, entryPieces a = entryPieces b → decode a = decode b) ∧
    (∀ raw key value : String, (decode raw).get? key = some value ↔
      ∃ before p after, Text.pieces '&' raw.toList = before ++ p :: after ∧ Denotes p key value ∧
        ∀ q ∈ after, ∀ other, ¬ Denotes q key other) := by
  refine ⟨fun a b key => ?_, decode_eq_foldl, fun p key value hamp => decode_of_denotes hamp,
    fun p hamp => decode_of_not_isEntry hamp, fun a b => decode_congr,
    fun raw key value => get?_decode_eq_some_iff⟩
  rw [decode_append, get?_overriddenBy]

/-- An entry twice, once in another spelling, among pieces without an equals sign, without a key,
with bytes that are no text, with a stray percent sign and with two equals signs. The same entries
without the others, and a piece of either kind on its own. -/
theorem read_among_malformed :
    (entryPieces "a=1&junk&=x&%61=2%&%FF=3&b=%FF&&c=x=y" = entryPieces "a=1&%61=2%&c=x=y" ∧
      decode "a=1&junk&=x&%61=2%&%FF=3&b=%FF&&c=x=y" = decode "a=1&%61=2%&c=x=y") ∧
    (Denotes "%61=2%".toList "a" "2%" ∧
      decode (.ofList "%61=2%".toList) = (∅ : Record).set "a" "2%") ∧
    (¬ IsEntry "b=%FF".toList ∧ decode (.ofList "b=%FF".toList) = ∅) := by
  obtain ⟨-, -, hdenotes, hnone, hcongr, -⟩ := read_piece_by_piece
  have hentry : Denotes "%61=2%".toList "a" "2%" := entry?_eq_some_iff.1 (by decide +kernel)
  have hsame : entryPieces "a=1&junk&=x&%61=2%&%FF=3&b=%FF&&c=x=y"
      = entryPieces "a=1&%61=2%&c=x=y" := by decide +kernel
  have hmalformed : ¬ IsEntry "b=%FF".toList := by decide +kernel
  exact ⟨⟨hsame, hcongr _ _ hsame⟩, ⟨hentry, hdenotes _ _ _ (by decide) hentry⟩,
    ⟨hmalformed, hnone _ (by decide) hmalformed⟩⟩

end Record

end SharedSession
