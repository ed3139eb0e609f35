import SharedSession.Proofs.Record.Entries
import SharedSession.Proofs.Text.Percent
import SharedSession.Record.Blob

set_option autoImplicit false

/-!
# The shared text reads back

What is read from a written record is that record without an entry under the empty key, which is
never written. So a record that has been read once is not changed by writing it and reading it
again, and two records that came from texts and are written alike are the same.

Main statement: `Record.text_is_canonical`.
-/

namespace SharedSession

/-! ## Pieces -/

namespace Text

theorem pieces_of_not_mem {sep : Char} {p : List Char} (h : sep ∉ p) : pieces sep p = [p] := by
  induction p with
  | nil => rfl
  | cons c p ih =>
    rw [List.mem_cons, not_or] at h
    obtain ⟨hc, hp⟩ := h
    simp only [pieces, if_neg (Ne.symm hc), ih hp]

/-- Dividing at the separator undoes joining. -/
theorem pieces_joined {sep : Char} {ps : List (List Char)} (hne : ps ≠ [])
    (h : ∀ p ∈ ps, sep ∉ p) : pieces sep (joined sep ps) = ps := by
  induction ps with
  | nil => exact absurd rfl hne
  | cons p ps ih =>
    have hp : pieces sep p = [p] := pieces_of_not_mem (h p List.mem_cons_self)
    cases ps with
    | nil => rw [joined, hp]
    | cons q qs =>
      have hrest : pieces sep (joined sep (q :: qs)) = q :: qs :=
        ih (by simp) fun x hx => h x (List.mem_cons_of_mem p hx)
      rw [joined, pieces_append_cons, hp, hrest, List.singleton_append]

theorem cut?_append_cons {sep : Char} {a : List Char} (h : sep ∉ a) (b : List Char) :
    cut? sep (a ++ sep :: b) = some (a, b) := by
  induction a with
  | nil => simp [cut?]
  | cons c a ih =>
    rw [List.mem_cons, not_or] at h
    obtain ⟨hc, ha⟩ := h
    simp only [List.cons_append, cut?, if_neg (Ne.symm hc), ih ha, Option.map_some]

end Text

namespace Record

/-! ## Entries one after another -/

theorem get?_setAll_of_forall_ne {r : Record} {es : List (String × String)} {key : String}
    (h : ∀ e ∈ es, e.1 ≠ key) : (r.setAll es).get? key = r.get? key := by
  induction es generalizing r with
  | nil => rfl
  | cons e es ih =>
    have he : e.1 ≠ key := h e List.mem_cons_self
    rw [setAll_cons, ih fun x hx => h x (List.mem_cons_of_mem e hx), get?_set, if_neg he]

/-- Of entries under different keys each one is there in the end. -/
theorem get?_setAll_of_mem {r : Record} {es : List (String × String)} {e : String × String}
    (hkeys : es.Pairwise fun a b => a.1 ≠ b.1) (he : e ∈ es) :
    (r.setAll es).get? e.1 = some e.2 := by
  induction es generalizing r with
  | nil => exact absurd he List.not_mem_nil
  | cons a es ih =>
    obtain ⟨hhead, htail⟩ := List.pairwise_cons.1 hkeys
    rw [setAll_cons]
    rcases List.mem_cons.1 he with rfl | hmem
    · have hne : ∀ x ∈ es, x.1 ≠ e.1 := fun x hx => (hhead x hx).symm
      rw [get?_setAll_of_forall_ne hne, get?_set, if_pos rfl]
    · exact ih htail hmem

/-- Entries under different keys may be put in in any order. -/
theorem setAll_perm {es fs : List (String × String)} (h : es.Perm fs)
    (hkeys : es.Pairwise fun a b => a.1 ≠ b.1) (r : Record) : r.setAll es = r.setAll fs := by
  have hkeys' : fs.Pairwise fun a b => a.1 ≠ b.1 := (h.pairwise_iff Ne.symm).1 hkeys
  ext1 key
  by_cases hmem : ∃ e ∈ es, e.1 = key
  · obtain ⟨e, he, rfl⟩ := hmem
    rw [get?_setAll_of_mem hkeys he, get?_setAll_of_mem hkeys' (h.mem_iff.1 he)]
  · have hne : ∀ e ∈ es, e.1 ≠ key := fun e he heq => hmem ⟨e, he, heq⟩
    rw [get?_setAll_of_forall_ne hne, get?_setAll_of_forall_ne fun e he => hne e (h.mem_iff.2 he)]

theorem mem_toList_iff {r : Record} {e : String × String} :
    e ∈ r.toList ↔ r.get? e.1 = some e.2 :=
  Std.ExtTreeMap.mem_toList_iff_getElem?_eq_some

theorem pairwise_ne_toList (r : Record) : r.toList.Pairwise fun a b => a.1 ≠ b.1 := by
  refine Std.ExtTreeMap.distinct_keys_toList.imp ?_
  intro a b hab heq
  rw [heq] at hab
  exact hab Std.ReflCmp.compare_self

/-! ## The round trip -/

/-- The entries that are written. -/
def written (r : Record) : List (String × String) := r.toList.filter fun e => e.1 ≠ ""

theorem amp_not_mem_entryChars (e : String × String) : '&' ∉ entryChars e := by
  intro h
  rcases List.mem_append.1 h with hk | hv
  · exact (Percent.no_divider_of_mem_encodeChars hk).1 rfl
  · rcases List.mem_cons.1 hv with heq | hv
    · exact absurd heq (by decide)
    · exact (Percent.no_divider_of_mem_encodeChars hv).1 rfl

/-- A written entry is read as that entry. -/
theorem entry?_entryChars {e : String × String} (h : e.1 ≠ "") :
    entry? (entryChars e) = some e := by
  have hcut : Text.cut? '=' (entryChars e)
      = some (Percent.encodeChars e.1, Percent.encodeChars e.2) :=
    Text.cut?_append_cons (fun hmem => (Percent.no_divider_of_mem_encodeChars hmem).2 rfl) _
  simp only [hcut, entry?, Option.bind_eq_bind, Option.bind_some, Percent.decode?_encodeChars,
    if_neg h]

theorem fst_ne_of_mem_written {r : Record} {e : String × String} (h : e ∈ r.written) :
    e.1 ≠ "" := by
  simpa using (List.mem_filter.1 h).2

theorem filterMap_entry?_entryChars {es : List (String × String)} (h : ∀ e ∈ es, e.1 ≠ "") :
    (es.map entryChars).filterMap entry? = es := by
  induction es with
  | nil => rfl
  | cons e es ih =>
    have he : e.1 ≠ "" := h e List.mem_cons_self
    rw [List.map_cons, List.filterMap_cons, entry?_entryChars he,
      ih fun x hx => h x (List.mem_cons_of_mem e hx)]

theorem decode_encode_eq_ofList (r : Record) : decode r.encode = ofList r.written := by
  rw [decode, encode, String.toList_ofList]
  show ofList ((Text.pieces '&' (Text.joined '&' (r.written.map entryChars))).filterMap entry?) = _
  cases hw : r.written with
  | nil => rfl
  | cons e es =>
    have hamp : ∀ p ∈ r.written.map entryChars, '&' ∉ p := by
      intro p hp
      obtain ⟨x, -, rfl⟩ := List.mem_map.1 hp
      exact amp_not_mem_entryChars x
    have hne : r.written.map entryChars ≠ [] := by simp [hw]
    rw [← hw, Text.pieces_joined hne hamp,
      filterMap_entry?_entryChars fun e he => fst_ne_of_mem_written he]

/-- Reading what was written gives the record without an entry under the empty key. -/
theorem decode_encode (r : Record) : decode r.encode = r.erase "" := by
  rw [decode_encode_eq_ofList]
  have hkeys : r.written.Pairwise fun a b => a.1 ≠ b.1 := (pairwise_ne_toList r).filter _
  ext1 key
  by_cases hempty : "" = key
  · have hne : ∀ e ∈ r.written, e.1 ≠ key := by
      intro e he
      rw [← hempty]
      exact fst_ne_of_mem_written he
    rw [ofList, get?_setAll_of_forall_ne hne, get?_erase, if_pos hempty]
    exact get?_empty key
  · rw [get?_erase, if_neg hempty]
    cases hget : r.get? key with
    | some value =>
      have hmem : (key, value) ∈ r.written :=
        List.mem_filter.2 ⟨mem_toList_iff.2 hget, by simpa using Ne.symm hempty⟩
      exact get?_setAll_of_mem hkeys hmem
    | none =>
      have hne : ∀ e ∈ r.written, e.1 ≠ key := by
        rintro e he rfl
        rw [mem_toList_iff.1 (List.mem_filter.1 he).1] at hget
        cases hget
      rw [ofList, get?_setAll_of_forall_ne hne]
      exact get?_empty key

/-- No piece of a text is an entry under the empty key. -/
theorem fst_ne_of_entry?_eq_some {piece : List Char} {e : String × String} (h : entry? piece = some e) :
    e.1 ≠ "" := by
  simp only [Option.bind_eq_bind, entry?, Option.bind_eq_some_iff] at h
  obtain ⟨⟨k, v⟩, -, key, -, hif⟩ := h
  split at hif
  · cases hif
  · next hne =>
    obtain ⟨value, -, heq⟩ := Option.bind_eq_some_iff.1 hif
    cases heq
    exact hne

/-- A record that was read has nothing under the empty key. -/
@[simp] theorem get?_decode_empty (raw : String) : (decode raw).get? "" = none := by
  have hne : ∀ e ∈ (Text.pieces '&' raw.toList).filterMap entry?, e.1 ≠ "" := by
    intro e he
    obtain ⟨piece, -, hpiece⟩ := List.mem_filterMap.1 he
    exact fst_ne_of_entry?_eq_some hpiece
  rw [decode, ofList, get?_setAll_of_forall_ne hne]
  exact get?_empty ""

/-! ## The text as a canonical form -/

/-- What is written is what is left without the entry under the empty key. -/
theorem written_eq_toList_erase (r : Record) : r.written = (r.erase "").toList := by
  have hfilter : r.entries.filter (fun key _ => decide (key ≠ "")) = (r.erase "").entries := by
    refine Std.ExtTreeMap.ext_getElem? fun key => ?_
    show _ = (r.erase "").get? key
    rw [Std.ExtTreeMap.getElem?_filter', get?_erase, get?]
    by_cases hkey : "" = key
    · simp [← hkey]
    · cases r.entries[key]? <;> simp [hkey, Ne.symm hkey]
  rw [written, toList, toList, ← hfilter, Std.ExtTreeMap.toList_filter]

theorem encode_erase_empty (r : Record) : (r.erase "").encode = r.encode := by
  have hnone : (r.erase "").get? "" = none := by rw [get?_erase, if_pos rfl]
  have htwice : (r.erase "").erase "" = r.erase "" := erase_of_get?_eq_none hnone
  have hwritten : (r.erase "").written = r.written := by
    rw [written_eq_toList_erase, written_eq_toList_erase, htwice]
  show String.ofList (Text.joined '&' ((r.erase "").written.map entryChars))
    = String.ofList (Text.joined '&' (r.written.map entryChars))
  rw [hwritten]

theorem erase_empty_eq_iff {r s : Record} :
    r.erase "" = s.erase "" ↔ ∀ key, key ≠ "" → r.get? key = s.get? key := by
  constructor
  · intro h key hkey
    have hget := congrArg (fun t => t.get? key) h
    simpa only [get?_erase, if_neg (Ne.symm hkey)] using hget
  · intro h
    ext1 key
    simp only [get?_erase]
    split
    · rfl
    · next hne => exact h key (Ne.symm hne)

/-- Two records are written alike exactly if they agree on all keys that are written. -/
theorem encode_eq_iff {r s : Record} :
    r.encode = s.encode ↔ ∀ key, key ≠ "" → r.get? key = s.get? key := by
  rw [← erase_empty_eq_iff]
  constructor
  · intro h
    rw [← decode_encode, ← decode_encode, h]
  · intro h
    rw [← encode_erase_empty r, ← encode_erase_empty s, h]

/-- What has been read once is the same when it is written and read again. -/
theorem decode_encode_decode (raw : String) : decode (decode raw).encode = decode raw := by
  rw [decode_encode, erase_of_get?_eq_none (get?_decode_empty raw)]

/-- The shared text is a canonical form of a record: it reads back as the record without an entry
under the empty key, two records have one text exactly if they agree on all other keys, and any
text at all, written again as it was read, reads the same. -/
theorem text_is_canonical :
    (∀ r : Record, decode r.encode = r.erase "") ∧
    (∀ r s : Record, r.encode = s.encode ↔ ∀ key, key ≠ "" → r.get? key = s.get? key) ∧
    (∀ raw : String, decode (decode raw).encode = decode raw) :=
  ⟨decode_encode, fun _ _ => encode_eq_iff, decode_encode_decode⟩

/-- Marks inside keys and values, characters of several bytes, stray percent signs and an entry
under the empty key. -/
example :
    decode (ofList [("a&b=c", "50%"), ("é", ""), ("", "lost")]).encode
      = ofList [("a&b=c", "50%"), ("é", "")] := by
  decide +kernel

end Record

end SharedSession
