import Mathlib.Data.List.TakeWhile
import SharedSession.Storage.Disk

set_option autoImplicit false

/-!
# Places that stay

A change at a place where no directory stands leaves every directory where it is. Paths lead through
directories only, so after such a change each path leads where it led before: to what was put there,
or to nothing if that was taken away. A directory that was made on the way to a file is there for
good, and making the way once more changes nothing.

Main statements: `Disk.KeepsDirectories.locate_eq`, `Disk.makeWay_of_hasWay`.
-/

namespace SharedSession

/-! ## The tree -/

namespace Node

variable {n : Node} {found new : Option Node} {p q rest : Place} {name other : String}
  {entries : List (String × Node)}

/-- A directory stands at a place below. -/
def HoldsDirectory (n : Node) (p : Place) : Prop :=
  ∃ entries, n.reach p = .ok (some (.directory entries))

theorem lookup_filter_of_ne (h : other ≠ name) (entries : List (String × Node)) :
    (entries.filter fun e => e.1 != name).lookup other = entries.lookup other := by
  induction entries with
  | nil => rfl
  | cons e es ih =>
    obtain ⟨key, node⟩ := e
    by_cases hkey : key = name
    · have hne : (other == key) = false := by simpa [hkey] using h
      rw [List.filter_cons_of_neg (by simp [hkey]), ih, List.lookup_cons, hne]
    · rw [List.filter_cons_of_pos (by simp [hkey]), List.lookup_cons, List.lookup_cons, ih]

theorem lookup_filter_self (name : String) (entries : List (String × Node)) :
    (entries.filter fun e => e.1 != name).lookup name = none := by
  induction entries with
  | nil => rfl
  | cons e es ih =>
    obtain ⟨key, node⟩ := e
    by_cases hkey : key = name
    · rw [List.filter_cons_of_neg (by simp [hkey]), ih]
    · have hne : (name == key) = false := by simpa using Ne.symm hkey
      rw [List.filter_cons_of_pos (by simp [hkey]), List.lookup_cons, hne, ih]

/-- A change below a directory concerns what stands under the first name and nothing else. -/
theorem update_cons (entries : List (String × Node)) (name : String) (rest : Place)
    (new : Option Node) :
    ∃ changed, (directory entries).update (name :: rest) new = .directory changed ∧
      (∀ other, other ≠ name → changed.lookup other = entries.lookup other) ∧
      changed.lookup name
        = if rest.isEmpty then new else (entries.lookup name).map (·.update rest new) := by
  rw [update]
  split
  · refine ⟨_, rfl, fun other h => ?_, ?_⟩
    · cases new with
      | none => exact lookup_filter_of_ne h entries
      | some node =>
        have hne : (other == name) = false := by simpa using h
        rw [Option.map_some, Option.toList_some, List.singleton_append, List.lookup_cons, hne,
          lookup_filter_of_ne h]
    · cases new with
      | none => exact lookup_filter_self name entries
      | some node =>
        rw [Option.map_some, Option.toList_some, List.singleton_append, List.lookup_cons,
          beq_self_eq_true]
  · split
    · next child hchild =>
      refine ⟨_, rfl, fun other h => ?_, ?_⟩
      · have hne : (other == name) = false := by simpa using h
        rw [List.lookup_cons, hne, lookup_filter_of_ne h]
      · rw [List.lookup_cons, beq_self_eq_true, hchild, Option.map_some]
    · next hnone => exact ⟨_, rfl, fun _ _ => rfl, by rw [hnone, Option.map_none]⟩

/-- What is reached below a directory is reached from what stands under the first name. -/
theorem reach_cons_eq_ok_iff :
    (directory entries).reach (name :: rest) = .ok found ↔
      name.utf8ByteSize ≤ PathText.maxNameBytes ∧
        ((∃ child, entries.lookup name = some child ∧ child.reach rest = .ok found) ∨
          entries.lookup name = none ∧ rest = [] ∧ found = none) := by
  rw [reach]
  split
  · next hlong => simp [Nat.not_le.2 hlong]
  · next hshort =>
    rw [Nat.not_lt] at hshort
    cases entries.lookup name with
    | some child => simp [hshort]
    | none =>
      cases rest with
      | nil => simp [hshort, eq_comm]
      | cons => simp

/-- Only a directory holds others. -/
theorem HoldsDirectory.exists_eq (h : n.HoldsDirectory q) : ∃ entries, n = .directory entries := by
  obtain ⟨below, hq⟩ := h
  cases n with
  | directory entries => exact ⟨entries, rfl⟩
  | file content => cases q <;> cases hq

/-- Directories stay where they are if something is put, or taken away, where none stands. -/
theorem HoldsDirectory.update (h : n.HoldsDirectory q) (hp : n.reach p = .ok found)
    (hfound : ∀ entries, found ≠ some (.directory entries)) (new : Option Node) :
    (n.update p new).HoldsDirectory q := by
  induction p generalizing n q with
  | nil =>
    obtain ⟨entries, rfl⟩ := h.exists_eq
    exact absurd (Except.ok.inj hp).symm (hfound entries)
  | cons name rest ih =>
    cases n with
    | file content => cases hp
    | directory entries =>
      obtain ⟨changed, hchanged, hothers, hself⟩ := update_cons entries name rest new
      rw [hchanged]
      obtain ⟨-, hp⟩ := reach_cons_eq_ok_iff.1 hp
      cases q with
      | nil => exact ⟨changed, rfl⟩
      | cons other deeper =>
        obtain ⟨below, hq⟩ := h
        obtain ⟨hsize, ⟨child, hchild, hq⟩ | ⟨-, -, hnone⟩⟩ := reach_cons_eq_ok_iff.1 hq
        · by_cases hname : other = name
          · subst hname
            simp only [hchild, Option.some.injEq, exists_eq_left', reduceCtorEq, false_and,
              or_false] at hp
            cases rest with
            | nil =>
              obtain ⟨entries, rfl⟩ := HoldsDirectory.exists_eq ⟨below, hq⟩
              exact absurd (Except.ok.inj hp).symm (hfound entries)
            | cons next rest =>
              obtain ⟨below', hq'⟩ := ih ⟨below, hq⟩ hp
              rw [hchild] at hself
              exact ⟨below', reach_cons_eq_ok_iff.2 ⟨hsize, .inl ⟨_, hself, hq'⟩⟩⟩
          · exact ⟨below, reach_cons_eq_ok_iff.2
              ⟨hsize, .inl ⟨child, (hothers other hname).trans hchild, hq⟩⟩⟩
        · cases hnone

/-- What is taken away is gone. -/
theorem reach_update_none (hp : n.reach p = .ok found) (hne : p ≠ []) :
    (n.update p none).reach p = .ok none := by
  induction p generalizing n with
  | nil => exact absurd rfl hne
  | cons name rest ih =>
    cases n with
    | file content => cases hp
    | directory entries =>
      obtain ⟨changed, hchanged, -, hself⟩ := update_cons entries name rest none
      obtain ⟨hsize, hp⟩ := reach_cons_eq_ok_iff.1 hp
      rw [hchanged, reach_cons_eq_ok_iff]
      refine ⟨hsize, ?_⟩
      cases rest with
      | nil => exact .inr ⟨hself, rfl, rfl⟩
      | cons next rest =>
        rcases hp with ⟨child, hchild, hp⟩ | ⟨-, hnil, -⟩
        · refine .inl ⟨child.update (next :: rest) none, ?_, ih hp (List.cons_ne_nil next rest)⟩
          rw [hself, hchild]
          rfl
        · cases hnil

end Node

/-! ## Paths -/

namespace Disk

variable {d d' : Disk} {path : PathText} {place : Place} {found found' : Option Node}
  {back names reached : List String} {start p : Place}

theorem enter_eq_ok_iff : d.enter p = .ok () ↔ d.root.HoldsDirectory p := by
  unfold enter Node.HoldsDirectory
  cases d.root.reach p with
  | error kind => simp [bind, Except.bind]
  | ok node =>
    rcases node with _ | _ | entries <;> simp [bind, Except.bind]

/-- One step of a walk: directories are asked for where it turns back or ends on an idle name. -/
theorem walk_cons_eq_ok_iff {name : String} :
    d.walk back (name :: names) = .ok reached ↔
      if PathText.isIdle name then
        if names.isEmpty then d.root.HoldsDirectory back.reverse ∧ back = reached
        else d.walk back names = .ok reached
      else if name = ".." then
        d.root.HoldsDirectory back.reverse ∧ d.walk back.tail names = .ok reached
      else d.walk (name :: back) names = .ok reached := by
  have hbind : ∀ next : Except IoKind (List String),
      (do d.enter back.reverse; next) = .ok reached ↔
        d.root.HoldsDirectory back.reverse ∧ next = .ok reached := by
    intro next
    rw [← enter_eq_ok_iff]
    cases d.enter back.reverse <;> simp [bind, Except.bind]
  rw [walk]
  split
  · split
    · rw [hbind, Except.ok.injEq]
    · exact Iff.rfl
  · split
    · exact hbind _
    · exact Iff.rfl

/-- A disk has all the directories that another one has, and its working directory. -/
structure KeepsDirectories (d d' : Disk) : Prop where
  cwd_eq : d'.cwd = d.cwd
  holds : ∀ {p : Place}, d.root.HoldsDirectory p → d'.root.HoldsDirectory p

namespace KeepsDirectories

theorem refl (d : Disk) : d.KeepsDirectories d := ⟨rfl, id⟩

theorem trans {d'' : Disk} (h : d.KeepsDirectories d') (h' : d'.KeepsDirectories d'') :
    d.KeepsDirectories d'' :=
  ⟨h'.cwd_eq.trans h.cwd_eq, fun hp => h'.holds (h.holds hp)⟩

/-- What is put where no directory stands takes none away. -/
theorem put (hp : d.root.reach p = .ok found)
    (hfound : ∀ entries, found ≠ some (.directory entries)) (n : Node) :
    d.KeepsDirectories (d.put p n) :=
  ⟨rfl, fun h => h.update hp hfound (some n)⟩

theorem remove (hp : d.root.reach p = .ok found)
    (hfound : ∀ entries, found ≠ some (.directory entries)) : d.KeepsDirectories (d.remove p) :=
  ⟨rfl, fun h => h.update hp hfound none⟩

/-- A walk asks for directories only. -/
theorem walk_eq (h : d.KeepsDirectories d') (hwalk : d.walk back names = .ok reached) :
    d'.walk back names = .ok reached := by
  induction names generalizing back with
  | nil => exact hwalk
  | cons name names ih =>
    rw [walk_cons_eq_ok_iff] at hwalk ⊢
    split
    · next hidle =>
      rw [if_pos hidle] at hwalk
      split
      · next hlast =>
        rw [if_pos hlast] at hwalk
        exact ⟨h.holds hwalk.1, hwalk.2⟩
      · next hmore =>
        rw [if_neg hmore] at hwalk
        exact ih hwalk
    · next hname =>
      rw [if_neg hname] at hwalk
      split
      · next hback =>
        rw [if_pos hback] at hwalk
        exact ⟨h.holds hwalk.1, ih hwalk.2⟩
      · next hstep =>
        rw [if_neg hstep] at hwalk
        exact ih hwalk

end KeepsDirectories

/-- What a path leads to: it must be one that a file system takes, and there must be a way. -/
theorem locate_eq_ok_iff :
    d.locate path = .ok (place, found) ↔
      path.check = .ok () ∧
      d.walk (if path.isAbsolute then [] else d.cwd.reverse) path.names = .ok place.reverse ∧
      d.root.reach place = .ok found := by
  constructor
  · intro h
    simp only [locate, bind, Except.bind, pure, Except.pure] at h
    split at h
    · cases h
    · next hcheck =>
      split at h
      · cases h
      · next back hwalk =>
        split at h
        · cases h
        · next node hreach =>
          cases h
          exact ⟨hcheck, by rw [List.reverse_reverse, hwalk], hreach⟩
  · rintro ⟨hcheck, hwalk, hreach⟩
    simp only [locate, bind, Except.bind, pure, Except.pure, hcheck, hwalk, List.reverse_reverse,
      hreach]

/-- Where the directories stay, a path leads to the same place. -/
theorem KeepsDirectories.locate_eq (h : d.KeepsDirectories d')
    (hlocate : d.locate path = .ok (place, found)) (hreach : d'.root.reach place = .ok found') :
    d'.locate path = .ok (place, found') := by
  obtain ⟨hcheck, hwalk, -⟩ := locate_eq_ok_iff.1 hlocate
  refine locate_eq_ok_iff.2 ⟨hcheck, ?_, hreach⟩
  rw [h.cwd_eq]
  exact h.walk_eq hwalk

theorem isDirectory_iff :
    d.isDirectory path = true ↔
      ∃ place entries, d.locate path = .ok (place, some (.directory entries)) := by
  unfold isDirectory
  rcases d.locate path with kind | ⟨place, _ | content | entries⟩ <;> simp [Node.isDirectory]

theorem KeepsDirectories.isDirectory (h : d.KeepsDirectories d')
    (hpath : d.isDirectory path = true) : d'.isDirectory path = true := by
  obtain ⟨place, entries, hlocate⟩ := isDirectory_iff.1 hpath
  obtain ⟨entries', hreach⟩ := h.holds ⟨entries, (locate_eq_ok_iff.1 hlocate).2.2⟩
  exact isDirectory_iff.2 ⟨place, entries', h.locate_eq hlocate hreach⟩

/-- A walk that ends at the root has asked for a directory on its way. -/
theorem holdsDirectory_nil_of_walk (hwalk : d.walk back names = .ok []) (hne : names ≠ []) :
    d.root.HoldsDirectory [] := by
  have hroot : ∀ {p : Place}, d.root.HoldsDirectory p → d.root.HoldsDirectory [] := by
    intro p hp
    obtain ⟨entries, heq⟩ := hp.exists_eq
    exact ⟨entries, by rw [heq, Node.reach]⟩
  induction names generalizing back with
  | nil => exact absurd rfl hne
  | cons name names ih =>
    rw [walk_cons_eq_ok_iff] at hwalk
    split at hwalk
    · split at hwalk
      · exact hroot hwalk.1
      · next hmore => exact ih hwalk (by simpa using hmore)
    · split at hwalk
      · exact hroot hwalk.1
      · cases names with
        | nil => cases hwalk
        | cons next names => exact ih hwalk (List.cons_ne_nil next names)

/-- Only a directory stands at the root. -/
theorem ne_nil_of_locate (hlocate : d.locate path = .ok (place, found)) (hnames : path.names ≠ [])
    (hfound : ∀ entries, found ≠ some (.directory entries)) : place ≠ [] := by
  rintro rfl
  obtain ⟨-, hwalk, hreach⟩ := locate_eq_ok_iff.1 hlocate
  obtain ⟨entries, hroot⟩ := holdsDirectory_nil_of_walk hwalk hnames
  rw [hreach, Except.ok.injEq] at hroot
  exact hfound entries hroot

/-- What is put where a path leads is found under it. -/
theorem locate_put (hlocate : d.locate path = .ok (place, found))
    (hfound : ∀ entries, found ≠ some (.directory entries)) (n : Node) :
    d.KeepsDirectories (d.put place n) ∧ (d.put place n).locate path = .ok (place, some n) := by
  have hreach := (locate_eq_ok_iff.1 hlocate).2.2
  have hkeeps := KeepsDirectories.put hreach hfound n
  exact ⟨hkeeps, hkeeps.locate_eq hlocate (Node.reach_update_self n hreach)⟩

/-- What is taken away from where a path leads is not found under it. -/
theorem locate_remove (hlocate : d.locate path = .ok (place, found)) (hnames : path.names ≠ [])
    (hfound : ∀ entries, found ≠ some (.directory entries)) :
    d.KeepsDirectories (d.remove place) ∧ (d.remove place).locate path = .ok (place, none) := by
  have hreach := (locate_eq_ok_iff.1 hlocate).2.2
  have hkeeps := KeepsDirectories.remove hreach hfound
  have hne := ne_nil_of_locate hlocate hnames hfound
  exact ⟨hkeeps, hkeeps.locate_eq hlocate (Node.reach_update_none hreach hne)⟩

/-! ## The way to a file -/

/-- A directory stands where names lead, which are given last first; idle ones at the end do not
count. -/
def HasWay (d : Disk) (isAbsolute : Bool) (names : List String) : Prop :=
  match PathText.dropIdle isAbsolute names with
  | [] => True
  | name :: before => d.isDirectory ⟨isAbsolute, (name :: before).reverse⟩ = true

theorem KeepsDirectories.hasWay {isAbsolute : Bool} (h : d.KeepsDirectories d')
    (hway : d.HasWay isAbsolute names) : d'.HasWay isAbsolute names := by
  unfold HasWay at hway ⊢
  split at hway
  · trivial
  · exact h.isDirectory hway

end Disk

/-- A name that counts is no empty one, so no slashes stand behind it. -/
theorem PathText.withoutSlashes_of_counts {isAbsolute : Bool} {name : String} {before : List String}
    (h : counts isAbsolute name before = true) :
    withoutSlashes ⟨isAbsolute, (name :: before).reverse⟩
      = ⟨isAbsolute, (name :: before).reverse⟩ := by
  have hne : (name == "") = false := by
    rw [beq_eq_false_iff_ne]
    rintro rfl
    simp [counts, isIdle] at h
  simp [withoutSlashes, hne]

namespace Disk

variable {d d' : Disk} {path : PathText} {names : List String} {isAbsolute : Bool}

/-- A directory that has been made is there, and all others are. -/
theorem makeDirectory_eq_ok (hpath : path.withoutSlashes = path)
    (h : d.makeDirectory path = .ok d') : d.KeepsDirectories d' ∧ d'.isDirectory path = true := by
  unfold makeDirectory at h
  rw [hpath] at h
  rcases hlocate : d.locate path with kind | ⟨place, found⟩
  · rw [hlocate] at h
    cases h
  · rw [hlocate] at h
    cases found with
    | some node => cases h
    | none =>
      obtain rfl : d.put place (.directory []) = d' := Except.ok.inj h
      obtain ⟨hkeeps, hthere⟩ := locate_put hlocate (fun _ => nofun) (.directory [])
      exact ⟨hkeeps, isDirectory_iff.2 ⟨place, [], hthere⟩⟩

/-- A directory that is there is not made. -/
theorem makeDirectory_of_isDirectory (hpath : path.withoutSlashes = path)
    (h : d.isDirectory path = true) : d.makeDirectory path = .error .alreadyExists := by
  obtain ⟨place, entries, hlocate⟩ := isDirectory_iff.1 h
  rw [makeDirectory, hpath, hlocate]
  rfl

theorem hasWay_cons_of_counts {name : String} {before : List String}
    (h : PathText.counts isAbsolute name before = true) :
    d.HasWay isAbsolute (name :: before)
      ↔ d.isDirectory ⟨isAbsolute, (name :: before).reverse⟩ = true := by
  rw [HasWay, PathText.dropIdle, if_pos h]

theorem hasWay_cons_of_not_counts {name : String} {before : List String}
    (h : ¬ PathText.counts isAbsolute name before = true) :
    d.HasWay isAbsolute (name :: before) ↔ d.HasWay isAbsolute before := by
  rw [HasWay, PathText.dropIdle, if_neg h, ← HasWay]

/-- An error does not count if the directory is there, and then nothing has been changed. -/
theorem eq_of_settled {kind : IoKind}
    (h : ((if d.isDirectory path then .ok () else .error kind, d) : Except IoKind Unit × Disk)
      = (.ok (), d')) : d = d' ∧ d.isDirectory path = true := by
  rw [Prod.mk.injEq] at h
  obtain ⟨h, rfl⟩ := h
  split at h
  · next hthere => exact ⟨rfl, hthere⟩
  · cases h

/-- Making the way leads to a directory and takes none away. -/
theorem makeWay_eq_ok (h : makeWay isAbsolute names d = (.ok (), d')) :
    d.KeepsDirectories d' ∧ d'.HasWay isAbsolute names := by
  induction names generalizing d d' with
  | nil =>
    cases h
    exact ⟨.refl d, trivial⟩
  | cons name before ih =>
    rw [makeWay] at h
    by_cases hcounts : PathText.counts isAbsolute name before = true
    · rw [hasWay_cons_of_counts hcounts]
      -- the last directory is made or there already, whether or not those before it were made
      have hmade : ∀ {d made : Disk},
          d.makeDirectory ⟨isAbsolute, (name :: before).reverse⟩ = .ok made →
          d.KeepsDirectories made ∧ made.isDirectory ⟨isAbsolute, (name :: before).reverse⟩ = true :=
        makeDirectory_eq_ok (PathText.withoutSlashes_of_counts hcounts)
      simp only [hcounts, Bool.not_true, Bool.false_eq_true, if_false] at h
      split at h
      · split at h
        · next hbefore =>
          have hkeeps := (ih hbefore).1
          split at h
          · next hmake =>
            cases h
            exact ⟨hkeeps.trans (hmade hmake).1, (hmade hmake).2⟩
          · obtain ⟨rfl, hthere⟩ := eq_of_settled h
            exact ⟨hkeeps, hthere⟩
        · next hfailed => exact absurd h (hfailed d')
      · split at h
        · next hmake =>
          cases h
          exact hmade hmake
        · obtain ⟨rfl, hthere⟩ := eq_of_settled h
          exact ⟨.refl d, hthere⟩
    · rw [hasWay_cons_of_not_counts hcounts]
      simp only [hcounts, Bool.not_false, if_true] at h
      exact ih h

/-- Where the way leads to a directory already, nothing is made. -/
theorem makeWay_of_hasWay (h : d.HasWay isAbsolute names) :
    makeWay isAbsolute names d = (.ok (), d) := by
  induction names with
  | nil => rfl
  | cons name before ih =>
    rw [makeWay]
    by_cases hcounts : PathText.counts isAbsolute name before = true
    · rw [hasWay_cons_of_counts hcounts] at h
      simp only [hcounts, Bool.not_true, Bool.false_eq_true, if_false,
        makeDirectory_of_isDirectory (PathText.withoutSlashes_of_counts hcounts) h, h, if_true]
    · rw [hasWay_cons_of_not_counts hcounts] at h
      simp only [hcounts, Bool.not_false, if_true]
      exact ih h

end Disk

/-! ## Files -/

theorem PathText.names_ofString_ne_nil (s : String) : (ofString s).names ≠ [] := by
  unfold ofString
  split <;> exact fun h => Text.pieces_ne_nil _ _ (List.map_eq_nil_iff.1 h)

/-- A path that ends in a name, with no slash behind it, has no slashes to take away. -/
theorem PathText.withoutSlashes_of_endsInName {path : PathText} (hname : path.endsInName = true)
    (hslash : path.endsWithSlash = false) : path.withoutSlashes = path := by
  obtain ⟨isAbsolute, names⟩ := path
  rcases List.eq_nil_or_concat names with rfl | ⟨before, name, rfl⟩
  · rfl
  by_cases hempty : name = ""
  · subst hempty
    -- a path of slashes alone ends in no name
    have hall : ∀ n ∈ before, n = "" := by simpa [endsWithSlash] using hslash
    have hdrop : before.reverse.dropWhile (· == "") = [] := by
      rw [List.dropWhile_eq_nil_iff]
      intro n hn
      rw [hall n (List.mem_reverse.1 hn), beq_self_eq_true]
    simp [endsInName, withoutSlashes, hdrop] at hname
  · simp [withoutSlashes, hempty]

namespace Disk

variable {d d' : Disk} {path : String} {content : List UInt8}

/-- A file is put where the path leads and no directory stands. -/
theorem replace_eq_ok_iff :
    d.replace path content = .ok d' ↔
      (PathText.ofString path).endsInName = true ∧ (PathText.ofString path).endsWithSlash = false ∧
      ∃ place found, d.locate (.ofString path) = .ok (place, found) ∧
        (∀ entries, found ≠ some (.directory entries)) ∧ d' = d.put place (.file content) := by
  constructor
  · intro h
    simp only [replace, bind, Except.bind] at h
    split at h
    · cases h
    · split at h
      · cases h
      · next found hlocate =>
        obtain ⟨place, found⟩ := found
        split at h
        · cases h
        · next hname =>
          split at h
          · cases h
          · next hslash =>
            rw [Bool.not_eq_true, Bool.not_eq_false'] at hname
            rw [Bool.not_eq_true] at hslash
            rw [PathText.withoutSlashes_of_endsInName hname hslash] at hlocate
            split at h
            · cases h
            · next hfound =>
              cases h
              exact ⟨hname, hslash, place, found, hlocate, fun entries => hfound entries, rfl⟩
  · rintro ⟨hname, hslash, place, found, hlocate, hfound, rfl⟩
    have hcheck := (locate_eq_ok_iff.1 hlocate).1
    simp only [replace, bind, Except.bind, hcheck,
      PathText.withoutSlashes_of_endsInName hname hslash, hlocate, hname, hslash, Bool.not_true,
      Bool.false_eq_true, if_false]

/-- A file is taken away from where the path leads. -/
theorem removeFile_eq_ok_iff :
    d.removeFile path = .ok d' ↔
      ∃ place content, d.locate (.ofString path) = .ok (place, some (.file content)) ∧
        d' = d.remove place := by
  unfold removeFile
  rcases d.locate (.ofString path) with kind | ⟨place, _ | content | entries⟩ <;>
    simp [bind, Except.bind, eq_comm]

/-- There is no file to take away exactly if there is none to read. -/
theorem removeFile_eq_notFound_iff :
    d.removeFile path = .error .notFound ↔ d.read path = .error .notFound := by
  unfold removeFile read
  rcases d.locate (.ofString path) with kind | ⟨place, _ | content | entries⟩ <;>
    simp [bind, Except.bind]

end Disk

end SharedSession
