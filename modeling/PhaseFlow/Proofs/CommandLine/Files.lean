import PhaseFlow.CommandLine.Files
import PhaseFlow.Proofs.KeyMap

/-!
# What writing files leaves as it was

A file can only be written in a directory that is there, so that no directory appears
when it is written: all paths lead where they led before (`SameDirectories`), and what
could be written still can.

The paths of places are compared component by component, which is right as long as no
component holds a slash (`Plain`); the components of a path never do.
-/

namespace PhaseFlow

namespace CommandLine

namespace Files

/-! ## Places without slashes inside -/

/-- No component of a place holds a slash. -/
def Plain (place : List String) : Prop :=
  ∀ part ∈ place, '/' ∉ part.toList

theorem Plain.snoc
    {place : List String} {part : String}
    (h : Plain place)
    (hpart : '/' ∉ part.toList) :
    Plain (place ++ [part]) :=
  List.forall_mem_append.2 ⟨h, List.forall_mem_singleton.2 hpart⟩

theorem Plain.dropLast
    {place : List String}
    (h : Plain place) :
    Plain place.dropLast :=
  fun part hpart => h part (List.dropLast_subset place hpart)

theorem not_mem_of_mem_splitOnPPrepend
    {c : Char} {items done part : List Char}
    (hdone : c ∉ done)
    (h : part ∈ items.splitOnPPrepend (· == c) done) :
    c ∉ part := by
  induction items generalizing done with
  | nil =>
      rw [List.splitOnPPrepend_nil, List.mem_singleton] at h
      rw [h, List.mem_reverse]
      exact hdone
  | cons item rest ih =>
      cases hitem : item == c with
      | true =>
          rw [List.splitOnPPrepend_cons_pos (p := (· == c)) hitem, List.mem_cons] at h
          rcases h with rfl | h
          · rw [List.mem_reverse]
            exact hdone
          · exact ih List.not_mem_nil h
      | false =>
          rw [List.splitOnPPrepend_cons_neg (p := (· == c)) hitem] at h
          have hne : c ≠ item := fun heq => by simp [heq] at hitem
          exact ih (fun hmem => (List.mem_cons.1 hmem).elim hne hdone) h

/-- What is split at an item does not hold it. -/
theorem not_mem_of_mem_splitOn
    {items part : List Char} {c : Char}
    (h : part ∈ items.splitOn c) :
    c ∉ part := by
  rw [List.splitOn_eq_splitOnP] at h
  exact not_mem_of_mem_splitOnPPrepend List.not_mem_nil h

/-- The parts of a path have no slash in them. -/
theorem plain_parts (path : String) : Plain (parts path) := by
  intro part hpart
  obtain ⟨chars, hchars, rfl⟩ := List.mem_map.1 (List.mem_filter.1 hpart).1
  rw [String.toList_ofList]
  exact not_mem_of_mem_splitOn hchars

theorem plain_startOf (path : String) : Plain (startOf path) := by
  unfold startOf
  split
  · exact fun part hpart => absurd hpart List.not_mem_nil
  · unfold Plain workingDirectory
    decide

/-! ## Directories -/

/-- The characters of the components of a place, each before a slash. -/
def chars (place : List String) : List Char :=
  place.flatMap fun part => part.toList ++ ['/']

theorem toList_pathOf_slash
    (place : List String) :
    (pathOf place ++ "/").toList = '/' :: chars place := by
  have hjoin : ∀ (place : List String) (text : String),
      ((place.map fun part => "/" ++ part).foldl (· ++ ·) text ++ "/").toList =
        text.toList ++ '/' :: chars place := by
    intro place
    induction place with
    | nil => intro text; simp [chars]
    | cons part rest ih =>
        intro text
        rw [List.map_cons, List.foldl_cons, ih]
        simp [chars]
  exact hjoin place ""

theorem toList_pathOf_snoc
    (place : List String)
    (last : String) :
    (pathOf (place ++ [last])).toList = '/' :: (chars place ++ last.toList) := by
  have hsnoc : pathOf (place ++ [last]) = pathOf place ++ "/" ++ last := by
    simp [pathOf, String.join, List.foldl_append, String.append_assoc]
  rw [hsnoc, String.toList_append, toList_pathOf_slash]
  rfl

/-- Two texts without slashes, each with a slash behind it: one is at the start of the
other only if they are the same. -/
theorem eq_of_append_slash_prefix
    {part other : List Char} {rest more : List Char}
    (hpart : '/' ∉ part)
    (hother : '/' ∉ other)
    (h : part ++ '/' :: rest <+: other ++ '/' :: more) :
    part = other ∧ rest <+: more := by
  induction part generalizing other with
  | nil =>
      cases other with
      | nil => exact ⟨rfl, (List.cons_prefix_cons.1 h).2⟩
      | cons d other =>
          obtain ⟨heq, -⟩ := List.cons_prefix_cons.1 h
          exact absurd (heq ▸ List.mem_cons_self) hother
  | cons c part ih =>
      cases other with
      | nil =>
          obtain ⟨heq, -⟩ := List.cons_prefix_cons.1 h
          exact absurd (heq ▸ List.mem_cons_self) hpart
      | cons d other =>
          obtain ⟨rfl, htail⟩ := List.cons_prefix_cons.1 h
          obtain ⟨rfl, hrest⟩ := ih (fun hmem => hpart (List.mem_cons_of_mem _ hmem))
            (fun hmem => hother (List.mem_cons_of_mem _ hmem)) htail
          exact ⟨rfl, hrest⟩

/-- A directory above a file is one of the directories on the way to it. -/
theorem above_of_chars_above
    {place above : List String} {last : List Char}
    (hplace : Plain place)
    (habove : Plain above)
    (hlast : '/' ∉ last)
    (h : chars above <+: chars place ++ last) :
    above <+: place := by
  induction above generalizing place with
  | nil => exact List.nil_prefix
  | cons part rest ih =>
      have hchars : chars (part :: rest) = part.toList ++ '/' :: chars rest := by
        simp [chars]
      rw [hchars] at h
      cases place with
      | nil =>
          have hmem : '/' ∈ last := by
            obtain ⟨tail, heq⟩ := h
            have hlast : last = part.toList ++ '/' :: (chars rest ++ tail) := by
              simpa [chars] using heq.symm
            rw [hlast]
            simp
          exact absurd hmem hlast
      | cons other more =>
          have hmore :
              chars (other :: more) ++ last =
                other.toList ++ '/' :: (chars more ++ last) := by
            simp [chars]
          rw [hmore] at h
          obtain ⟨heq, hrest⟩ := eq_of_append_slash_prefix (habove part List.mem_cons_self)
            (hplace other List.mem_cons_self) h
          obtain rfl := String.toList_inj.1 heq
          have hprefix := ih (fun part hpart => hplace part (List.mem_cons_of_mem _ hpart))
            (fun part hpart => habove part (List.mem_cons_of_mem _ hpart)) hrest
          exact List.cons_prefix_cons.2 ⟨rfl, hprefix⟩

/-- A directory is there if the system has it or some file lies in it. -/
theorem hasDirectory_iff
    {files : Files} {place : List String} :
    files.hasDirectory place = true ↔
      (∃ directory ∈ systemDirectories, place <+: directory) ∨
      ∃ file ∈ files.keys, '/' :: chars place <+: file.toList := by
  simp only [hasDirectory, Bool.or_eq_true, List.any_eq_true, List.isPrefixOf_iff_prefix,
    toList_pathOf_slash]

/-- The directories above a directory are there. -/
theorem hasDirectory_of_prefix
    {files : Files} {place above : List String}
    (h : above <+: place)
    (hplace : files.hasDirectory place = true) :
    files.hasDirectory above = true := by
  rw [hasDirectory_iff] at hplace ⊢
  obtain ⟨rest, rfl⟩ := h
  rcases hplace with ⟨directory, hmem, hprefix⟩ | ⟨file, hmem, hprefix⟩
  · exact .inl ⟨directory, hmem, (List.prefix_append above rest).trans hprefix⟩
  · have hchars : chars (above ++ rest) = chars above ++ chars rest := by
      simp [chars, List.flatMap_append]
    rw [hchars] at hprefix
    exact .inr ⟨file, hmem,
      (List.prefix_append ('/' :: chars above) (chars rest)).trans hprefix⟩

/-- All places that can be named are directories in both or in neither. -/
def SameDirectories (files other : Files) : Prop :=
  ∀ place, Plain place → other.hasDirectory place = files.hasDirectory place

theorem SameDirectories.refl (files : Files) : SameDirectories files files :=
  fun _ _ => rfl

theorem SameDirectories.trans
    {files middle other : Files}
    (h : SameDirectories files middle)
    (h' : SameDirectories middle other) :
    SameDirectories files other :=
  fun place hplace => (h' place hplace).trans (h place hplace)

/-- **Writing makes no directories.** -/
theorem sameDirectories_writeAt
    {files : Files} {place : List String}
    (hplace : Plain place)
    (hwritable : files.isWritable place = true)
    (before content : List UInt8) :
    SameDirectories files (files.writeAt place before content) := by
  unfold writeAt isWritable at *
  split
  · exact .refl files
  · next hdevice =>
      have hparent : files.hasDirectory place.dropLast = true := by
        simp only [hdevice, Bool.false_or, Bool.and_eq_true] at hwritable
        exact hwritable.2
      intro above habove
      rw [Bool.eq_iff_iff, hasDirectory_iff]
      constructor
      · rintro (hsystem | ⟨file, hfile, hprefix⟩)
        · exact hasDirectory_iff.2 (.inl hsystem)
        · rw [KeyMap.mem_keys_insert] at hfile
          rcases hfile with rfl | hfile
          · -- The directory is above the file that is written.
            rcases List.eq_nil_or_concat' place with rfl | ⟨parent, last, rfl⟩
            · simp [pathOf, String.join] at hprefix
            · rw [List.dropLast_concat] at hparent
              rw [toList_pathOf_snoc, List.cons_prefix_cons] at hprefix
              exact hasDirectory_of_prefix (above_of_chars_above
                (fun part hpart => hplace part (List.mem_append_left _ hpart)) habove
                (hplace last (by simp)) hprefix.2) hparent
          · exact hasDirectory_iff.2 (.inr ⟨file, hfile, hprefix⟩)
      · intro h
        rcases hasDirectory_iff.1 h with hsystem | ⟨file, hfile, hprefix⟩
        · exact .inl hsystem
        · exact .inr ⟨file, KeyMap.mem_keys_insert.2 (.inr hfile), hprefix⟩

/-! ## Where paths lead -/

theorem follow?_plain
    {files : Files} {place found : List String}
    (hplace : Plain place) :
    ∀ {route : List String},
      Plain route → files.follow? place route = some found → Plain found := by
  intro route
  induction route generalizing place with
  | nil =>
      intro _ h
      cases h
      exact hplace
  | cons part rest ih =>
      intro hroute h
      have hrest : Plain rest :=
        fun other hother => hroute other (List.mem_cons_of_mem _ hother)
      unfold follow? at h
      split at h
      · exact ih hplace.dropLast hrest h
      · split at h
        · cases h
        · split at h
          · exact ih (hplace.snoc (hroute part List.mem_cons_self)) hrest h
          · cases h

/-- A route leads to one place, whatever the files hold. -/
theorem SameDirectories.follow?_eq
    {files other : Files}
    (h : SameDirectories files other)
    {place : List String}
    (hplace : Plain place) :
    ∀ {route : List String},
      Plain route → other.follow? place route = files.follow? place route := by
  intro route
  induction route generalizing place with
  | nil => exact fun _ => rfl
  | cons part rest ih =>
      intro hroute
      have hrest : Plain rest :=
        fun other hother => hroute other (List.mem_cons_of_mem _ hother)
      have hnext : Plain (place ++ [part]) := hplace.snoc (hroute part List.mem_cons_self)
      unfold follow?
      rw [ih hplace.dropLast hrest, ih hnext hrest, h _ hnext]

theorem plain_of_locate?
    {files : Files} {path : String} {place : List String}
    (h : files.locate? path = some place) :
    Plain place := by
  unfold locate? at h
  dsimp only at h
  split at h
  · cases h
  · exact follow?_plain (plain_startOf _) (plain_parts _) (Option.filter_eq_some_iff.1 h).1

theorem SameDirectories.locate?_eq
    {files other : Files}
    (h : SameDirectories files other)
    (path : String) :
    other.locate? path = files.locate? path := by
  unfold locate?
  dsimp only
  split
  · rfl
  · rw [h.follow?_eq (plain_startOf _) (plain_parts _)]
    cases hfound : files.follow? (startOf (Text.beforeNul path))
      (parts (Text.beforeNul path)) with
    | none => rfl
    | some place =>
        rw [Option.filter_some, Option.filter_some,
          h place (follow?_plain (plain_startOf _) (plain_parts _) hfound)]

theorem SameDirectories.isWritable_eq
    {files other : Files}
    (h : SameDirectories files other)
    {place : List String}
    (hplace : Plain place) :
    other.isWritable place = files.isWritable place := by
  unfold isWritable
  rw [h place hplace, h place.dropLast hplace.dropLast]

/-! ## Writing and reading -/

/-- Something can be written under a path. -/
def Accepts (files : Files) (path : String) : Prop :=
  ∃ place, files.locate? path = some place ∧ files.isWritable place = true

/-- A path leads to a device. -/
def IsDevice (files : Files) (path : String) : Prop :=
  ∃ place ∈ devices, files.locate? path = some place

/-- What can be written stays so as long as the directories are the same. -/
theorem SameDirectories.accepts
    {files other : Files}
    (h : SameDirectories files other)
    {path : String}
    (haccepts : files.Accepts path) :
    other.Accepts path := by
  obtain ⟨place, hplace, hwritable⟩ := haccepts
  exact ⟨place, (h.locate?_eq path).trans hplace,
    (h.isWritable_eq (plain_of_locate? hplace)).trans hwritable⟩

theorem Accepts.create?_eq_some
    {files : Files} {path : String}
    (h : files.Accepts path)
    (content : List UInt8) :
    ∃ after, files.create? path content = some after := by
  obtain ⟨place, hplace, hwritable⟩ := h
  exact ⟨files.writeAt place [] content, by simp [create?, hplace, hwritable]⟩

/-- What is written stands at a place that can be written. -/
theorem create?_eq_some_iff
    {files after : Files} {path : String} {content : List UInt8} :
    files.create? path content = some after ↔
      ∃ place,
        files.locate? path = some place ∧
        files.isWritable place = true ∧
        after = files.writeAt place [] content := by
  simp only [create?, Option.map_eq_some_iff, Option.filter_eq_some_iff, and_assoc,
    @eq_comm _ after]

/-- A file that is made longer keeps what it holds. -/
theorem extend?_eq_some_iff
    {files after : Files} {path : String} {content : List UInt8} :
    files.extend? path content = some after ↔
      ∃ place,
        files.locate? path = some place ∧
        files.isWritable place = true ∧
        after = files.writeAt place (files.getD (pathOf place) []) content := by
  simp only [extend?, Option.map_eq_some_iff, Option.filter_eq_some_iff, and_assoc,
    @eq_comm _ after]

/-- A file is made where its directory is, so no directory is made with it. -/
theorem sameDirectories_create?
    {files after : Files} {path : String} {content : List UInt8}
    (h : files.create? path content = some after) :
    SameDirectories files after := by
  obtain ⟨place, hplace, hwritable, rfl⟩ := create?_eq_some_iff.1 h
  exact sameDirectories_writeAt (plain_of_locate? hplace) hwritable _ _

theorem sameDirectories_extend?
    {files after : Files} {path : String} {content : List UInt8}
    (h : files.extend? path content = some after) :
    SameDirectories files after := by
  obtain ⟨place, hplace, hwritable, rfl⟩ := extend?_eq_some_iff.1 h
  exact sameDirectories_writeAt (plain_of_locate? hplace) hwritable _ _

/-- **A file that was made anew holds what was written**, unless it is a device. -/
theorem open?_create?
    {files after : Files} {path : String} {content : List UInt8}
    (h : files.create? path content = some after)
    (hdevice : ¬ files.IsDevice path) :
    after.open? path = some content := by
  have hsame := sameDirectories_create? h
  obtain ⟨place, hplace, hwritable, rfl⟩ := create?_eq_some_iff.1 h
  have hnot : devices.contains place = false := by
    rw [Bool.eq_false_iff]
    exact fun hmem => hdevice ⟨place, List.contains_iff_mem.1 hmem, hplace⟩
  have hfile : files.hasDirectory place = false := by
    rw [isWritable, hnot, Bool.false_or, Bool.and_eq_true, Bool.not_eq_true'] at hwritable
    exact hwritable.1
  have hafter : (files.writeAt place [] content).hasDirectory place = false :=
    (hsame place (plain_of_locate? hplace)).trans hfile
  rw [open?, hsame.locate?_eq, hplace, Option.bind_some, hafter, hnot, Bool.or_self,
    if_neg Bool.false_ne_true, writeAt, hnot, if_neg Bool.false_ne_true,
      KeyMap.get?_insert_self]
  rfl

/-- Adding nothing to a file leaves what can be read. -/
theorem open?_extend?_nil
    {files after : Files} {path other : String} {content : List UInt8}
    (h : files.extend? path [] = some after)
    (hopen : files.open? other = some content) :
    after.open? other = some content := by
  have hsame := sameDirectories_extend? h
  obtain ⟨place, hplace, hwritable, rfl⟩ := extend?_eq_some_iff.1 h
  unfold open? at hopen ⊢
  rw [hsame.locate?_eq]
  obtain ⟨found, hfound, hread⟩ := Option.bind_eq_some_iff.1 hopen
  rw [hfound, Option.bind_some, hsame found (plain_of_locate? hfound)]
  split at hread
  · next hkind => rw [if_pos hkind, hread]
  · next hkind =>
      rw [if_neg hkind]
      unfold writeAt
      split
      · exact hread
      · rw [KeyMap.get?_insert]
        split
        · next heq => rw [heq, KeyMap.getD, hread, List.append_nil]; rfl
        · exact hread

/-- What can be read after nothing was added to a file could be read before, or is
nothing. -/
theorem open?_of_extend?_nil
    {files after : Files} {path other : String} {content : List UInt8}
    (h : files.extend? path [] = some after)
    (hopen : after.open? other = some content) :
    files.open? other = some content ∨ content = [] := by
  have hsame := sameDirectories_extend? h
  obtain ⟨place, hplace, hwritable, rfl⟩ := extend?_eq_some_iff.1 h
  unfold open? at hopen ⊢
  rw [hsame.locate?_eq] at hopen
  obtain ⟨found, hfound, hread⟩ := Option.bind_eq_some_iff.1 hopen
  rw [hfound, Option.bind_some]
  rw [hsame found (plain_of_locate? hfound)] at hread
  split at hread
  · next hkind => exact .inl (by rw [if_pos hkind, hread])
  · next hkind =>
      rw [if_neg hkind]
      unfold writeAt at hread
      split at hread
      · exact .inl hread
      · rw [KeyMap.get?_insert] at hread
        split at hread
        · next heq =>
            rw [List.append_nil, KeyMap.getD, heq, Option.some.injEq] at hread
            cases hbefore : files.get? (pathOf found) with
            | none =>
                rw [hbefore] at hread
                exact .inr hread.symm
            | some before =>
                rw [hbefore] at hread
                exact .inl (congrArg some hread)
        · exact .inl hread

end Files

end CommandLine

end PhaseFlow
