import VariantClasses.Proofs.Disk.Room

/-! # Nothing is taken away

Operations write over files and make directories, and what is there stays what it is (`Grows`).
So a path keeps leading where it led, a file in the way stays in the way, and there is room for
a file that can be read.
-/

namespace VariantClasses.Disk

/-- Directories stay directories, and files stay files, whatever they hold then. -/
structure Grows (before after : Disk) : Prop where
  workingDirectory : after.workingDirectory = before.workingDirectory
  directory_kept {location : Location} (h : before.entry? location = some .directory) :
    after.entry? location = some .directory
  file_kept {location : Location} (h : before.file? location ≠ none) :
    after.file? location ≠ none

variable {disk before between after : Disk} {path : Path} {location : Location}
  {made written : Set Location}

theorem exists_entry?_of_file?_ne_none (h : disk.file? location ≠ none) :
    ∃ bytes, disk.entry? location = some (.file bytes) := by
  obtain ⟨bytes, hbytes⟩ := Option.ne_none_iff_exists'.mp h
  exact ⟨bytes, file?_eq_some_iff.mp hbytes⟩

theorem file?_ne_none_of_read {bytes : ByteArray} (h : disk.read path = .ok bytes) :
    disk.file? (disk.place path) ≠ none := by
  rw [(read_eq_ok_iff.mp h).2.2]
  exact Option.some_ne_none _

theorem locate_of_read {bytes : ByteArray} (h : disk.read path = .ok bytes) :
    disk.locate path = .ok (disk.place path) := by
  obtain ⟨location, hlocate, -⟩ := bind_eq_ok_iff.mp h
  obtain ⟨-, -, rfl, -⟩ := locate_eq_ok_iff.mp hlocate
  exact hlocate

/-! ## Operations -/

/-- A change that writes no file takes nothing away. -/
theorem Changes.grows (h : before.Changes after made ∅) : before.Grows after where
  workingDirectory := h.workingDirectory
  directory_kept := h.directory_kept
  file_kept hfile := by rwa [h.file?_eq (Set.notMem_empty _)]

namespace Grows

theorem refl (disk : Disk) : disk.Grows disk :=
  ⟨rfl, id, id⟩

theorem trans (h : before.Grows between) (hnext : between.Grows after) : before.Grows after where
  workingDirectory := hnext.workingDirectory.trans h.workingDirectory
  directory_kept hdirectory := hnext.directory_kept (h.directory_kept hdirectory)
  file_kept hfile := hnext.file_kept (h.file_kept hfile)

end Grows

theorem grows_of_write {bytes : ByteArray} (h : disk.write path bytes = .ok after) :
    disk.Grows after := by
  have hchanges := changes_of_write h
  have hread := file?_ne_none_of_read (read_of_write h)
  refine ⟨hchanges.workingDirectory, hchanges.directory_kept, ?_⟩
  intro location hfile
  by_cases heq : location = disk.place path
  · rw [heq, ← hchanges.place_eq]
    exact hread
  · rwa [hchanges.file?_eq heq]

theorem Attempts.grows (h : Attempts path disk after) : disk.Grows after := by
  have hmake (disk : Disk) : disk.Grows (disk.makeDirectories path.directory).1 :=
    (changes_makeDirectories_directory disk path).grows
  induction h with
  | none disk => exact .refl disk
  | make disk => exact hmake disk
  | deposit written => exact (hmake _).trans (grows_of_write written.2)
  | trans first then_ ihfirst ihthen => exact ihfirst.trans ihthen

/-! ## What growth keeps -/

namespace Grows

theorem start_eq (h : before.Grows after) (path : Path) : after.start path = before.start path := by
  rw [start, start, h.workingDirectory]

theorem place_eq (h : before.Grows after) (path : Path) : after.place path = before.place path := by
  rw [place, place, h.start_eq]

theorem way_eq (h : before.Grows after) (path : Path) : after.way path = before.way path := by
  rw [way, way, h.start_eq]

/-- A path keeps leading where it led. -/
theorem locate (h : before.Grows after) (hlocate : before.locate path = .ok location) :
    after.locate path = .ok location := by
  obtain ⟨hne, hopen, rfl, entry, hentry, hslash⟩ := locate_eq_ok_iff.mp hlocate
  apply locate_eq_ok_iff.mpr
  rw [h.start_eq, h.place_eq]
  refine ⟨hne, fun other hother => h.directory_kept (hopen other hother), rfl, ?_⟩
  cases entry with
  | directory => exact ⟨.directory, h.directory_kept hentry, fun _ => rfl⟩
  | file bytes =>
    have hfile : before.file? (before.place path) ≠ none := by
      simp [file?_eq_some_iff.mpr hentry]
    obtain ⟨others, hothers⟩ := exists_entry?_of_file?_ne_none (h.file_kept hfile)
    exact ⟨.file others, hothers, fun h => nomatch hslash h⟩

/-- A file that could be read can be read, whatever it holds then. -/
theorem exists_read (h : before.Grows after) {bytes : ByteArray}
    (hread : before.read path = .ok bytes) : ∃ others, after.read path = .ok others := by
  obtain ⟨hslash, hopen, hfile⟩ := read_eq_ok_iff.mp hread
  obtain ⟨others, hothers⟩ :=
    Option.ne_none_iff_exists'.mp (h.file_kept (file?_ne_none_of_read hread))
  refine ⟨others, read_eq_ok_iff.mpr ⟨hslash, ?_, ?_⟩⟩
  · rw [h.way_eq]
    exact fun location hlocation => h.directory_kept (hopen location hlocation)
  · rwa [h.place_eq]

/-- Room that is there after growth was there before it. -/
theorem hasRoom (h : before.Grows after) (hroom : after.HasRoom path) : before.HasRoom path := by
  obtain ⟨hclear, hahead, hfree⟩ := hroom
  rw [h.way_eq] at hclear hahead
  rw [h.place_eq] at hahead hfree
  refine ⟨?_, hahead, fun hdirectory => hfree (h.directory_kept hdirectory)⟩
  intro location hlocation
  by_contra hfile
  exact h.file_kept hfile (hclear location hlocation)

end Grows

/-! ## Files that can be read -/

/-- On a tree the path of a file that can be read ends in a name. -/
theorem IsTree.namesFile_of_read (h : disk.IsTree) {bytes : ByteArray}
    (hread : disk.read path = .ok bytes) : NamesFile path := by
  obtain ⟨hslash, hopen, hfile⟩ := read_eq_ok_iff.mp hread
  have hentry := file?_eq_some_iff.mp hfile
  have hbase := (open_passed_iff.mp hopen).2
  refine ⟨hslash, ?_⟩
  cases hlast : path.steps.getLast? with
  | none =>
    have hplace := hopen _ (place_mem_way_of_steps_eq_nil (List.getLast?_eq_none_iff.mp hlast))
    rw [hentry] at hplace
    cases hplace
  | some last =>
    rw [place_eq_stepFrom hlast] at hentry
    -- A dot leads to a directory that was passed, and two dots lead above it.
    refine ⟨last, rfl, ?_, ?_⟩
    · rintro rfl
      rw [stepFrom, if_pos rfl, hbase] at hentry
      cases hentry
    · rintro rfl
      have hup : Path.up ≠ Path.here := by decide
      rw [stepFrom, if_neg hup, if_pos rfl, h.directory_dropLast hbase] at hentry
      cases hentry

/-- There is room where a file can be read. -/
theorem hasRoom_of_read {bytes : ByteArray} (hread : disk.read path = .ok bytes) :
    disk.HasRoom path := by
  obtain ⟨-, hopen, hfile⟩ := read_eq_ok_iff.mp hread
  have hentry := file?_eq_some_iff.mp hfile
  refine ⟨hopen.clear, ?_, by simp [hentry]⟩
  intro hmem
  have hdirectory := hopen _ hmem
  rw [hentry] at hdirectory
  cases hdirectory

end VariantClasses.Disk
