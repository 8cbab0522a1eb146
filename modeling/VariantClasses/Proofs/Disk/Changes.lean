import Mathlib.Data.Set.Insert
import VariantClasses.Proofs.Disk.Places

/-! # What operations change

An operation leaves the files as they are but at the locations it writes, and it takes no
directory away (`Changes`). Where an operation does not write, what was read before is read
after it (`Changes.read`).
-/

namespace VariantClasses

theorem map_eq_ok_iff {ε α β : Type} {x : Except ε α} {f : α → β} {b : β} :
    x.map f = .ok b ↔ ∃ a, x = .ok a ∧ f a = b := by
  cases x <;> simp [Except.map]

namespace Disk

/-- From one disk to the other, files change at the written locations only, and directories
are added at the made locations only. Nothing stops being a directory. -/
structure Changes (before after : Disk) (made written : Set Location) : Prop where
  workingDirectory : after.workingDirectory = before.workingDirectory
  file?_eq {location : Location} (h : location ∉ written) :
    after.file? location = before.file? location
  directory_kept {location : Location} (h : before.entry? location = some .directory) :
    after.entry? location = some .directory
  directory_made {location : Location} (h : after.entry? location = some .directory) :
    before.entry? location = some .directory ∨ location ∈ made

variable {disk before between after : Disk} {path : Path}
  {made more written rewritten : Set Location}

namespace Changes

theorem refl (disk : Disk) (made written : Set Location) : disk.Changes disk made written :=
  ⟨rfl, fun _ => rfl, id, .inl⟩

theorem mono (h : before.Changes after made written) (hmade : made ⊆ more)
    (hwritten : written ⊆ rewritten) : before.Changes after more rewritten where
  workingDirectory := h.workingDirectory
  file?_eq hlocation := h.file?_eq fun hmem => hlocation (hwritten hmem)
  directory_kept := h.directory_kept
  directory_made hdirectory := (h.directory_made hdirectory).imp_right fun hmem => hmade hmem

theorem trans (h : before.Changes between made written)
    (hnext : between.Changes after more rewritten) :
    before.Changes after (made ∪ more) (written ∪ rewritten) where
  workingDirectory := hnext.workingDirectory.trans h.workingDirectory
  file?_eq hlocation := by
    rw [Set.mem_union, not_or] at hlocation
    rw [hnext.file?_eq hlocation.2, h.file?_eq hlocation.1]
  directory_kept hdirectory := hnext.directory_kept (h.directory_kept hdirectory)
  directory_made hdirectory := by
    rcases hnext.directory_made hdirectory with hbetween | hmem
    · exact (h.directory_made hbetween).imp_right fun hmem => .inl hmem
    · exact .inr (.inr hmem)

/-- Where the written files hold what they held, no file has changed. -/
theorem of_file?_eq (h : before.Changes after made written)
    (hfiles : ∀ location ∈ written, after.file? location = before.file? location) :
    before.Changes after made ∅ where
  workingDirectory := h.workingDirectory
  file?_eq {location} _ := by
    by_cases hmem : location ∈ written
    · exact hfiles location hmem
    · exact h.file?_eq hmem
  directory_kept := h.directory_kept
  directory_made := h.directory_made

theorem start_eq (h : before.Changes after made written) (path : Path) :
    after.start path = before.start path := by
  rw [start, start, h.workingDirectory]

theorem place_eq (h : before.Changes after made written) (path : Path) :
    after.place path = before.place path := by
  rw [place, place, h.start_eq]

theorem way_eq (h : before.Changes after made written) (path : Path) :
    after.way path = before.way path := by
  rw [way, way, h.start_eq]

theorem open_kept (h : before.Changes after made written) {way : List Location}
    (hopen : before.Open way) : after.Open way :=
  fun location hlocation => h.directory_kept (hopen location hlocation)

/-- What was read is still read unless it was written. -/
theorem read (h : before.Changes after made written) {bytes : ByteArray}
    (hread : before.read path = .ok bytes) (hplace : before.place path ∉ written) :
    after.read path = .ok bytes := by
  obtain ⟨hslash, hopen, hfile⟩ := read_eq_ok_iff.mp hread
  apply read_eq_ok_iff.mpr
  rw [h.way_eq, h.place_eq, h.file?_eq hplace]
  exact ⟨hslash, h.open_kept hopen, hfile⟩

end Changes

/-! ## Putting an entry -/

theorem entry?_put_self {location : Location} (h : location ≠ []) (disk : Disk) (entry : Entry) :
    Disk.entry? (disk.put location entry) location = some entry := by
  rw [Disk.entry?, if_neg h, put, SortedMap.find?_insert, if_pos rfl]

theorem entry?_put_of_ne {location other : Location} (h : other ≠ location) (disk : Disk)
    (entry : Entry) : Disk.entry? (disk.put location entry) other = disk.entry? other := by
  rw [Disk.entry?, put, Disk.entry?, SortedMap.find?_insert, if_neg h]

theorem entry?_ne_of_eq_none (disk : Disk) {location : Location}
    (h : disk.entry? location = none) : disk.entry? location ≠ some .directory := by
  rw [h]
  exact (Option.some_ne_none _).symm

theorem ne_nil_of_entry?_ne {location : Location} (h : disk.entry? location ≠ some .directory) :
    location ≠ [] := by
  intro hnil
  exact h (by simp [hnil, entry?])

theorem changes_put_file {location : Location} (bytes : ByteArray)
    (h : disk.entry? location ≠ some .directory) :
    disk.Changes (disk.put location (.file bytes)) ∅ {location} where
  workingDirectory := rfl
  file?_eq hother := by rw [file?, entry?_put_of_ne hother, file?]
  directory_kept {other} hother := by
    have hne : other ≠ location := fun heq => h (heq ▸ hother)
    rwa [entry?_put_of_ne hne]
  directory_made {other} hother := by
    by_cases heq : other = location
    · rw [heq, entry?_put_self (ne_nil_of_entry?_ne h)] at hother
      cases hother
    · rw [entry?_put_of_ne heq] at hother
      exact .inl hother

theorem changes_put_directory {location : Location} (h : disk.entry? location = none) :
    disk.Changes (disk.put location .directory) {location} ∅ where
  workingDirectory := rfl
  file?_eq {other} _ := by
    by_cases heq : other = location
    · have hne : location ≠ [] := ne_nil_of_entry?_ne (disk.entry?_ne_of_eq_none h)
      rw [file?, file?, heq, h, entry?_put_self hne]
    · rw [file?, entry?_put_of_ne heq, file?]
  directory_kept {other} hother := by
    have hne : other ≠ location := fun heq => by simp [← heq, hother] at h
    rwa [entry?_put_of_ne hne]
  directory_made {other} hother := by
    by_cases heq : other = location
    · exact .inr heq
    · rw [entry?_put_of_ne heq] at hother
      exact .inl hother

/-! ## Files -/

theorem write_eq_ok_iff {bytes : ByteArray} :
    disk.write path bytes = .ok after ↔
      NamesFile path ∧ disk.Open (disk.way path) ∧
        disk.entry? (disk.place path) ≠ some .directory ∧
        disk.put (disk.place path) (.file bytes) = after := by
  rw [write, map_eq_ok_iff]
  simp only [destination_eq_ok_iff]
  constructor
  · intro h
    obtain ⟨location, ⟨hname, hopen, rfl, hfree⟩, hput⟩ := h
    exact ⟨hname, hopen, hfree, hput⟩
  · intro h
    obtain ⟨hname, hopen, hfree, hput⟩ := h
    exact ⟨_, ⟨hname, hopen, rfl, hfree⟩, hput⟩

theorem changes_of_write {bytes : ByteArray} (h : disk.write path bytes = .ok after) :
    disk.Changes after ∅ {disk.place path} := by
  obtain ⟨-, -, hfree, rfl⟩ := write_eq_ok_iff.mp h
  exact changes_put_file bytes hfree

/-- A file that was put at the end of an open way is read there. -/
theorem read_put (hname : NamesFile path) (hopen : disk.Open (disk.way path))
    (hfree : disk.entry? (disk.place path) ≠ some .directory) (bytes : ByteArray) :
    (disk.put (disk.place path) (.file bytes)).read path = .ok bytes := by
  have hchanges := changes_put_file bytes hfree
  apply read_eq_ok_iff.mpr
  rw [hchanges.way_eq, hchanges.place_eq, file?_eq_some_iff,
    entry?_put_self (ne_nil_of_entry?_ne hfree)]
  exact ⟨hname.1, hchanges.open_kept hopen, rfl⟩

theorem read_of_write {bytes : ByteArray} (h : disk.write path bytes = .ok after) :
    after.read path = .ok bytes := by
  obtain ⟨hname, hopen, hfree, rfl⟩ := write_eq_ok_iff.mp h
  exact read_put hname hopen hfree bytes

/-- Copying writes what is read, but nothing when the source is the target. -/
theorem copy_eq_ok_iff {source target : Path} :
    disk.copy source target = .ok after ↔
      ∃ bytes, disk.read source = .ok bytes ∧
        disk.write target (if disk.place target = disk.place source then .empty else bytes) =
          .ok after := by
  have hwrite (location : Location) (hlocate : disk.locate source = .ok location)
      (bytes : ByteArray) : (disk.destination target).map (fun other =>
        disk.put other (.file (if other = location then ByteArray.empty else bytes))) = .ok after ↔
      disk.write target (if disk.place target = disk.place source then .empty else bytes) =
        .ok after := by
    obtain ⟨-, -, rfl, -⟩ := locate_eq_ok_iff.mp hlocate
    simp only [write, map_eq_ok_iff, destination_eq_ok_iff]
    apply exists_congr
    intro other
    apply and_congr_right
    rintro ⟨-, -, rfl, -⟩
    rfl
  rw [copy, bind_eq_ok_iff]
  constructor
  · intro h
    obtain ⟨location, hlocate, h⟩ := h
    split at h
    next bytes hentry =>
      refine ⟨bytes, ?_, (hwrite location hlocate bytes).mp h⟩
      rw [read, hlocate, Except.bind, hentry]
    next => cases h
  · intro h
    obtain ⟨bytes, hread, h⟩ := h
    obtain ⟨location, hlocate, hbytes⟩ := bind_eq_ok_iff.mp hread
    refine ⟨location, hlocate, ?_⟩
    split at hbytes
    next other hentry =>
      cases hbytes
      rw [hentry]
      exact (hwrite location hlocate bytes).mpr h
    next => cases hbytes
    next => cases hbytes

/-! ## Directories -/

theorem makeDirectory_eq_ok_iff :
    disk.makeDirectory path = .ok after ↔
      (∃ last ∈ path.steps.getLast?, last ≠ Path.here ∧ last ≠ Path.up) ∧
        disk.Open (disk.way path) ∧ disk.entry? (disk.place path) = none ∧
        disk.put (disk.place path) .directory = after := by
  rw [makeDirectory, bind_eq_ok_iff]
  constructor
  · intro h
    obtain ⟨⟨reached, last⟩, happroach, h⟩ := h
    cases last with
    | none => cases h
    | some last =>
      obtain ⟨hlast, rfl, hopen⟩ := approach_eq_ok_iff.mp happroach
      dsimp only at h
      split at h
      next => cases h
      next hname =>
        simp only [not_or, Option.not_isSome_iff_eq_none] at hname
        rw [place_eq_concat hlast hname.1 hname.2.1]
        cases h
        exact ⟨⟨last, hlast, hname.1, hname.2.1⟩, hopen, hname.2.2, rfl⟩
  · intro h
    obtain ⟨⟨last, hlast, hhere, hup⟩, hopen, hfree, rfl⟩ := h
    refine ⟨_, approach_eq_ok_iff.mpr ⟨hlast, rfl, hopen⟩, ?_⟩
    rw [place_eq_concat hlast hhere hup] at hfree ⊢
    simp [hhere, hup, hfree]

theorem changes_of_makeDirectory (h : disk.makeDirectory path = .ok after) :
    disk.Changes after {disk.place path} ∅ := by
  obtain ⟨-, -, hfree, rfl⟩ := makeDirectory_eq_ok_iff.mp h
  exact changes_put_directory hfree

/-- What holds of a disk and is kept when one of some directories is made holds when all of
them were to be made. -/
theorem makeChain_induction (holds : Disk → Prop) {paths : List Path} (hstart : holds disk)
    (hmake : ∀ path ∈ paths, ∀ before after : Disk, holds before →
      before.makeDirectory path = .ok after → holds after) : holds (disk.makeChain paths).1 := by
  induction paths with
  | nil => exact hstart
  | cons path above ih =>
    have habove : holds (disk.makeChain above).1 :=
      ih fun other hother => hmake other (List.mem_cons_of_mem path hother)
    rw [makeChain]
    split
    next => exact hstart
    next =>
      split
      next made hmade => exact hmake path List.mem_cons_self disk made hstart hmade
      next =>
        split
        next made fault hchain =>
          rw [hchain] at habove
          exact habove
        next made hchain =>
          rw [hchain] at habove
          split
          next after hafter => exact hmake path List.mem_cons_self made after habove hafter
          next => exact habove
      next => exact hstart

/-- Making some directories adds none but them. -/
theorem changes_makeChain (disk : Disk) (paths : List Path) :
    disk.Changes (disk.makeChain paths).1 {location | ∃ path ∈ paths, location = disk.place path}
      ∅ := by
  apply makeChain_induction (disk.Changes · _ ∅) (.refl disk _ _)
  intro path hpath before after hbefore hafter
  have hplace : {before.place path} ⊆ {location | ∃ path ∈ paths, location = disk.place path} := by
    rintro location rfl
    exact ⟨path, hpath, hbefore.place_eq path⟩
  have hboth := hbefore.trans ((changes_of_makeDirectory hafter).mono hplace subset_rfl)
  rwa [Set.union_self, Set.union_self] at hboth

end Disk

/-! ## Ways to write files -/

namespace Disk

/-- What a way to write files is held to. The file is emptied before anything is written, so when
that fails it can be left with any front of the bytes. -/
structure IsStore (store : Store) : Prop where
  written {disk after : Disk} {path : Path} {bytes : ByteArray}
    (h : store disk path bytes = (after, .ok ())) : disk.write path bytes = .ok after
  failed {disk after : Disk} {path : Path} {bytes : ByteArray} {fault : DiskFault}
    (h : store disk path bytes = (after, .error fault)) :
    after = disk ∨ ∃ front rest, bytes = front ++ rest ∧ disk.write path front = .ok after

theorem store_eq_ok_iff {disk after : Disk} {path : Path} {bytes : ByteArray} :
    store disk path bytes = (after, .ok ()) ↔ disk.write path bytes = .ok after := by
  cases hwrite : disk.write path bytes <;> simp [store, hwrite]

/-- A write that fails where the disk shows it leaves the disk as it is. -/
theorem store_eq_error_iff {disk after : Disk} {path : Path} {bytes : ByteArray}
    {fault : DiskFault} : store disk path bytes = (after, .error fault) ↔
      disk = after ∧ disk.write path bytes = .error fault := by
  cases hwrite : disk.write path bytes <;> simp [store, hwrite]

theorem isStore_store : IsStore store where
  written h := store_eq_ok_iff.mp h
  failed h := .inl (store_eq_error_iff.mp h).1.symm

theorem IsStore.changes {store : Store} (h : IsStore store) (disk : Disk) (path : Path)
    (bytes : ByteArray) : disk.Changes (store disk path bytes).1 ∅ {disk.place path} := by
  cases hstore : store disk path bytes with
  | mk after outcome =>
    cases outcome with
    | ok done => exact changes_of_write (h.written hstore)
    | error fault =>
      rcases h.failed hstore with rfl | ⟨front, rest, -, hwrite⟩
      · exact .refl after _ _
      · exact changes_of_write hwrite

end Disk

end VariantClasses
