import VariantClasses.Proofs.Build.Sources
import VariantClasses.Proofs.Build.Visiting
import VariantClasses.Proofs.Registry.Union

/-! # Visiting one file after the other

Where no output takes the place of a file to be visited, a visit keeps what a visit of another
file depends on: what is read for it and whether its output can be written (`Ready.visit`).
So every file of a list comes to what it comes to when it is visited alone.
-/

namespace VariantClasses

namespace Disk

/-- Neither of two directories lies in the other. -/
def Apart (disk : Disk) (root directory : Path) : Prop :=
  ¬disk.place root <+: disk.place directory ∧ ¬disk.place directory <+: disk.place root

instance (disk : Disk) (root directory : Path) : Decidable (disk.Apart root directory) :=
  inferInstanceAs (Decidable (¬_ ∧ ¬_))

section Apart

variable {disk after : Disk} {root directory file other : Path}

/-- No output lies at a location below the root. -/
theorem Apart.place_ne (h : disk.Apart root directory) (hfile : file.IsPlain)
    (hother : other.IsPlain) :
    disk.place (directory.join file) ≠ disk.place (root.join other) := by
  rw [place_join hfile, place_join hother]
  intro heq
  -- One of two fronts of a list is a front of the other.
  rcases List.prefix_or_prefix_of_prefix (List.prefix_append _ _)
    (heq ▸ List.prefix_append (disk.place directory) file.components) with hroot | hdirectory
  · exact h.1 hroot
  · exact h.2 hdirectory

theorem place_join_injective (hfile : file.IsPlain) (hother : other.IsPlain)
    (h : disk.place (directory.join file) = disk.place (directory.join other)) :
    file.components = other.components := by
  rw [place_join hfile, place_join hother] at h
  exact List.append_cancel_left h

/-- Attempts to write one file leave as much room for another. -/
theorem Attempts.hasRoom_iff (h : Attempts (directory.join file) disk after) (htree : disk.IsTree)
    (hfile : file.IsPlain) (hother : other.IsPlain)
    (hbelow : ¬file.components <+: other.components)
    (habove : ¬other.components <+: file.components) :
    after.HasRoom (directory.join other) ↔ disk.HasRoom (directory.join other) := by
  have hmade : disk.place (directory.join other) ∈ disk.above (directory.join file) →
      disk.place (directory.join other) ∈ disk.way (directory.join other) := by
    intro hmem
    rcases (mem_way_join hfile).mp ((namesFile_join hfile).above_subset hmem) with
      hdirectory | ⟨front, hfront, -, hplace⟩
    · exact (mem_way_join hother).mpr (.inl hdirectory)
    · rw [place_join hother] at hplace
      exact absurd (List.append_cancel_left hplace ▸ hfront) habove
  by_cases hroom : disk.HasRoom (directory.join file)
  · apply h.changes.hasRoom_iff _ hmade
    intro location hlocation hwritten
    obtain rfl := Set.mem_singleton_iff.mp hwritten
    rcases (mem_way_join hother).mp hlocation with hdirectory | ⟨front, hfront, -, hplace⟩
    · exact hroom.ahead ((mem_way_join hfile).mpr (.inl hdirectory))
    · rw [place_join hfile] at hplace
      exact hbelow (List.append_cancel_left hplace ▸ hfront)
  · exact (h.changes_of_not_hasRoom htree (namesFile_join hfile) hroom).hasRoom_iff
      (fun _ _ => Set.notMem_empty _) hmade

end Apart

end Disk

namespace Session

open Disk

section

variable {session : Session} {root file : Path} {output : Option Path} {files : List Path}

/-! ## What a visit keeps -/

/-- On a tree, files below a root are to be visited, and no output takes the place of one. -/
structure Ready (disk : Disk) (root : Path) (output : Option Path) (files : List Path) :
    Prop where
  tree : disk.IsTree
  apart : ∀ directory ∈ output, ∀ file ∈ files, ∀ other ∈ files,
    disk.place (directory.join file) ≠ disk.place (root.join other)
  below : ∀ file ∈ files, disk.IsFileBelow root file
  distinct : files.Pairwise fun file other => file.components ≠ other.components

/-- What the visit of a file depends on is as it was. -/
structure Keeps (root : Path) (output : Option Path) (file : Path) (before after : Disk) :
    Prop where
  read_eq : after.read (root.join file) = before.read (root.join file)
  canWrite_iff : ∀ directory ∈ output,
    (CanWrite after (directory.join file) ↔ CanWrite before (directory.join file))

theorem Keeps.canTransform_iff {before after : Disk} (h : Keeps root output file before after)
    {text : Text} :
    CanTransform after root file output text ↔ CanTransform before root file output text := by
  rw [CanTransform, CanTransform, readSource, readSource, h.read_eq]
  exact and_congr_right fun _ => forall₂_congr h.canWrite_iff

section Attempts

variable {disk after : Disk} {directory other : Path}

theorem isFileBelow_of_attempts (h : Attempts (directory.join file) disk after)
    (hapart : disk.place (directory.join file) ≠ disk.place (root.join other))
    (hother : disk.IsFileBelow root other) : after.IsFileBelow root other := by
  have hchanges := h.changes
  refine ⟨hother.plain, ?_, ?_⟩
  · rw [hchanges.start_eq]
    exact hchanges.open_kept hother.located
  · rw [hchanges.place_eq, hchanges.file?_eq]
    · exact hother.file
    · rw [← place_join hother.plain]
      exact hapart.symm

theorem keeps_of_attempts (h : Attempts (directory.join file) disk after) (htree : disk.IsTree)
    (hapart : disk.place (directory.join file) ≠ disk.place (root.join other))
    (hfile : disk.IsFileBelow root file) (hother : disk.IsFileBelow root other)
    (hne : file.components ≠ other.components) :
    Keeps root (some directory) other disk after := by
  have hname : NamesFile (directory.join other) := namesFile_join hother.plain
  refine ⟨?_, ?_⟩
  · obtain ⟨bytes, hread⟩ := hother.exists_read htree
    rw [hread]
    exact h.changes.read hread hapart.symm
  · intro target htarget
    obtain rfl := Option.some.inj htarget
    rw [canWrite_iff_hasRoom (h.isTree htree) hname, canWrite_iff_hasRoom htree hname]
    exact h.hasRoom_iff htree hfile.plain hother.plain (hfile.not_prefix hother htree hne)
      (hother.not_prefix hfile htree hne.symm)

end Attempts

theorem Ready.single {disk : Disk} (h : Ready disk root output files) (hfile : file ∈ files) :
    Ready disk root output [file] where
  tree := h.tree
  apart directory hdirectory first hfirst second hsecond := by
    obtain rfl := List.mem_singleton.mp hfirst
    obtain rfl := List.mem_singleton.mp hsecond
    exact h.apart directory hdirectory _ hfile _ hfile
  below other hother := by
    obtain rfl := List.mem_singleton.mp hother
    exact h.below _ hfile
  distinct := List.pairwise_singleton _ _

/-- A visit of one file keeps what the visits of the others depend on. -/
theorem Ready.visit (h : Ready session.disk root output (file :: files)) :
    Ready (session.visit root file output).1.disk root output files ∧
      ∀ other ∈ files, Keeps root output other session.disk
        (session.visit root file output).1.disk := by
  obtain ⟨htree, hapart, hbelow, hdistinct⟩ := h
  obtain ⟨hfile, hfiles⟩ := List.forall_mem_cons.mp hbelow
  obtain ⟨hne, hdistinct⟩ := List.pairwise_cons.mp hdistinct
  cases output with
  | none =>
    rw [visit_disk_of_none]
    exact ⟨⟨htree, by simp, hfiles, hdistinct⟩, fun other _ => ⟨rfl, fun _ _ => Iff.rfl⟩⟩
  | some directory =>
    have hattempts := visit_attempts session root file directory
    have hplaces (other : Path) (hother : other ∈ files) :=
      hapart directory rfl file List.mem_cons_self other (List.mem_cons_of_mem file hother)
    refine ⟨⟨hattempts.isTree htree, ?_, ?_, hdistinct⟩, ?_⟩
    · intro target htarget first hfirst second hsecond
      rw [hattempts.changes.place_eq, hattempts.changes.place_eq]
      exact hapart target htarget first (List.mem_cons_of_mem file hfirst) second
        (List.mem_cons_of_mem file hsecond)
    · intro other hother
      exact isFileBelow_of_attempts hattempts (hplaces other hother) (hfiles other hother)
    · intro other hother
      exact keeps_of_attempts hattempts htree (hplaces other hother) hfile (hfiles other hother)
        (hne other hother)

/-! ## What a list of visits comes to -/

theorem visitAll_cons (session : Session) (root file : Path) (output : Option Path)
    (files : List Path) :
    session.visitAll root output (file :: files) =
      (((session.visit root file output).1.visitAll root output files).1,
        (file, (session.visit root file output).2) ::
          ((session.visit root file output).1.visitAll root output files).2) :=
  rfl

theorem visitAll_map_fst (session : Session) (root : Path) (output : Option Path)
    (files : List Path) : (session.visitAll root output files).2.map Prod.fst = files := by
  induction files generalizing session with
  | nil => rfl
  | cons file files ih => rw [visitAll_cons, List.map_cons, ih]

theorem exists_visitAll_build (session : Session) (root : Path) (output : Option Path)
    (files : List Path) :
    ∃ registry,
      (session.visitAll root output files).1.build = { session.build with registry } := by
  induction files generalizing session with
  | nil => exact ⟨_, rfl⟩
  | cons file files ih =>
    obtain ⟨registry, hvisit⟩ := exists_visit_build session root file output
    obtain ⟨final, hfiles⟩ := ih (session.visit root file output).1
    exact ⟨final, by rw [visitAll_cons, hfiles, hvisit]⟩

theorem visitAll_grows (session : Session) (root : Path) (output : Option Path)
    (files : List Path) : session.disk.Grows (session.visitAll root output files).1.disk := by
  induction files generalizing session with
  | nil => exact .refl _
  | cons file files ih => exact (session.visit_grows root file output).trans (ih _)

theorem visitAll_isTree (session : Session) (h : session.disk.IsTree) (root : Path)
    (output : Option Path) (files : List Path) :
    (session.visitAll root output files).1.disk.IsTree := by
  induction files generalizing session with
  | nil => exact h
  | cons file files ih => exact ih _ (session.visit_isTree h root file output)

theorem visitAll_disk_of_none (session : Session) (root : Path) (files : List Path) :
    (session.visitAll root none files).1.disk = session.disk := by
  induction files generalizing session with
  | nil => rfl
  | cons file files ih => rw [visitAll_cons, ih, visit_disk_of_none]

theorem options_visit (session : Session) (root file : Path) (output : Option Path) :
    (session.visit root file output).1.build.options = session.build.options := by
  obtain ⟨registry, hbuild⟩ := exists_visit_build session root file output
  rw [hbuild]

/-- Where the outputs of some files go. -/
def outputPlaces (disk : Disk) (output : Option Path) (files : List Path) : Set Location :=
  {location | ∃ directory ∈ output, ∃ file ∈ files, location = disk.place (directory.join file)}

instance (disk : Disk) (output : Option Path) (files : List Path) (location : Location) :
    Decidable (location ∈ outputPlaces disk output files) :=
  decidable_of_iff (∃ directory ∈ output.toList, ∃ file ∈ files,
    location = disk.place (directory.join file)) (by simp [outputPlaces])

theorem changes_of_attempts {disk after : Disk} {directory : Path}
    (h : Attempts (directory.join file) disk after) :
    disk.Changes after Set.univ (outputPlaces disk (some directory) [file]) := by
  apply h.changes.mono (Set.subset_univ _)
  intro location hlocation
  exact ⟨directory, rfl, file, List.mem_singleton_self file, hlocation⟩

theorem visit_changes (session : Session) (root file : Path) (output : Option Path) :
    session.disk.Changes (session.visit root file output).1.disk Set.univ
      (outputPlaces session.disk output [file]) := by
  cases output with
  | none =>
    rw [visit_disk_of_none]
    exact .refl _ _ _
  | some directory => exact changes_of_attempts (visit_attempts session root file directory)

theorem transformOne_changes (session : Session) (root file : Path) (output : Option Path) :
    session.disk.Changes (session.transformOne root file output).1.disk Set.univ
      (outputPlaces session.disk output [file]) := by
  cases output with
  | none =>
    rw [transformOne_disk_of_none]
    exact .refl _ _ _
  | some directory =>
    exact changes_of_attempts (transformOne_attempts session root file directory)

/-- Visits change files at their outputs only. -/
theorem visitAll_changes (session : Session) (root : Path) (output : Option Path)
    (files : List Path) :
    session.disk.Changes (session.visitAll root output files).1.disk Set.univ
      (outputPlaces session.disk output files) := by
  induction files generalizing session with
  | nil => exact .refl _ _ _
  | cons file files ih =>
    have hvisit := visit_changes session root file output
    have hfiles := ih (session.visit root file output).1
    apply (hvisit.trans hfiles).mono (Set.subset_univ _)
    rintro location (⟨directory, hdirectory, other, hother, rfl⟩ |
      ⟨directory, hdirectory, other, hother, rfl⟩)
    · obtain rfl := List.mem_singleton.mp hother
      exact ⟨directory, hdirectory, other, List.mem_cons_self, rfl⟩
    · exact ⟨directory, hdirectory, other, List.mem_cons_of_mem file hother, hvisit.place_eq _⟩

/-- The status of a visit depends on what it keeps for the others only. -/
theorem Keeps.visit_status {other : Session} (h : Keeps root output file session.disk other.disk)
    (htree : session.disk.IsTree) (hafter : other.disk.IsTree) (hplain : file.IsPlain)
    (hoptions : other.build.options = session.build.options) :
    (other.visit root file output).2 = (session.visit root file output).2 := by
  rcases session.visit_cases root output htree hplain with ⟨text, hcan, hstatus, -⟩ |
    ⟨hcan, hstatus, -⟩
  · rw [hstatus, (visit_of_canTransform hafter hplain (h.canTransform_iff.mpr hcan)).1, hoptions]
  · have hafterCan (text : Text) : ¬CanTransform other.disk root file output text := by
      rw [h.canTransform_iff]
      exact hcan text
    rw [hstatus, (visit_of_not_canTransform hafter hplain hafterCan).1]

/-- Every file comes to what it comes to when it is visited alone. -/
theorem Ready.visitAll_snd (h : Ready session.disk root output files) :
    (session.visitAll root output files).2 =
      files.map fun file => (file, (session.visit root file output).2) := by
  induction files generalizing session with
  | nil => rfl
  | cons file files ih =>
    obtain ⟨hready, hkeeps⟩ := h.visit
    rw [visitAll_cons, List.map_cons, ih hready]
    refine congrArg (List.cons _) (List.map_congr_left ?_)
    intro other hother
    have hplain := (h.below other (List.mem_cons_of_mem file hother)).plain
    rw [(hkeeps other hother).visit_status h.tree hready.tree hplain (options_visit _ _ _ _)]

theorem Keeps.trans {before between after : Disk} (h : Keeps root output file before between)
    (hnext : Keeps root output file between after) : Keeps root output file before after where
  read_eq := hnext.read_eq.trans h.read_eq
  canWrite_iff directory hdirectory :=
    (hnext.canWrite_iff directory hdirectory).trans (h.canWrite_iff directory hdirectory)

/-- What the visit of a file leaves at its output is there after all visits. -/
theorem Ready.visitAll_read {directory : Path} {bytes : ByteArray}
    (h : Ready session.disk root (some directory) files) (hfile : file ∈ files)
    (hvisit : ∀ other : Session, Ready other.disk root (some directory) [file] →
      other.build.options = session.build.options →
      Keeps root (some directory) file session.disk other.disk →
      (other.visit root file (some directory)).1.disk.read (directory.join file) = .ok bytes) :
    (session.visitAll root (some directory) files).1.disk.read (directory.join file) =
      .ok bytes := by
  induction files generalizing session with
  | nil => cases hfile
  | cons first files ih =>
    obtain ⟨hready, hkeeps⟩ := h.visit
    rw [visitAll_cons]
    rcases List.mem_cons.mp hfile with rfl | hfile
    · have hread := hvisit session (h.single List.mem_cons_self) rfl
        ⟨rfl, fun _ _ => Iff.rfl⟩
      have hchanges := visitAll_changes (session.visit root file (some directory)).1 root
        (some directory) files
      apply hchanges.read hread
      rintro ⟨target, htarget, other, hother, hplace⟩
      obtain rfl := Option.some.inj htarget
      have hplain := (h.below file List.mem_cons_self).plain
      exact List.rel_of_pairwise_cons h.distinct hother (place_join_injective hplain
        (h.below other (List.mem_cons_of_mem file hother)).plain hplace)
    · apply ih hready hfile
      intro other hother hoptions hkept
      exact hvisit other hother (hoptions.trans (options_visit _ _ _ _))
        ((hkeeps file hfile).trans hkept)

theorem Ready.visitAll_read_of_canTransform (h : Ready session.disk root output files)
    (hfile : file ∈ files) {text : Text} (hcan : CanTransform session.disk root file output text) :
    ∀ directory ∈ output,
      (session.visitAll root output files).1.disk.read (directory.join file) =
        .ok (transformFile session.build.options file text).code.encode := by
  intro directory hdirectory
  obtain rfl := hdirectory
  apply h.visitAll_read hfile
  intro other hready hoptions hkept
  have hplain := (hready.below file (List.mem_singleton_self file)).plain
  rw [← hoptions]
  exact (visit_of_canTransform hready.tree hplain (hkept.canTransform_iff.mpr hcan)).2.2
    directory rfl

theorem Ready.visitAll_passes_through {directory : Path} {bytes : ByteArray}
    (h : Ready session.disk root (some directory) files) (hfile : file ∈ files)
    (hread : session.disk.read (root.join file) = .ok bytes)
    (hdecode : Text.decode? bytes = none)
    (hwrite : CanWrite session.disk (directory.join file)) :
    (session.visitAll root (some directory) files).1.disk.read (directory.join file) =
      .ok bytes := by
  apply h.visitAll_read hfile
  intro other hready hoptions hkept
  have hplain := (hready.below file (List.mem_singleton_self file)).plain
  rw [← hkept.read_eq] at hread
  rw [← hkept.canWrite_iff directory rfl] at hwrite
  exact visit_passes_through hready.tree hplain hread hdecode hwrite
    (hready.apart directory rfl file (List.mem_singleton_self file) file
      (List.mem_singleton_self file))

/-- What the output of a file holds when it can be written: the transformed text, or the bytes of
the file when they are no text. -/
def outputBytes (options : Options) (file : Path) (bytes : ByteArray) : ByteArray :=
  match Text.decode? bytes with
  | some text => (transformFile options file text).code.encode
  | none => bytes

theorem Ready.visitAll_read_outputBytes {directory : Path} {bytes : ByteArray}
    (h : Ready session.disk root (some directory) files) (hfile : file ∈ files)
    (hread : session.disk.read (root.join file) = .ok bytes)
    (hwrite : CanWrite session.disk (directory.join file)) :
    (session.visitAll root (some directory) files).1.disk.read (directory.join file) =
      .ok (outputBytes session.build.options file bytes) := by
  rw [outputBytes]
  cases hdecode : Text.decode? bytes with
  | none => exact h.visitAll_passes_through hfile hread hdecode hwrite
  | some text =>
    have hcan : CanTransform session.disk root file (some directory) text := by
      refine ⟨readSource_eq_ok_iff.mpr ⟨bytes, hread, hdecode⟩, ?_⟩
      intro other hother
      obtain rfl := Option.some.inj hother
      exact hwrite
    exact h.visitAll_read_of_canTransform hfile hcan directory rfl

/-- Where the outputs of some files go that can be written. -/
def writtenPlaces (disk : Disk) (output : Option Path) (files : List Path) : Set Location :=
  {location | ∃ directory ∈ output, ∃ file ∈ files,
    CanWrite disk (directory.join file) ∧ location = disk.place (directory.join file)}

/-- The directories above the outputs of some files. -/
def outputDirectories (disk : Disk) (output : Option Path) (files : List Path) : Set Location :=
  {location | ∃ directory ∈ output, ∃ file ∈ files, location ∈ disk.above (directory.join file)}

instance (disk : Disk) (output : Option Path) (files : List Path) (location : Location) :
    Decidable (location ∈ outputDirectories disk output files) :=
  decidable_of_iff (∃ directory ∈ output.toList, ∃ file ∈ files,
    location ∈ disk.above (directory.join file)) (by simp [outputDirectories])

theorem writtenPlaces_subset (disk : Disk) (output : Option Path) (files : List Path) :
    writtenPlaces disk output files ⊆ outputPlaces disk output files := by
  rintro location ⟨directory, hdirectory, file, hfile, -, hlocation⟩
  exact ⟨directory, hdirectory, file, hfile, hlocation⟩

theorem visit_changes_written (session : Session) (root : Path) (output : Option Path)
    (htree : session.disk.IsTree) (hplain : file.IsPlain) :
    session.disk.Changes (session.visit root file output).1.disk
      (outputDirectories session.disk output [file])
      (writtenPlaces session.disk output [file]) := by
  cases output with
  | none =>
    rw [visit_disk_of_none]
    exact .refl _ _ _
  | some directory =>
    have hattempts := visit_attempts session root file directory
    have hname : NamesFile (directory.join file) := namesFile_join hplain
    have hmade : session.disk.above (directory.join file) ⊆
        outputDirectories session.disk (some directory) [file] := fun location hlocation =>
      ⟨directory, rfl, file, List.mem_singleton_self file, hlocation⟩
    by_cases hcan : CanWrite session.disk (directory.join file)
    · apply hattempts.changes.mono hmade
      intro location hlocation
      exact ⟨directory, rfl, file, List.mem_singleton_self file, hcan, hlocation⟩
    · rw [canWrite_iff_hasRoom htree hname] at hcan
      exact (hattempts.changes_of_not_hasRoom htree hname hcan).mono hmade (Set.empty_subset _)

/-- What work on some files may leave: directories above the outputs, and other files at the
outputs that can be written. -/
structure Leaves (output : Option Path) (files : List Path) (before after : Disk) : Prop where
  tree : after.IsTree
  grows : before.Grows after
  changes : before.Changes after (outputDirectories before output files)
    (writtenPlaces before output files)

theorem Leaves.nil {disk : Disk} (htree : disk.IsTree) (output : Option Path) :
    Leaves output [] disk disk :=
  ⟨htree, .refl disk, .refl disk _ _⟩

theorem Leaves.cons {before between after : Disk} (htree : before.IsTree)
    (h : Leaves output [file] before between) (hmore : Leaves output files between after) :
    Leaves output (file :: files) before after := by
  refine ⟨hmore.tree, h.grows.trans hmore.grows, (h.changes.trans hmore.changes).mono ?_ ?_⟩
  · rintro location (⟨directory, hdirectory, other, hother, hlocation⟩ |
      ⟨directory, hdirectory, other, hother, hlocation⟩)
    · obtain rfl := List.mem_singleton.mp hother
      exact ⟨directory, hdirectory, other, List.mem_cons_self, hlocation⟩
    · rw [h.changes.above_eq] at hlocation
      exact ⟨directory, hdirectory, other, List.mem_cons_of_mem file hother, hlocation⟩
  · rintro location (⟨directory, hdirectory, other, hother, hcan, rfl⟩ |
      ⟨directory, hdirectory, other, hother, hcan, rfl⟩)
    · obtain rfl := List.mem_singleton.mp hother
      exact ⟨directory, hdirectory, other, List.mem_cons_self, hcan, rfl⟩
    · -- What can be written after the first file could be written before it.
      have hbefore := canWrite_of_grows h.grows htree h.tree hcan
      exact ⟨directory, hdirectory, other, List.mem_cons_of_mem file hother, hbefore,
        h.changes.place_eq _⟩

theorem leaves_visit (session : Session) (root : Path) (output : Option Path)
    (htree : session.disk.IsTree) (hplain : file.IsPlain) :
    Leaves output [file] session.disk (session.visit root file output).1.disk :=
  ⟨session.visit_isTree htree root file output, session.visit_grows root file output,
    session.visit_changes_written root output htree hplain⟩

/-! ## What is recorded -/

/-- The classes that a file contributes to a build. -/
def Contributes (options : Options) (disk : Disk) (root : Path) (output : Option Path)
    (file : Path) (classes : ClassSet) : Prop :=
  ∃ text, CanTransform disk root file output text ∧
    classes = (transformFile options file text).variants

/-- A file contributes one set of classes at most. -/
theorem Contributes.eq {options : Options} {disk : Disk} {classes others : ClassSet}
    (h : Contributes options disk root output file classes)
    (hothers : Contributes options disk root output file others) : classes = others := by
  obtain ⟨text, htext, rfl⟩ := h
  obtain ⟨other, hother, rfl⟩ := hothers
  obtain rfl := Except.ok.inj (hother.1.symm.trans htext.1)
  rfl

theorem Keeps.contributes_iff {before after : Disk} (h : Keeps root output file before after)
    {options : Options} {classes : ClassSet} :
    Contributes options after root output file classes ↔
      Contributes options before root output file classes := by
  simp only [Contributes, h.canTransform_iff]

/-- Recording what a file contributes leaves it contributed, also when it was before. -/
theorem find?_record {registry : Registry} {classes : ClassSet}
    (hsame : ∀ recorded ∈ registry.files.find? file.components, recorded = classes)
    (key : List Text) :
    (registry.record file classes.toList).files.find? key =
      if key = file.components then some classes else registry.files.find? key := by
  have hcontribution : (registry.contribution file).insertAll classes.toList = classes := by
    ext class_
    rw [Registry.contribution]
    cases hfind : registry.files.find? file.components with
    | none => simp [← ClassSet.mem_def]
    | some recorded =>
      obtain rfl := hsame recorded hfind
      simp [← ClassSet.mem_def]
  rw [Registry.record, SortedMap.find?_insert, hcontribution]

/-- A visit records what the file contributes. -/
theorem find?_visit (root : Path) (output : Option Path) (htree : session.disk.IsTree)
    (hplain : file.IsPlain)
    (hnew : session.build.registry.files.find? file.components = none) (key : List Text)
    (classes : ClassSet) :
    (session.visit root file output).1.build.registry.files.find? key = some classes ↔
      (file.components = key ∧
        Contributes session.build.options session.disk root output file classes) ∨
      session.build.registry.files.find? key = some classes := by
  rcases session.visit_cases root output htree hplain with ⟨text, hcan, -, hregistry⟩ |
    ⟨hcan, -, hbuild⟩
  · have hunique : Contributes session.build.options session.disk root output file classes ↔
        classes = (transformFile session.build.options file text).variants :=
      ⟨fun h => h.eq ⟨text, hcan, rfl⟩, fun h => ⟨text, hcan, h⟩⟩
    rw [hregistry, find?_record (by simp [hnew]), hunique]
    by_cases hkey : key = file.components
    · simp [hkey, hnew, eq_comm]
    · simp [hkey, Ne.symm hkey]
  · have hnone : ¬Contributes session.build.options session.disk root output file classes := by
      rintro ⟨text, htext, -⟩
      exact hcan text htext
    rw [hbuild]
    simp [hnone]

/-- Visits record what the files contribute. -/
theorem Ready.find?_visitAll (h : Ready session.disk root output files)
    (hnew : ∀ file ∈ files, session.build.registry.files.find? file.components = none)
    (key : List Text) (classes : ClassSet) :
    (session.visitAll root output files).1.build.registry.files.find? key = some classes ↔
      (∃ file ∈ files, file.components = key ∧
        Contributes session.build.options session.disk root output file classes) ∨
      session.build.registry.files.find? key = some classes := by
  induction files generalizing session with
  | nil => simp [visitAll]
  | cons file files ih =>
    obtain ⟨hready, hkeeps⟩ := h.visit
    have hvisit := find?_visit root output h.tree
      (h.below file List.mem_cons_self).plain (hnew file List.mem_cons_self)
    have hnext : ∀ other ∈ files,
        (session.visit root file output).1.build.registry.files.find? other.components = none := by
      intro other hother
      apply Option.eq_none_iff_forall_ne_some.mpr
      intro classes hsome
      rcases (hvisit other.components classes).mp hsome with ⟨heq, -⟩ | hbefore
      · exact List.rel_of_pairwise_cons h.distinct hother heq
      · rw [hnew other (List.mem_cons_of_mem file hother)] at hbefore
        cases hbefore
    have hfiles := ih hready hnext
    rw [options_visit] at hfiles
    rw [visitAll_cons, hfiles, hvisit]
    constructor
    · rintro (⟨other, hother, hkey, hclasses⟩ | ⟨hkey, hclasses⟩ | hbefore)
      · exact .inl ⟨other, List.mem_cons_of_mem file hother, hkey,
          (hkeeps other hother).contributes_iff.mp hclasses⟩
      · exact .inl ⟨file, List.mem_cons_self, hkey, hclasses⟩
      · exact .inr hbefore
    · rintro (⟨other, hother, hkey, hclasses⟩ | hbefore)
      · rcases List.mem_cons.mp hother with rfl | hother
        · exact .inr (.inl ⟨hkey, hclasses⟩)
        · exact .inl ⟨other, hother, hkey, (hkeeps other hother).contributes_iff.mpr hclasses⟩
      · exact .inr (.inr hbefore)

theorem Ready.isUnion_visitAll (h : Ready session.disk root output files)
    (hunion : session.build.registry.IsUnion) :
    (session.visitAll root output files).1.build.registry.IsUnion := by
  induction files generalizing session with
  | nil => exact hunion
  | cons file files ih =>
    have hplain := (h.below file List.mem_cons_self).plain
    apply ih h.visit.1
    rcases session.visit_cases root output h.tree hplain with ⟨text, -, -, hregistry⟩ |
      ⟨-, -, hbuild⟩
    · rw [hregistry]
      exact hunion.record file _
    · rwa [hbuild]

end

end Session

end VariantClasses
