import VariantClasses.Proofs.Build.Completing
import VariantClasses.Proofs.Disk.Alike

/-! # What files hold

A visit writes an output where there is room for one, whether the file is transformed or copied as
it is, so visits of the same files leave disks that are alike, whatever the files hold
(`visitAll_alike`). Whether a run ends well depends on what the `.gitignore` holds and on no other
file (`canFinish_visits_alike_iff`).
-/

namespace VariantClasses

open Disk

namespace Session

variable {disk : Disk} {path : Path} {session other : Session} {root file : Path}
  {output : Option Path} {files : List Path}

theorem writeWithParents_tries (htree : disk.IsTree) (hname : NamesFile path) (text : Text) :
    Tries path disk (writeWithParents disk path text).1 where
  written hroom := by
    have hok : (writeWithParents disk path text).2 = .ok () :=
      (writeWithParents_snd_eq_ok_iff htree hname).mpr hroom
    exact ⟨text.encode, writeWithParents_eq_ok_iff.mp (Prod.ext rfl hok)⟩
  made hroom := by
    apply (writeWithParents_cases disk path text).resolve_left
    intro hwritten
    exact hroom ((htree.exists_deposits_iff hname _).mp ⟨_, hwritten⟩)

theorem passThrough_tries (session : Session) {source target : Path}
    (htree : session.disk.IsTree) (hname : NamesFile target) {bytes : ByteArray}
    (hread : session.disk.read source = .ok bytes) :
    Tries target session.disk (session.passThrough source target).disk where
  written hroom := ⟨_, passThrough_deposits session htree hname hroom hread⟩
  made hroom := by
    apply (passThrough_cases session source target).resolve_left
    rintro ⟨others, hwritten⟩
    exact hroom ((htree.exists_deposits_iff hname _).mp ⟨_, hwritten⟩)

/-- A visit of a file that can be read tries to write its output, be it twice. -/
theorem visit_tries (htree : session.disk.IsTree) (hplain : file.IsPlain) {bytes : ByteArray}
    (hread : session.disk.read (root.join file) = .ok bytes) (directory : Path) :
    Tries (directory.join file) session.disk
      (session.visit root file (some directory)).1.disk := by
  have hname : NamesFile (directory.join file) := namesFile_join hplain
  rw [visit, transformOne]
  cases readSource session.disk (root.join file) with
  | error failure => exact passThrough_tries { session with
      notices := session.notices ++ [.leftUnmodified failure file] } htree hname hread
  | ok text =>
    dsimp only
    let code := (transformFile session.build.options file text).code
    have hwrite : Tries (directory.join file) session.disk
        (writeWithParents session.disk (directory.join file) code).1 :=
      writeWithParents_tries htree hname code
    have hattempts := writeWithParents_attempts session.disk (directory.join file) code
    have hroom : (writeWithParents session.disk (directory.join file) code).2 = .ok () ↔
        session.disk.HasRoom (directory.join file) := writeWithParents_snd_eq_ok_iff htree hname
    rw [writeOutput]
    cases hcome : writeWithParents session.disk (directory.join file) code with
    | mk after outcome =>
      rw [hcome] at hwrite hattempts hroom
      cases outcome with
      | ok done => exact hwrite
      | error failure =>
        -- The output is tried again, with what the file holds, and there is no more room for that.
        obtain ⟨others, hothers⟩ := hattempts.grows.exists_read hread
        apply hwrite.again _ htree hname (mt hroom.mpr (by simp))
        exact passThrough_tries ⟨session.build, after, _⟩ (hattempts.isTree htree) hname hothers

/-- Visits of one file leave disks alike that were. -/
theorem visit_alike (htree : session.disk.IsTree) (halike : session.disk.Alike other.disk)
    (hplain : file.IsPlain) {bytes : ByteArray}
    (hread : session.disk.read (root.join file) = .ok bytes) :
    (session.visit root file output).1.disk.Alike (other.visit root file output).1.disk := by
  cases output with
  | none =>
    rw [visit_disk_of_none, visit_disk_of_none]
    exact halike
  | some directory =>
    obtain ⟨others, hothers⟩ := halike.grows.exists_read hread
    exact (visit_tries htree hplain hread directory).alike
      (visit_tries (halike.isTree htree) hplain hothers directory) halike

/-- Visits of the same files leave disks alike that were, whatever the files hold and whichever of
them fail. -/
theorem visitAll_alike (htree : session.disk.IsTree) (halike : session.disk.Alike other.disk)
    (hbelow : ∀ file ∈ files, session.disk.IsFileBelow root file) :
    (session.visitAll root output files).1.disk.Alike
      (other.visitAll root output files).1.disk := by
  have hplain : ∀ file ∈ files, file.IsPlain := fun file hfile => (hbelow file hfile).plain
  have hread : ∀ file ∈ files, ∃ bytes, session.disk.read (root.join file) = .ok bytes :=
    fun file hfile => (hbelow file hfile).exists_read htree
  clear hbelow
  induction files generalizing session other with
  | nil => exact halike
  | cons file files ih =>
    obtain ⟨hfile, hfiles⟩ := List.forall_mem_cons.mp hplain
    obtain ⟨⟨bytes, hbytes⟩, hreads⟩ := List.forall_mem_cons.mp hread
    have hgrows := session.visit_grows root file output
    rw [visitAll_cons, visitAll_cons]
    apply ih (session.visit_isTree htree root file output) (visit_alike htree halike hfile hbytes)
      hfiles
    intro later hlater
    obtain ⟨others, hothers⟩ := hreads later hlater
    exact hgrows.exists_read hothers

end Session

namespace Build

open Session

variable {build : Build} {disk other : Disk} {root : Path} {output : Option Path}

theorem IsSource.alike {names : List Text} (h : build.IsSource disk root names)
    (halike : disk.Alike other) : build.IsSource other root names where
  located := by
    obtain ⟨location, hlocate⟩ := h.located
    exact ⟨location, halike.grows.locate hlocate⟩
  ne_nil := h.ne_nil
  file := by
    rw [halike.grows.place_eq]
    exact halike.grows.file_kept h.file
  other := by
    rw [halike.grows.place_eq, Ne, halike.locate_eq_ok_iff]
    exact h.other
  accepted := h.accepted

/-- What is a source does not depend on what it holds. -/
theorem sources_alike (build : Build) (htree : disk.IsTree) (halike : disk.Alike other)
    (root : Path) : build.sources other root = build.sources disk root := by
  have hsource (names : List Text) :
      build.IsSource other root names ↔ build.IsSource disk root names :=
    ⟨fun h => h.alike halike.symm, fun h => h.alike halike⟩
  apply (build.ascending_sources (halike.isTree htree) root).eq_of_mem_iff
    (build.ascending_sources htree root)
  intro file
  simp only [mem_sources_iff, hsource]

theorem visits_alike (build : Build) (htree : disk.IsTree) (halike : disk.Alike other)
    (root : Path) (output : Option Path) :
    (build.visits disk root output).1.disk.Alike (build.visits other root output).1.disk := by
  rw [visits, visits, build.sources_alike htree halike]
  exact visitAll_alike htree halike fun _ hfile => isFileBelow_of_mem_sources htree hfile

/-- A build can finish on a disk when it can on another that is alike and has the same
`.gitignore`. -/
theorem canFinish_alike_iff (htree : disk.IsTree) (halike : disk.Alike other)
    (hsame : other.file? (disk.place build.gitignore) = disk.file? (disk.place build.gitignore)) :
    build.CanFinish other ↔ build.CanFinish disk := by
  have hwrite : CanWrite other build.writer.path ↔ CanWrite disk build.writer.path := by
    by_cases hname : NamesFile build.writer.path
    · rw [canWrite_iff_hasRoom (halike.isTree htree) hname, canWrite_iff_hasRoom htree hname,
        halike.hasRoom_iff]
    · exact iff_of_false (fun h => hname h.namesFile) fun h => hname h.namesFile
  rw [canFinish_iff, canFinish_iff, CanList, CanList, halike.grows.place_eq, halike.grows.way_eq,
    hwrite, Gitignore.isFree_iff, Gitignore.isFree_iff, hsame, Ne, Ne, halike.directory_iff]

/-- Whether a run ends well depends on what the `.gitignore` holds, and on no other file. -/
theorem canFinish_visits_alike_iff (htree : disk.IsTree) (halike : disk.Alike other)
    (hsame : other.file? (disk.place build.gitignore) = disk.file? (disk.place build.gitignore))
    (root : Path) (output : Option Path) :
    build.CanFinish (build.visits other root output).1.disk ↔
      build.CanFinish (build.visits disk root output).1.disk := by
  have hkept (disk : Disk) (htree : disk.IsTree) :
      (build.visits disk root output).1.disk.file? (disk.place build.gitignore) =
        disk.file? (disk.place build.gitignore) :=
    (build.visits_changes_written htree root output).file?_eq
      (gitignore_notMem_writtenPlaces build htree root output)
  have hother := hkept other (halike.isTree htree)
  have hdisk := hkept disk htree
  have hchanges := build.visits_changes_written htree root output
  apply canFinish_alike_iff (build.visits_isTree htree root output)
    (build.visits_alike htree halike root output)
  rw [halike.grows.place_eq] at hother
  rw [hchanges.place_eq, hother, hsame, hdisk]

end Build

end VariantClasses
