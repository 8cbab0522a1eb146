import VariantClasses.Proofs.Build.Ignoring
import VariantClasses.Proofs.Build.Recording

/-! # When a run ends well

A new build ends a run well exactly when the artifact can be written on the disk that the visits
leave, and can be listed if that is asked for (`exists_summary_run_iff`). Where the outputs stay
clear of the artifact and the `.gitignore`, it is the disk before the run that decides, whatever
becomes of the files (`OutputsClear.exists_summary_iff`).
-/

namespace VariantClasses

open Disk Session

namespace Build

/-- The `.gitignore` can be made to list the artifact once that was written: it is the artifact
itself, or nothing but a text is there and no directory is made there for the artifact. -/
def CanList (build : Build) (disk : Disk) : Prop :=
  build.writer.path.fileName? = some Gitignore.fileName.text ∨
    disk.place build.gitignore ∉ disk.way build.writer.path ∧
      Gitignore.IsFree disk (disk.place build.gitignore)

/-- The artifact can be written, and listed if the options ask for it. -/
structure CanFinish (build : Build) (disk : Disk) : Prop where
  write : CanWrite disk build.writer.path
  list : build.options.gitignore = true → build.CanList disk

theorem canFinish_iff {build : Build} {disk : Disk} : build.CanFinish disk ↔
    CanWrite disk build.writer.path ∧
      (build.options.gitignore = true → build.CanList disk) :=
  ⟨fun h => ⟨h.1, h.2⟩, fun h => ⟨h.1, h.2⟩⟩

end Build

/-! ## The artifact and the `.gitignore` -/

namespace Session

variable {session : Session}

/-- A writer that remembers nothing brings the artifact up to date where it can be written. -/
theorem syncArtifact_snd_eq_ok_iff (htree : session.disk.IsTree)
    (hnew : session.build.writer.written = none) :
    session.syncArtifact.2 = .ok () ↔ CanWrite session.disk session.build.writer.path := by
  let document := renderArtifact session.build.registry.classes
  have hsync : session.build.writer.sync session.disk session.build.registry =
      ((session.build.writer.write session.disk document).1,
        (session.build.writer.write session.disk document).2.map fun _ => true) :=
    if_neg (by simp [hnew])
  have hwrite : (session.build.writer.write session.disk document).2 = .ok () ↔
      CanWrite session.disk session.build.writer.path :=
    ArtifactWriter.write_snd_eq_ok_iff htree
  rw [← hwrite, syncArtifact, hsync]
  cases (session.build.writer.write session.disk document).2 <;> simp [Except.map]

/-- Next to an artifact that is there, listing it depends on what is at the `.gitignore`. -/
theorem ignoreArtifact_snd_eq_ok_iff {bytes : ByteArray}
    (hname : NamesFile session.build.writer.path)
    (hread : session.disk.read session.build.writer.path = .ok bytes) :
    session.ignoreArtifact.2 = .ok () ↔ (session.build.options.gitignore = true →
      Gitignore.IsFree session.disk (session.disk.place session.build.gitignore)) := by
  obtain ⟨name, hfile, -⟩ := Build.place_artifact hname session.disk
  obtain ⟨-, hopen, -⟩ := read_eq_ok_iff.mp hread
  have hway : session.disk.Open (session.disk.way session.build.gitignore) := fun location h =>
    hopen location ((Build.mem_way_gitignore_iff hname session.disk location).mp h)
  have hensure : (∃ changed, (Gitignore.ensure session.disk session.build.artifactDirectory
      name).2 = .ok changed) ↔
        Gitignore.IsFree session.disk (session.disk.place session.build.gitignore) :=
    Gitignore.ensure_snd_eq_ok_iff session.build.namesFile_gitignore hway
  rw [← hensure, ignoreArtifact, hfile]
  cases session.build.options.gitignore with
  | false => simp
  | true => simp [map_eq_ok_iff, Build.artifactDirectory]

/-- Once the artifact was written, the `.gitignore` is as free as it was before, but for the
directories that were made on the way to the artifact. -/
theorem isFree_syncArtifact_iff (hname : NamesFile session.build.writer.path) {text : Text}
    (hread : session.syncArtifact.1.disk.read session.build.writer.path = .ok text.encode) :
    Gitignore.IsFree session.syncArtifact.1.disk (session.disk.place session.build.gitignore) ↔
      session.build.CanList session.disk := by
  have hchanges : session.disk.Changes session.syncArtifact.1.disk
      (session.disk.above session.build.writer.path)
      {session.disk.place session.build.writer.path} :=
    (session.build.writer.sync_attempts session.disk session.build.registry).changes
  obtain ⟨-, hopen, hfile⟩ := read_eq_ok_iff.mp hread
  rw [hchanges.way_eq] at hopen
  rw [hchanges.place_eq] at hfile
  by_cases hsame : session.build.writer.path.fileName? = some Gitignore.fileName.text
  · have hplace := (Build.sameFile_gitignore hname hsame session.disk).place_eq
    rw [Build.CanList, hplace, Gitignore.isFree_iff, hfile, file?_eq_some_iff.mp hfile]
    simp [hsame, Text.decode?_encode]
  · have hfile : session.syncArtifact.1.disk.file? (session.disk.place session.build.gitignore) =
        session.disk.file? (session.disk.place session.build.gitignore) :=
      hchanges.file?_eq (Build.place_gitignore_ne hname hsame session.disk).symm
    rw [Build.CanList, Gitignore.isFree_iff, Gitignore.isFree_iff, hfile]
    constructor
    · rintro ⟨hdirectory, hdecodes⟩
      refine .inr ⟨?_, ?_, hdecodes⟩
      · intro hmem
        exact hdirectory (hopen _ hmem)
      · intro hbefore
        exact hdirectory (hchanges.directory_kept hbefore)
    · rintro (hname | ⟨hmem, hdirectory, hdecodes⟩)
      · exact absurd hname hsame
      · refine ⟨?_, hdecodes⟩
        intro hafter
        rcases hchanges.directory_made hafter with hbefore | hmade
        · exact hdirectory hbefore
        · exact hmem (hname.above_subset hmade)

/-- A session ends well exactly when its build can finish on its disk. -/
theorem exists_summary_finish_iff (htree : session.disk.IsTree)
    (hnew : session.build.writer.written = none) (seen : List (Path × FileStatus)) :
    (∃ summary, (session.finish seen).summary = .ok summary) ↔
      session.build.CanFinish session.disk := by
  have hsync := syncArtifact_snd_eq_ok_iff htree hnew
  have hlist (hwritten : session.syncArtifact.2 = .ok ()) :
      session.syncArtifact.1.ignoreArtifact.2 = .ok () ↔
        (session.build.options.gitignore = true → session.build.CanList session.disk) := by
    have hname := (hsync.mp hwritten).namesFile
    have hremembers : session.build.writer.Remembers session.disk := by
      intro document hdocument
      simp [hnew] at hdocument
    obtain ⟨changed, hok, -⟩ := map_eq_ok_iff.mp hwritten
    have hread : session.syncArtifact.1.disk.read session.build.writer.path =
        .ok (renderArtifact session.build.registry.classes).encode :=
      hremembers.sync_of_ok hok
    rw [← isFree_syncArtifact_iff hname hread, ← (syncArtifact_changes session).place_eq,
      ← syncArtifact_gitignore]
    rw [← path_syncArtifact] at hname hread
    exact ignoreArtifact_snd_eq_ok_iff hname hread
  simp only [summary_finish_eq_ok_iff]
  constructor
  · rintro ⟨summary, hwritten, hlisted, -⟩
    exact ⟨hsync.mp hwritten, (hlist hwritten).mp hlisted⟩
  · rintro ⟨hwrite, hcan⟩
    have hwritten := hsync.mpr hwrite
    exact ⟨_, hwritten, (hlist hwritten).mpr hcan, rfl⟩

/-- Visits that are reported on were counted, each of them. -/
theorem Visited.files_of_summary {root : Path} {output : Option Path} {after : Session}
    {files : List Path} {seen : List (Path × FileStatus)}
    (h : Visited root output session files after seen) {summary : Summary}
    (hok : (after.finish seen).summary = .ok summary) :
    summary.files = files.length := by
  obtain ⟨-, -, rfl⟩ := summary_finish_eq_ok_iff.mp hok
  rw [Build.files_summarise, ← h.map_fst, List.length_map]

end Session

namespace Build

variable {build : Build} {disk : Disk} {root : Path} {output : Option Path}

/-- A new build ends a run well exactly when it can finish on the disk that the visits leave. -/
theorem exists_summary_run_iff (htree : disk.IsTree) (hnew : build.writer.written = none)
    (root : Path) (output : Option Path) :
    (∃ summary, (build.run disk root output).summary = .ok summary) ↔
      build.CanFinish (build.visits disk root output).1.disk := by
  obtain ⟨registry, hbuild⟩ := build.exists_visits_build disk root output
  have hfinish := exists_summary_finish_iff (build.visits_isTree htree root output)
    (by rw [hbuild]; exact hnew) (build.visits disk root output).2
  rw [run_eq_finish, hfinish, hbuild, canFinish_iff, canFinish_iff]
  rfl

/-- A run ends well when the artifact is brought up to date after the visits, and is listed if the
options ask for it. -/
theorem exists_summary_run_iff_updated (build : Build) (disk : Disk) (root : Path)
    (output : Option Path) :
    (∃ summary, (build.run disk root output).summary = .ok summary) ↔
      (build.visits disk root output).1.syncArtifact.2 = .ok () ∧
        (build.options.gitignore = true →
          (build.visits disk root output).1.syncArtifact.1.ignoreArtifact.2 = .ok ()) := by
  obtain ⟨registry, hbuild⟩ := build.exists_visits_build disk root output
  have hoptions : (build.visits disk root output).1.syncArtifact.1.build.options =
      build.options := by
    rw [syncArtifact_build, hbuild]
  have hunasked (h : build.options.gitignore = false) :
      (build.visits disk root output).1.syncArtifact.1.ignoreArtifact.2 = .ok () := by
    rw [ignoreArtifact, hoptions, h]
  rw [run_eq_finish]
  simp only [summary_finish_eq_ok_iff, exists_and_left, exists_eq, and_true]
  apply and_congr_right
  intro _
  cases hasked : build.options.gitignore with
  | false => simp [hunasked hasked]
  | true => simp

/-- A run that ends well has counted the sources. -/
theorem files_of_summary_run {summary : Summary}
    (h : (build.run disk root output).summary = .ok summary) :
    summary.files = (build.sources disk root).length := by
  rw [run_eq_finish] at h
  exact (build.visited_visits disk root output).files_of_summary h

/-! ## New builds -/

theorem exists_mapM_eq_ok_iff {ε α β : Type} {f : α → Except ε β} {entries : List α} :
    (∃ results, entries.mapM f = .ok results) ↔ ∀ x ∈ entries, ∃ y, f x = .ok y := by
  induction entries with
  | nil => simp [pure, Except.pure]
  | cons x entries ih =>
    rw [List.forall_mem_cons, ← ih, List.mapM_cons]
    cases hx : f x with
    | error e => simp [bind, Except.bind]
    | ok y => cases hmore : entries.mapM f <;> simp [bind, Except.bind, pure, Except.pure]

/-- There is a build for options exactly when every ignore pattern is one. -/
theorem exists_new_iff {options : Options} :
    (∃ build, Build.new options = .ok build) ↔
      ∀ pattern ∈ options.ignore, ∃ glob, Glob.ofText pattern = .ok glob := by
  rw [← exists_mapM_eq_ok_iff, Build.new, FileFilter.ofOptions, FileFilter.new]
  cases options.ignore.mapM Glob.ofText <;> simp [Except.map]

theorem of_new {options : Options} (h : Build.new options = .ok build) :
    build.options = options ∧ build.writer = .new options.artifact := by
  rw [Build.new] at h
  split at h
  next => cases h
  next =>
    cases h
    exact ⟨rfl, rfl⟩

/-! ## Outputs that stay clear -/

/-- No output takes the place of the `.gitignore`. -/
theorem gitignore_notMem_writtenPlaces (build : Build) (htree : disk.IsTree) (root : Path)
    (output : Option Path) :
    disk.place build.gitignore ∉ writtenPlaces disk output (build.sources disk root) := by
  rintro ⟨directory, -, file, hfile, -, heq⟩
  exact build.place_join_ne_gitignore (isFileBelow_of_mem_sources htree hfile).plain
    (accepts_of_mem_sources hfile) disk directory heq.symm

/-- No output that can be written stands on the way to the artifact, and no directory is made in
the place of the artifact or of the `.gitignore` for an output. -/
structure OutputsClear (build : Build) (disk : Disk) (root : Path) (output : Option Path) :
    Prop where
  way : ∀ location ∈ disk.way build.writer.path,
    location ∉ writtenPlaces disk output (build.sources disk root)
  artifact : disk.place build.writer.path ∉
    outputDirectories disk output (build.sources disk root)
  gitignore : disk.place build.gitignore ∉ outputDirectories disk output (build.sources disk root)

theorem OutputsClear.of_none (houtput : output = none) : build.OutputsClear disk root output := by
  constructor <;> simp [houtput, writtenPlaces, outputDirectories]

/-- Work whose outputs stay clear leaves it to the disk before it whether a run ends well. -/
theorem OutputsClear.canFinish_iff {after : Disk} (hclear : build.OutputsClear disk root output)
    (htree : disk.IsTree) (h : Leaves output (build.sources disk root) disk after) :
    build.CanFinish after ↔ build.CanFinish disk := by
  have hwrite : CanWrite after build.writer.path ↔ CanWrite disk build.writer.path := by
    by_cases hname : NamesFile build.writer.path
    · rw [canWrite_iff_hasRoom h.tree hname, canWrite_iff_hasRoom htree hname]
      exact h.changes.hasRoom_iff hclear.way fun hmade => absurd hmade hclear.artifact
    · exact iff_of_false (fun h => hname h.namesFile) fun h => hname h.namesFile
  have hfree : Gitignore.IsFree after (disk.place build.gitignore) ↔
      Gitignore.IsFree disk (disk.place build.gitignore) := by
    have hplace := build.gitignore_notMem_writtenPlaces htree root output
    have hdirectory : after.entry? (disk.place build.gitignore) = some .directory ↔
        disk.entry? (disk.place build.gitignore) = some .directory :=
      ⟨fun hafter => (h.changes.directory_made hafter).resolve_right hclear.gitignore,
        h.changes.directory_kept⟩
    rw [Gitignore.isFree_iff, Gitignore.isFree_iff, h.changes.file?_eq hplace, Ne, Ne, hdirectory]
  rw [Build.canFinish_iff, Build.canFinish_iff, CanList, CanList, h.changes.place_eq,
    h.changes.way_eq, hwrite, hfree]

/-- Where the outputs stay clear, the disk before the visits decides whether a new build ends a run
well, whichever of the visits fail. -/
theorem OutputsClear.exists_summary_iff (hclear : build.OutputsClear disk root output)
    (htree : disk.IsTree) (hnew : build.writer.written = none) {after : Session}
    {seen : List (Path × FileStatus)}
    (h : Visited root output ⟨{ build with registry := .empty }, disk, []⟩
      (build.sources disk root) after seen) :
    (∃ summary, (after.finish seen).summary = .ok summary) ↔ build.CanFinish disk := by
  have hleaves := h.leaves htree fun _ hfile => (isFileBelow_of_mem_sources htree hfile).plain
  obtain ⟨registry, hbuild⟩ := h.exists_build
  have hcan : after.build.CanFinish after.disk ↔ build.CanFinish after.disk := by
    rw [hbuild, Build.canFinish_iff, Build.canFinish_iff]
    rfl
  rw [exists_summary_finish_iff hleaves.tree (by rw [hbuild]; exact hnew), hcan]
  exact hclear.canFinish_iff htree hleaves

end Build

end VariantClasses
