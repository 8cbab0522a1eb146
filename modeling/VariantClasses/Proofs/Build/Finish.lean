import VariantClasses.Build.Run
import VariantClasses.Proofs.Build.Hindering
import VariantClasses.Proofs.Gitignore

/-! # Finishing a run

After the visits a run writes the artifact and the `.gitignore` next to it, and no other
file (`finish_changes`). A writer remembers what it wrote last, and as long as nobody else
writes the artifact, that is what the artifact holds (`Remembers`).
-/

namespace VariantClasses

open Disk

namespace ArtifactWriter

/-- The artifact holds the document that the writer remembers. -/
def Remembers (writer : ArtifactWriter) (disk : Disk) : Prop :=
  ∀ document ∈ writer.written, disk.read writer.path = .ok (Text.encode document)

section

variable {writer : ArtifactWriter} {disk : Disk} {document : Text} {registry : Registry}

theorem Remembers.of_changes {after : Disk} {made written : Set Location}
    (h : writer.Remembers disk) (hchanges : disk.Changes after made written)
    (hplace : disk.place writer.path ∉ written) : writer.Remembers after :=
  fun document hdocument => hchanges.read (h document hdocument) hplace

/-- What a write comes to: the directories cannot be made, the document cannot be written, or
it is there and remembered. -/
theorem write_cases (writer : ArtifactWriter) (disk : Disk) (document : Text) :
    (∃ state ∈ [writer, ⟨writer.path, none⟩], ∃ failure, writer.write disk document =
      ((state, (disk.makeDirectories writer.path.directory).1), .error failure)) ∨
    ∃ after, disk.Deposits writer.path document.encode after ∧
      writer.write disk document = ((⟨writer.path, some document⟩, after), .ok ()) := by
  simp only [write, Deposits]
  cases hmade : disk.makeDirectories writer.path.directory with
  | mk made outcome =>
    cases outcome with
    | error fault => exact .inl ⟨writer, by simp, _, rfl⟩
    | ok done =>
      dsimp only
      cases hwrite : made.write writer.path document.encode with
      | error fault => exact .inl ⟨⟨writer.path, none⟩, by simp, _, rfl⟩
      | ok written => exact .inr ⟨written, ⟨rfl, rfl⟩, rfl⟩

theorem write_attempts (writer : ArtifactWriter) (disk : Disk) (document : Text) :
    Attempts writer.path disk (writer.write disk document).1.2 := by
  rcases writer.write_cases disk document with ⟨_, -, _, hwrite⟩ | ⟨after, hafter, hwrite⟩
  · rw [hwrite]
    exact .make disk
  · rw [hwrite]
    exact .deposit hafter

theorem path_write (writer : ArtifactWriter) (disk : Disk) (document : Text) :
    (writer.write disk document).1.1.path = writer.path := by
  rcases writer.write_cases disk document with ⟨state, hstate, _, hwrite⟩ | ⟨after, -, hwrite⟩
  · rw [hwrite]
    rcases List.mem_pair.mp hstate with rfl | rfl <;> rfl
  · rw [hwrite]

/-- A document is written exactly when it can be, with the directories above it. -/
theorem write_snd_eq_ok_iff (htree : disk.IsTree) :
    (writer.write disk document).2 = .ok () ↔ Session.CanWrite disk writer.path := by
  have heq : (writer.write disk document).2 = .ok () ↔
      (Session.writeWithParents disk writer.path document).2 = .ok () := by
    rw [write, Session.writeWithParents]
    cases disk.makeDirectories writer.path.directory with
    | mk made outcome =>
      cases outcome with
      | error fault => simp
      | ok done =>
        dsimp only
        cases made.write writer.path document.encode <;> simp
  rw [heq]
  exact ⟨fun h => ⟨document, h⟩, fun h => h.any htree document⟩

theorem write_of_ok (h : (writer.write disk document).2 = .ok ()) :
    (writer.write disk document).1.2.read writer.path = .ok document.encode := by
  rcases writer.write_cases disk document with ⟨_, -, _, hwrite⟩ | ⟨after, hafter, hwrite⟩
  · rw [hwrite] at h
    cases h
  · rw [hwrite]
    exact hafter.read

/-- Whether or not a write succeeds, the artifact holds what is remembered. -/
theorem Remembers.write (h : writer.Remembers disk) (document : Text) :
    (writer.write disk document).1.1.Remembers (writer.write disk document).1.2 := by
  have hmade := changes_makeDirectories_directory disk writer.path
  rcases writer.write_cases disk document with ⟨state, hstate, _, hwrite⟩ | ⟨after, hafter, hwrite⟩
  · rw [hwrite]
    rcases List.mem_pair.mp hstate with rfl | rfl
    · exact h.of_changes hmade (Set.notMem_empty _)
    · intro other hother
      cases hother
  · rw [hwrite]
    intro other hother
    obtain rfl := Option.some.inj hother
    exact hafter.read

/-! ## Bringing the artifact up to date -/

theorem path_sync (writer : ArtifactWriter) (disk : Disk) (registry : Registry) :
    (writer.sync disk registry).1.1.path = writer.path := by
  rw [sync]
  split
  next => rfl
  next => exact writer.path_write disk _

theorem sync_attempts (writer : ArtifactWriter) (disk : Disk) (registry : Registry) :
    Attempts writer.path disk (writer.sync disk registry).1.2 := by
  rw [sync]
  split
  next => exact .none disk
  next => exact writer.write_attempts disk _

theorem Remembers.sync (h : writer.Remembers disk) (registry : Registry) :
    (writer.sync disk registry).1.1.Remembers (writer.sync disk registry).1.2 := by
  rw [ArtifactWriter.sync]
  split
  next => exact h
  next => exact h.write _

theorem sync_of_written (h : writer.written = some (renderArtifact registry.classes)) :
    writer.sync disk registry = ((writer, disk), .ok false) := by
  rw [ArtifactWriter.sync, if_pos h]

/-- After the artifact was brought up to date its document is remembered. -/
theorem written_sync_of_ok {changed : Bool} (hok : (writer.sync disk registry).2 = .ok changed) :
    (writer.sync disk registry).1.1.written = some (renderArtifact registry.classes) := by
  rw [ArtifactWriter.sync] at hok ⊢
  split
  next hwritten => exact hwritten
  next hnew =>
    rw [if_neg hnew] at hok
    rcases writer.write_cases disk (renderArtifact registry.classes) with
      ⟨_, -, _, hwrite⟩ | ⟨after, -, hwrite⟩
    · rw [hwrite] at hok
      cases hok
    · rw [hwrite]

/-- Bringing the artifact up to date leaves the disk as it is, or it writes the document. -/
theorem sync_disk_cases {changed : Bool} (hok : (writer.sync disk registry).2 = .ok changed) :
    (writer.sync disk registry).1.2 = disk ∨
      (writer.sync disk registry).1.2.read writer.path =
        .ok (renderArtifact registry.classes).encode := by
  rw [ArtifactWriter.sync] at hok ⊢
  split
  next => exact .inl rfl
  next hnew =>
    rw [if_neg hnew] at hok
    obtain ⟨done, hdone, -⟩ := map_eq_ok_iff.mp hok
    exact .inr (write_of_ok hdone)

/-- Bringing the artifact up to date fails only where the artifact cannot be written. -/
theorem sync_snd_of_canWrite (htree : disk.IsTree) (h : Session.CanWrite disk writer.path)
    (registry : Registry) : ∃ changed, (writer.sync disk registry).2 = .ok changed := by
  rw [ArtifactWriter.sync]
  split
  next => exact ⟨false, rfl⟩
  next =>
    refine ⟨true, ?_⟩
    dsimp only
    rw [(write_snd_eq_ok_iff htree).mpr h]
    rfl

theorem not_canWrite_of_sync_error (htree : disk.IsTree) {failure : Failure}
    (h : (writer.sync disk registry).2 = .error failure) : ¬Session.CanWrite disk writer.path := by
  intro hcan
  obtain ⟨changed, hok⟩ := sync_snd_of_canWrite htree hcan registry
  rw [hok] at h
  cases h

/-- After the artifact was brought up to date it holds the document of the registry, whether
that was written now or before. -/
theorem Remembers.sync_of_ok (h : writer.Remembers disk) {changed : Bool}
    (hok : (writer.sync disk registry).2 = .ok changed) :
    (writer.sync disk registry).1.2.read writer.path =
      .ok (renderArtifact registry.classes).encode := by
  rw [ArtifactWriter.sync] at hok ⊢
  split
  next hwritten => exact h _ hwritten
  next hnew =>
    rw [if_neg hnew] at hok
    obtain ⟨done, hdone, -⟩ := map_eq_ok_iff.mp hok
    exact write_of_ok hdone

end

end ArtifactWriter

/-! ## Finishing -/

/-- The `.gitignore` next to the artifact. -/
def Build.gitignore (build : Build) : Path :=
  (if build.writer.path.directory.text.isEmpty then ⟨Path.here⟩
    else build.writer.path.directory).join Gitignore.fileName

namespace Session

/-- What a run does after the visits. -/
def finish (session : Session) (seen : List (Path × FileStatus)) : Build.Result :=
  match session.syncArtifact with
  | (session, .error failure) => ⟨session, seen, .error failure⟩
  | (session, .ok ()) =>
    match session.ignoreArtifact with
    | (session, .error failure) => ⟨session, seen, .error failure⟩
    | (session, .ok ()) =>
      ⟨session, seen, .ok (summarise seen session.build.registry.size)⟩

theorem ignoreArtifact_build (session : Session) :
    session.ignoreArtifact.1.build = session.build := by
  rw [ignoreArtifact]
  split <;> rfl

theorem ignoreArtifact_changes (session : Session) :
    session.disk.Changes session.ignoreArtifact.1.disk ∅
      {session.disk.place session.build.gitignore} := by
  rw [ignoreArtifact]
  split
  next => exact Gitignore.changes_ensure _ _ _
  next => exact .refl _ _ _

theorem finish_seen (session : Session) (seen : List (Path × FileStatus)) :
    (session.finish seen).seen = seen := by
  rw [finish]
  split
  next => rfl
  next => split <;> rfl

theorem syncArtifact_build (session : Session) :
    session.syncArtifact.1.build = { session.build with
      writer := (session.build.writer.sync session.disk session.build.registry).1.1 } :=
  rfl

theorem syncArtifact_changes (session : Session) :
    session.disk.Changes session.syncArtifact.1.disk Set.univ
      {session.disk.place session.build.writer.path} :=
  (session.build.writer.sync_attempts session.disk session.build.registry).changes.mono
    (Set.subset_univ _) subset_rfl

theorem syncArtifact_gitignore (session : Session) :
    session.syncArtifact.1.build.gitignore = session.build.gitignore := by
  rw [Build.gitignore, syncArtifact_build]
  simp only [ArtifactWriter.path_sync]
  rfl

/-- A session is left after the artifact was brought up to date, or the `.gitignore` too. -/
theorem finish_session (session : Session) (seen : List (Path × FileStatus)) :
    (session.finish seen).session = session.syncArtifact.1 ∨
      (session.finish seen).session = session.syncArtifact.1.ignoreArtifact.1 := by
  rw [finish]
  split
  next after failure hsync => exact .inl (by rw [hsync])
  next after hsync =>
    rw [hsync]
    split
    next hignore => exact .inr (by rw [hignore])
    next hignore => exact .inr (by rw [hignore])

theorem finish_build (session : Session) (seen : List (Path × FileStatus)) :
    (session.finish seen).session.build = session.syncArtifact.1.build := by
  rcases session.finish_session seen with h | h
  · rw [h]
  · rw [h, ignoreArtifact_build]

/-- From the artifact on, at most the `.gitignore` changes. -/
theorem syncArtifact_finish_changes (session : Session) (seen : List (Path × FileStatus)) :
    session.syncArtifact.1.disk.Changes (session.finish seen).session.disk ∅
      {session.disk.place session.build.gitignore} := by
  rcases session.finish_session seen with h | h
  · rw [h]
    exact .refl _ _ _
  · have hchanges := ignoreArtifact_changes session.syncArtifact.1
    rwa [syncArtifact_gitignore, (syncArtifact_changes session).place_eq, ← h] at hchanges

/-- After the visits at most the artifact and the `.gitignore` change. -/
theorem finish_changes (session : Session) (seen : List (Path × FileStatus)) :
    session.disk.Changes (session.finish seen).session.disk Set.univ
      {session.disk.place session.build.writer.path,
        session.disk.place session.build.gitignore} := by
  apply (session.syncArtifact_changes.trans (session.syncArtifact_finish_changes seen)).mono
  · exact Set.subset_univ _
  · exact (Set.insert_eq _ _).symm.subset

section

variable {session : Session} {seen : List (Path × FileStatus)}

theorem path_syncArtifact (session : Session) :
    session.syncArtifact.1.build.writer.path = session.build.writer.path :=
  ArtifactWriter.path_sync _ _ _

theorem syncArtifact_remembers (h : session.build.writer.Remembers session.disk) :
    session.syncArtifact.1.build.writer.Remembers session.syncArtifact.1.disk :=
  h.sync session.build.registry

theorem finish_remembers (h : session.build.writer.Remembers session.disk)
    (hgitignore : session.disk.place session.build.writer.path ≠
      session.disk.place session.build.gitignore) :
    (session.finish seen).session.build.writer.Remembers (session.finish seen).session.disk := by
  rw [finish_build]
  apply (syncArtifact_remembers h).of_changes (session.syncArtifact_finish_changes seen)
  rw [(syncArtifact_changes session).place_eq, path_syncArtifact]
  exact hgitignore

/-- A session ends well when the artifact was brought up to date and is listed, and then the visits
are counted. -/
theorem summary_finish_eq_ok_iff {summary : Summary} :
    (session.finish seen).summary = .ok summary ↔
      session.syncArtifact.2 = .ok () ∧ session.syncArtifact.1.ignoreArtifact.2 = .ok () ∧
        summary = summarise seen session.build.registry.size := by
  have hregistry : session.syncArtifact.1.build.registry = session.build.registry := rfl
  rw [finish, ← hregistry]
  cases session.syncArtifact with
  | mk after outcome =>
    cases outcome with
    | error failure => simp
    | ok done =>
      have hbuild := after.ignoreArtifact_build
      cases hignore : after.ignoreArtifact with
      | mk final outcome =>
        rw [hignore] at hbuild
        cases outcome with
        | error failure => simp [hignore]
        | ok done =>
          dsimp only at hbuild
          simp [hignore, hbuild, eq_comm]

/-- After the artifact was brought up to date, it is listed in the `.gitignore`. -/
theorem finish_session_of_sync (h : session.syncArtifact.2 = .ok ()) :
    (session.finish seen).session = session.syncArtifact.1.ignoreArtifact.1 := by
  rw [finish]
  split
  next hsync =>
    rw [hsync] at h
    cases h
  next hsync =>
    rw [hsync]
    split
    next hignore => rw [hignore]
    next hignore => rw [hignore]

/-- A run that finishes has counted the visits, and the artifact holds the document of the
recorded classes. -/
theorem finish_of_ok (h : session.build.writer.Remembers session.disk)
    (hgitignore : session.disk.place session.build.writer.path ≠
      session.disk.place session.build.gitignore)
    {summary : Summary} (hok : (session.finish seen).summary = .ok summary) :
    summary = summarise seen session.build.registry.size ∧
      (session.finish seen).session.disk.read session.build.writer.path =
        .ok (renderArtifact session.build.registry.classes).encode := by
  obtain ⟨hsync, -, hsummary⟩ := summary_finish_eq_ok_iff.mp hok
  obtain ⟨changed, hchanged, -⟩ := map_eq_ok_iff.mp hsync
  refine ⟨hsummary, ?_⟩
  apply (session.syncArtifact_finish_changes seen).read (h.sync_of_ok hchanged)
  rw [(syncArtifact_changes session).place_eq]
  exact hgitignore

end

end Session

/-! ## Runs -/

namespace Build

open Session

variable {build : Build} {disk : Disk} {root : Path} {output : Option Path}

/-- The visits of a run. -/
def visits (build : Build) (disk : Disk) (root : Path) (output : Option Path) :
    Session × List (Path × FileStatus) :=
  visitAll ⟨{ build with registry := .empty }, disk, []⟩ root output
    (build.sources disk root)

theorem visited_visits (build : Build) (disk : Disk) (root : Path) (output : Option Path) :
    Visited root output ⟨{ build with registry := .empty }, disk, []⟩ (build.sources disk root)
      (build.visits disk root output).1 (build.visits disk root output).2 :=
  visited_visitAll _ _ _ _

theorem run_eq_finish (build : Build) (disk : Disk) (root : Path) (output : Option Path) :
    build.run disk root output =
      (build.visits disk root output).1.finish (build.visits disk root output).2 := by
  rw [run, ← visits]
  cases build.visits disk root output with
  | mk session seen => rfl

theorem exists_visits_build (build : Build) (disk : Disk) (root : Path) (output : Option Path) :
    ∃ registry, (build.visits disk root output).1.build = { build with registry } :=
  exists_visitAll_build _ _ _ _

theorem visits_changes (build : Build) (disk : Disk) (root : Path) (output : Option Path) :
    disk.Changes (build.visits disk root output).1.disk Set.univ
      (outputPlaces disk output (build.sources disk root)) :=
  visitAll_changes ⟨{ build with registry := .empty }, disk, []⟩ root output _

theorem visits_isTree (build : Build) (htree : disk.IsTree) (root : Path)
    (output : Option Path) : (build.visits disk root output).1.disk.IsTree :=
  visitAll_isTree ⟨{ build with registry := .empty }, disk, []⟩ htree root output _

theorem visits_changes_written (build : Build) (htree : disk.IsTree) (root : Path)
    (output : Option Path) :
    disk.Changes (build.visits disk root output).1.disk
      (outputDirectories disk output (build.sources disk root))
      (writtenPlaces disk output (build.sources disk root)) :=
  ((build.visited_visits disk root output).leaves htree fun _ hfile =>
    (isFileBelow_of_mem_sources htree hfile).plain).changes

theorem ready_of_place_ne (htree : disk.IsTree)
    (hapart : ∀ directory ∈ output, ∀ file ∈ build.sources disk root,
      ∀ other ∈ build.sources disk root,
        disk.place (directory.join file) ≠ disk.place (root.join other)) :
    Ready disk root output (build.sources disk root) where
  tree := htree
  apart := hapart
  below _ hfile := isFileBelow_of_mem_sources htree hfile
  distinct := by
    apply (build.ascending_sources htree root).imp
    intro file other hlt heq
    rw [heq] at hlt
    exact StrictTotal.irrefl _ hlt

theorem ready_sources (htree : disk.IsTree)
    (hapart : ∀ directory ∈ output, disk.Apart root directory) :
    Ready disk root output (build.sources disk root) := by
  apply ready_of_place_ne htree
  intro directory hdirectory file hfile other hother
  exact (hapart directory hdirectory).place_ne (isFileBelow_of_mem_sources htree hfile).plain
    (isFileBelow_of_mem_sources htree hother).plain

section Ready

variable {file : Path}

theorem visits_snd (hready : Ready disk root output (build.sources disk root)) :
    (build.visits disk root output).2 = (build.sources disk root).map fun file =>
      (file, (visit ⟨{ build with registry := .empty }, disk, []⟩ root file output).2) :=
  hready.visitAll_snd

theorem visits_read (hready : Ready disk root output (build.sources disk root))
    (hfile : file ∈ build.sources disk root) {bytes : ByteArray}
    (hread : disk.read (root.join file) = .ok bytes) {directory : Path}
    (hdirectory : directory ∈ output) (hwrite : CanWrite disk (directory.join file)) :
    (build.visits disk root output).1.disk.read (directory.join file) =
      .ok (outputBytes build.options file bytes) := by
  obtain rfl := hdirectory
  exact hready.visitAll_read_outputBytes hfile hread hwrite

end Ready

theorem run_seen (build : Build) (disk : Disk) (root : Path) (output : Option Path) :
    (build.run disk root output).seen = (build.visits disk root output).2 := by
  rw [run_eq_finish, finish_seen]

theorem run_registry (build : Build) (disk : Disk) (root : Path) (output : Option Path) :
    (build.run disk root output).session.build.registry =
      (build.visits disk root output).1.build.registry := by
  rw [run_eq_finish, finish_build]
  rfl

/-- A run records what the sources contribute. -/
theorem find?_run (hready : Ready disk root output (build.sources disk root)) (key : List Text)
    (classes : ClassSet) :
    (build.run disk root output).session.build.registry.files.find? key = some classes ↔
      ∃ file ∈ build.sources disk root, file.components = key ∧
        Contributes build.options disk root output file classes := by
  have hnone : Registry.empty.files.find? key = none := SortedMap.find?_empty key
  rw [run_registry, visits, hready.find?_visitAll fun _ _ => rfl]
  simp [hnone]

theorem isUnion_run (hready : Ready disk root output (build.sources disk root)) :
    (build.run disk root output).session.build.registry.IsUnion := by
  rw [run_registry]
  exact hready.isUnion_visitAll Registry.isUnion_empty

theorem exists_run_build (build : Build) (disk : Disk) (root : Path) (output : Option Path) :
    ∃ registry writer, writer.path = build.writer.path ∧
      (build.run disk root output).session.build = { build with registry, writer } := by
  obtain ⟨registry, hbuild⟩ := build.exists_visits_build disk root output
  rw [run_eq_finish, finish_build, syncArtifact_build, hbuild]
  exact ⟨_, _, ArtifactWriter.path_sync _ _ _, rfl⟩

/-- After the visits a run changes the artifact and the `.gitignore` only. -/
theorem visits_run_changes (build : Build) (disk : Disk) (root : Path) (output : Option Path) :
    (build.visits disk root output).1.disk.Changes (build.run disk root output).session.disk
      Set.univ {disk.place build.writer.path, disk.place build.gitignore} := by
  have hchanges := build.visits_changes disk root output
  obtain ⟨registry, hbuild⟩ := build.exists_visits_build disk root output
  have hfinish := finish_changes (build.visits disk root output).1 (build.visits disk root output).2
  rwa [← run_eq_finish, hbuild, hchanges.place_eq, hchanges.place_eq] at hfinish

end Build

end VariantClasses
