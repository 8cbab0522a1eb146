import Mathlib.Data.List.Infix
import VariantClasses.Proofs.Build.Feeding
import VariantClasses.Proofs.Build.Ignoring

/-! # Files one by one and a run

Processing the sources of a build one by one, in any order and any number of times each, records
what a run records and writes the artifact that a run writes (`processAll_agrees_with_run`). Only
a run lists the artifact in the `.gitignore` next to it, which tells when the artifact is the
`.gitignore` itself (`processAll_differs_from_run`).
-/

namespace VariantClasses

open Disk

namespace Session

variable {session : Session}

/-- Where the artifact can be written, bringing it up to date ends well. -/
theorem syncArtifact_of_canWrite (htree : session.disk.IsTree)
    (h : CanWrite session.disk session.build.writer.path) : session.syncArtifact.2 = .ok () := by
  obtain ⟨changed, hok⟩ :=
    ArtifactWriter.sync_snd_of_canWrite htree h session.build.registry
  exact map_eq_ok_iff.mpr ⟨changed, hok, rfl⟩

end Session

namespace Build

open Session

variable {build : Build} {disk : Disk} {root file : Path} {files : List Path}

/-! ## Files one by one -/

/-- The build and the disk after files were processed one by one, whatever came of each. -/
def processAll (build : Build) (disk : Disk) (root : Path) (files : List Path) : Build × Disk :=
  files.foldl (fun state file =>
    let session := (state.1.processFile state.2 root file none).1
    (session.build, session.disk)) (build, disk)

theorem processAll_concat (build : Build) (disk : Disk) (root : Path) (files : List Path)
    (file : Path) :
    build.processAll disk root (files ++ [file]) =
      let state := build.processAll disk root files
      let session := (state.1.processFile state.2 root file none).1
      (session.build, session.disk) := by
  rw [processAll, List.foldl_append]
  rfl

/-- What a file contributes when nothing is written for it. -/
theorem contributes_none_iff {options : Options} {classes : ClassSet} :
    Contributes options disk root none file classes ↔
      ∃ text, readSource disk (root.join file) = .ok text ∧
        classes = (transformFile options file text).variants := by
  simp [Contributes, CanTransform]

/-- A call records what the file contributes, unless the file contributed something else before. -/
theorem find?_processFile
    (hsame : ∀ recorded ∈ build.registry.files.find? file.components,
      Contributes build.options disk root none file recorded) (key : List Text)
    (classes : ClassSet) :
    (build.processFile disk root file none).1.build.registry.files.find? key = some classes ↔
      (file.components = key ∧ Contributes build.options disk root none file classes) ∨
        build.registry.files.find? key = some classes := by
  cases hread : readSource disk (root.join file) with
  | error failure =>
    have hnone : ¬Contributes build.options disk root none file classes := by
      rw [contributes_none_iff, hread]
      rintro ⟨text, htext, -⟩
      cases htext
    rw [processFile_of_error hread]
    simp [hnone]
  | ok text =>
    have hcontributes : Contributes build.options disk root none file
        (transformFile build.options file text).variants :=
      contributes_none_iff.mpr ⟨text, hread, rfl⟩
    rw [registry_processFile hread, find?_record fun recorded hrecorded =>
      (hsame recorded hrecorded).eq hcontributes]
    by_cases hkey : key = file.components
    · subst hkey
      rw [if_pos rfl, Option.some.injEq]
      constructor
      · rintro rfl
        exact .inl ⟨rfl, hcontributes⟩
      · rintro (⟨-, h⟩ | h)
        · exact hcontributes.eq h
        · exact hcontributes.eq (hsame classes h)
    · simp [hkey, Ne.symm hkey]

theorem isUnion_processFile (h : build.registry.IsUnion) (disk : Disk) (root file : Path) :
    (build.processFile disk root file none).1.build.registry.IsUnion := by
  cases hread : readSource disk (root.join file) with
  | error failure =>
    rw [processFile_of_error hread]
    exact h
  | ok text =>
    rw [registry_processFile hread]
    exact h.record file _

/-- What files contributed to a new build is what is recorded, and the artifact is current and can
be written. -/
structure Gathers (build : Build) (disk : Disk) (root : Path) (files : List Path)
    (state : Build × Disk) : Prop where
  options : state.1.options = build.options
  path : state.1.writer.path = build.writer.path
  tracks : state.1.Tracks state.2 true
  canWrite : CanWrite state.2 build.writer.path
  union : state.1.registry.IsUnion
  files (key : List Text) (classes : ClassSet) :
    state.1.registry.files.find? key = some classes ↔
      ∃ file ∈ files, file.components = key ∧
        Contributes build.options disk root none file classes

/-- Where the artifact can be written, it is current after a call, and it still can be
written. -/
theorem Tracks.processFile_of_canWrite (h : build.Tracks disk true)
    (hcan : CanWrite disk build.writer.path) (root file : Path) :
    (build.processFile disk root file none).1.build.Tracks
        (build.processFile disk root file none).1.disk true ∧
      CanWrite (build.processFile disk root file none).1.disk build.writer.path := by
  have htracks := h.processFile root file
  rw [currentAfter] at htracks
  rcases build.processFile_cases disk root file with
    ⟨hsize, -, -, hdisk⟩ | ⟨session, status, hwriter, hdisk, hsize, hcall⟩
  · rw [if_pos hsize] at htracks
    refine ⟨htracks, ?_⟩
    rwa [hdisk]
  · subst hdisk
    rw [← hwriter] at hcan
    have hremembers : session.build.writer.Remembers session.disk := hwriter ▸ h.remembers
    have hok : session.syncArtifact.2 = .ok () := syncArtifact_of_canWrite h.tree hcan
    obtain ⟨changed, hchanged, -⟩ := map_eq_ok_iff.mp hok
    have hread : session.syncArtifact.1.disk.read session.build.writer.path = .ok _ :=
      hremembers.sync_of_ok hchanged
    have hsync := tracks_syncArtifact session h.tree hremembers
    rw [hok] at hsync
    rw [hcall, ← hwriter]
    exact ⟨hsync, canWrite_of_read hsync.tree hread⟩

theorem gathers_new {options : Options} (h : Build.new options = .ok build) (htree : disk.IsTree)
    (hcan : CanWrite disk build.writer.path) : Gathers build disk root [] (build, disk) := by
  have hregistry : build.registry = .empty := by
    rw [Build.new] at h
    split at h
    next => cases h
    next =>
      cases h
      rfl
  refine ⟨rfl, rfl, tracks_new h htree, hcan, ?_, ?_⟩
  · rw [hregistry]
    exact Registry.isUnion_empty
  · intro key classes
    simp [hregistry, Registry.empty]

/-- One more file is gathered when it is read as it was at the start. -/
theorem Gathers.processFile {state : Build × Disk} (h : Gathers build disk root files state)
    (hplain : ∀ other ∈ file :: files, other.IsPlain)
    (hkept : state.2.read (root.join file) = disk.read (root.join file)) :
    Gathers build disk root (files ++ [file])
      ((state.1.processFile state.2 root file none).1.build,
        (state.1.processFile state.2 root file none).1.disk) := by
  obtain ⟨hoptions, hpath, htracks, hcan, hunion, hfiles⟩ := h
  have hpathAfter := path_processFile state.1 state.2 root file
  obtain ⟨registry, writer, -, hbuild⟩ := exists_processFile_build state.1 state.2 root file
  rw [← hpath] at hcan
  obtain ⟨htracksAfter, hcanAfter⟩ := htracks.processFile_of_canWrite hcan root file
  rw [hpath] at hcanAfter hpathAfter
  refine ⟨?_, hpathAfter, htracksAfter, hcanAfter, ?_, ?_⟩
  · rw [hbuild]
    exact hoptions
  · exact isUnion_processFile hunion state.2 root file
  · intro key classes
    have hcontributes (others : ClassSet) :
        Contributes state.1.options state.2 root none file others ↔
          Contributes build.options disk root none file others := by
      rw [hoptions, contributes_none_iff, contributes_none_iff, readSource, readSource, hkept]
    have hsame : ∀ recorded ∈ state.1.registry.files.find? file.components,
        Contributes state.1.options state.2 root none file recorded := by
      intro recorded hrecorded
      obtain ⟨other, hother, hcomponents, h⟩ := (hfiles _ _).mp hrecorded
      obtain rfl := (hplain other (List.mem_cons_of_mem file hother)).eq_of_components_eq
        (hplain file List.mem_cons_self) hcomponents
      exact (hcontributes recorded).mpr h
    rw [find?_processFile hsame, hcontributes, hfiles]
    simp only [List.mem_append, List.mem_singleton, or_and_right, exists_or, exists_eq_left]
    exact or_comm

/-- Files that are processed one by one are gathered, in any order and any number of times. -/
theorem gathers_processAll {options : Options} (hnew : Build.new options = .ok build)
    (htree : disk.IsTree) (hcan : CanWrite disk build.writer.path)
    (hplain : ∀ file ∈ files, file.IsPlain)
    (hkept : ∀ earlier file, earlier ++ [file] <+: files →
      (build.processAll disk root earlier).2.read (root.join file) = disk.read (root.join file)) :
    Gathers build disk root files (build.processAll disk root files) := by
  induction files using List.reverseRecOn with
  | nil => exact gathers_new hnew htree hcan
  | append_singleton files file ih =>
    rw [processAll_concat]
    refine (ih ?_ ?_).processFile ?_ (hkept files file (List.prefix_refl _))
    · intro other hother
      exact hplain other (List.mem_append_left _ hother)
    · intro earlier other hother
      exact hkept earlier other (hother.trans (List.prefix_append _ _))
    · intro other hother
      exact hplain other (by simpa [or_comm] using hother)

/-! ## A run -/

/-- After a new build was run, the artifact holds the document of what is recorded, unless that
lists the artifact in the artifact. -/
theorem run_read_iff {options : Options} (hnew : Build.new options = .ok build)
    (htree : disk.IsTree) (hcan : CanWrite disk build.writer.path) (root : Path) :
    let document := renderArtifact (build.run disk root none).session.build.registry.classes
    (build.run disk root none).session.disk.read build.writer.path = .ok document.encode ↔
      ¬(build.options.gitignore = true ∧
        build.writer.path.fileName? = some Gitignore.fileName.text ∧
        Gitignore.lists Gitignore.fileName.text document = false) := by
  obtain ⟨registry, hbuild⟩ := build.exists_visits_build disk root none
  have hregistry := build.run_registry disk root none
  have hfinish := build.run_eq_finish disk root none
  have hdisk : (build.visits disk root none).1.disk = disk := visitAll_disk_of_none _ _ _
  generalize build.visits disk root none = visits at hbuild hregistry hfinish hdisk
  obtain ⟨session, seen⟩ := visits
  have hpath : session.build.writer.path = build.writer.path := by rw [hbuild]
  have hremembers : session.build.writer.Remembers session.disk := by
    rw [hbuild, hdisk]
    exact (tracks_new hnew htree).remembers
  have hok : session.syncArtifact.2 = .ok () := by
    apply syncArtifact_of_canWrite
    · rwa [hdisk]
    · rwa [hdisk, hpath]
  obtain ⟨changed, hchanged, -⟩ := map_eq_ok_iff.mp hok
  have hsync : session.syncArtifact.1.build.writer.path = build.writer.path :=
    session.path_syncArtifact.trans hpath
  have hread : session.syncArtifact.1.disk.read session.syncArtifact.1.build.writer.path =
      .ok (renderArtifact session.build.registry.classes).encode := by
    rw [path_syncArtifact]
    exact hremembers.sync_of_ok hchanged
  have hname : NamesFile session.syncArtifact.1.build.writer.path := hsync ▸ hcan.namesFile
  have hoptions : session.syncArtifact.1.build.options = build.options := by
    rw [syncArtifact_build, hbuild]
  have hiff := ignoreArtifact_read_iff hname hread
  rw [hsync, hoptions] at hiff
  dsimp only
  rwa [hregistry, hfinish, finish_session_of_sync hok]

/-- Files that are processed one by one, and a run, record the same; and if that is anything, the
artifact holds the document of what is recorded after the files, and the same after the run,
unless the run lists the artifact in the artifact. -/
theorem processAll_agrees_with_run {options : Options} (hnew : Build.new options = .ok build)
    (htree : disk.IsTree) (hcan : CanWrite disk build.writer.path)
    (hfiles : ∀ file, file ∈ files ↔ file ∈ build.sources disk root)
    (hkept : ∀ earlier file, earlier ++ [file] <+: files →
      (build.processAll disk root earlier).2.read (root.join file) = disk.read (root.join file)) :
    let processed := build.processAll disk root files
    let result := build.run disk root none
    let document := renderArtifact result.session.build.registry.classes
    processed.1.registry = result.session.build.registry ∧
      (result.session.build.registry.classes ≠ ∅ →
        processed.2.read build.writer.path = .ok document.encode ∧
        (result.session.disk.read build.writer.path = processed.2.read build.writer.path ↔
          ¬(build.options.gitignore = true ∧
            build.writer.path.fileName? = some Gitignore.fileName.text ∧
            Gitignore.lists Gitignore.fileName.text document = false))) := by
  intro processed result document
  have hplain : ∀ file ∈ files, file.IsPlain := by
    intro file hfile
    exact (isFileBelow_of_mem_sources htree ((hfiles file).mp hfile)).plain
  have hgathers : Gathers build disk root files processed :=
    gathers_processAll hnew htree hcan hplain hkept
  have hready : Ready disk root none (build.sources disk root) :=
    build.ready_sources htree (by simp)
  have hregistry : processed.1.registry = result.session.build.registry := by
    apply hgathers.union.eq_of_find?_iff (isUnion_run hready)
    intro key classes
    rw [hgathers.files, find?_run hready]
    simp only [hfiles]
  refine ⟨hregistry, ?_⟩
  intro hclasses
  have hread : processed.2.read build.writer.path = .ok document.encode := by
    rw [← hregistry] at hclasses
    rw [← hgathers.path]
    dsimp only [document]
    rw [← hregistry]
    exact (hgathers.tracks.read_iff hclasses).mpr rfl
  refine ⟨hread, ?_⟩
  rw [hread]
  exact run_read_iff hnew htree hcan root

-- Comparing results must not evaluate the calls and the run.
seal processAll run in
/-- The files are processed in another order than by the run, one of them twice, and the one that is
no text fails. -/
theorem processAll_agrees_with_run_of_repeated_file :
    let options : Options := { ignore := [] }
    let build : Build :=
      ⟨options, ⟨options.extensions.map listedExtension, []⟩, .empty, .new options.artifact⟩
    let work : Location := ["w".toList]
    let disk : Disk := (Disk.mk ∅ work).put work .directory
      |>.put (work ++ ["a.html".toList]) (.file (Text.encode "<p class:hover=\"x\">".toList))
      |>.put (work ++ ["b.html".toList]) (.file ⟨#[0xff]⟩)
    let root : Path := .ofString "."
    let files : List Path := [.ofString "b.html", .ofString "a.html", .ofString "a.html"]
    let processed := build.processAll disk root files
    let result := build.run disk root none
    let document := renderArtifact (ClassSet.ofList ["hover:x".toList])
    processed.1.registry = result.session.build.registry ∧
      processed.2.read build.writer.path = .ok document.encode ∧
      result.session.disk.read build.writer.path = .ok document.encode := by
  intro options build work disk root files processed result document
  have hnew : Build.new options = .ok build := rfl
  have htree : disk.IsTree := by decide +kernel
  have hcan : CanWrite disk build.writer.path := ⟨[], by decide +kernel⟩
  have hsources : ∀ file ∈ files, file ∈ build.sources disk root := by decide +kernel
  have hall : ∀ file ∈ build.sources disk root, file ∈ files := by decide +kernel
  have hkept : ∀ front ∈ files.inits, ∀ file ∈ front.getLast?,
      (build.processAll disk root front.dropLast).2.read (root.join file) =
        disk.read (root.join file) := by
    decide +kernel
  have hclasses : result.session.build.registry.classes = ClassSet.ofList ["hover:x".toList] := by
    decide +kernel
  obtain ⟨hregistry, hartifact⟩ := processAll_agrees_with_run hnew htree hcan
    (fun file => ⟨hsources file, hall file⟩) fun earlier file h => by
      simpa using hkept _ ((List.mem_inits _ _).mpr h)
  obtain ⟨hprocessed, hsame⟩ := hartifact (by rw [hclasses]; decide +kernel)
  rw [hclasses] at hprocessed
  refine ⟨hregistry, hprocessed, ?_⟩
  rw [← hprocessed]
  exact hsame.mpr (by decide +kernel)

seal processAll run in
/-- An artifact of the name `.gitignore` is listed in itself by a run only. -/
theorem processAll_differs_from_run :
    let options : Options := { ignore := [], artifact := Gitignore.fileName }
    let build : Build :=
      ⟨options, ⟨options.extensions.map listedExtension, []⟩, .empty, .new options.artifact⟩
    let work : Location := ["w".toList]
    let disk : Disk := (Disk.mk ∅ work).put work .directory
      |>.put (work ++ ["a.html".toList]) (.file (Text.encode "<p class:hover=\"x\">".toList))
    let root : Path := .ofString "."
    let files := build.sources disk root
    let processed := build.processAll disk root files
    let result := build.run disk root none
    let document := renderArtifact (ClassSet.ofList ["hover:x".toList])
    Build.new options = .ok build ∧ disk.IsTree ∧ CanWrite disk build.writer.path ∧
      files = [.ofString "a.html"] ∧
      result.session.build.registry.classes = ClassSet.ofList ["hover:x".toList] ∧
      processed.2.read options.artifact = .ok document.encode ∧
      result.session.disk.read options.artifact =
        .ok (Gitignore.add Gitignore.fileName.text document).encode ∧
      result.session.disk.read options.artifact ≠ processed.2.read options.artifact := by
  intro options build work disk root files processed result document
  have hprocessed : processed.2.read options.artifact = .ok document.encode := by decide +kernel
  have hresult : result.session.disk.read options.artifact =
      .ok (Gitignore.add Gitignore.fileName.text document).encode := by decide +kernel
  refine ⟨rfl, by decide +kernel, ⟨[], by decide +kernel⟩, by decide +kernel, by decide +kernel,
    hprocessed, hresult, ?_⟩
  rw [hprocessed, hresult, Ne, Except.ok.injEq, Text.encode_inj]
  exact Gitignore.add_ne_self _ _

end Build

end VariantClasses
