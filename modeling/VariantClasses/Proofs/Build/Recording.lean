import VariantClasses.Proofs.Build.Finish

/-! # What a run records

Whatever runs and single files came before, a run on a tree records the sources that can be
transformed, each with its variants, and nothing else; when it ends well, the artifact holds
what is recorded (`Recorded`). Before and after it the writer remembers what the artifact
holds (`Reached.remembers`), which is what lets a run skip writing it.
-/

namespace VariantClasses.Build

open Disk Session

variable {build : Build} {disk : Disk} {root file : Path} {output : Option Path}

/-! ## The course of a build -/

/-- The artifact lies neither at an output of a run nor at the `.gitignore`. -/
structure ArtifactApart (build : Build) (disk : Disk) (root : Path) (output : Option Path) :
    Prop where
  outputs : disk.place build.writer.path ∉
    outputPlaces disk output (build.sources disk root)
  gitignore : disk.place build.writer.path ≠ disk.place build.gitignore

instance (build : Build) (disk : Disk) (root : Path) (output : Option Path) :
    Decidable (build.ArtifactApart disk root output) :=
  decidable_of_iff (_ ∧ _) ⟨fun h => ⟨h.1, h.2⟩, fun h => ⟨h.1, h.2⟩⟩

/-- What runs and single files make of a new build and of a disk on which others change
anything but the artifact. -/
inductive Reached : Build → Disk → Prop
  | new {options : Options} {build : Build} (disk : Disk) (h : Build.new options = .ok build) :
    Reached build disk
  | others {build : Build} {before after : Disk} (h : Reached build before)
    (kept : ∀ bytes, before.read build.writer.path = .ok bytes →
      after.read build.writer.path = .ok bytes) : Reached build after
  | run {build : Build} {disk : Disk} (h : Reached build disk) (root : Path)
    (output : Option Path) (apart : build.ArtifactApart disk root output) :
    Reached (build.run disk root output).session.build (build.run disk root output).session.disk
  | processFile {build : Build} {disk : Disk} (h : Reached build disk) (root file : Path)
    (output : Option Path)
    (apart : disk.place build.writer.path ∉ outputPlaces disk output [file]) :
    Reached (build.processFile disk root file output).1.build
      (build.processFile disk root file output).1.disk

/-- The visits of a run leave what the writer remembers. -/
theorem ArtifactApart.visits (h : build.ArtifactApart disk root output)
    (hremembers : build.writer.Remembers disk) :
    (build.visits disk root output).1.build.writer.Remembers
        (build.visits disk root output).1.disk ∧
      (build.visits disk root output).1.disk.place
          (build.visits disk root output).1.build.writer.path ≠
        (build.visits disk root output).1.disk.place
          (build.visits disk root output).1.build.gitignore := by
  have hchanges := build.visits_changes disk root output
  obtain ⟨registry, hbuild⟩ := build.exists_visits_build disk root output
  rw [hbuild, hchanges.place_eq, hchanges.place_eq]
  exact ⟨hremembers.of_changes hchanges h.outputs, h.gitignore⟩

theorem processFile_remembers (hremembers : build.writer.Remembers disk)
    (h : disk.place build.writer.path ∉ outputPlaces disk output [file]) :
    (build.processFile disk root file output).1.build.writer.Remembers
      (build.processFile disk root file output).1.disk := by
  have hchanges := transformOne_changes ⟨build, disk, []⟩ root file output
  obtain ⟨registry, hbuild⟩ := exists_transformOne_build ⟨build, disk, []⟩ root file output
  have htransform : (transformOne ⟨build, disk, []⟩ root file output).1.build.writer.Remembers
      (transformOne ⟨build, disk, []⟩ root file output).1.disk := by
    rw [hbuild]
    exact hremembers.of_changes hchanges h
  rw [processFile]
  split
  next after failure hafter =>
    rw [hafter] at htransform
    exact htransform
  next after status hafter =>
    rw [hafter] at htransform
    have hsync := syncArtifact_remembers htransform
    split
    next => exact htransform
    next =>
      split
      next final failure hfinal =>
        rw [hfinal] at hsync
        exact hsync
      next final hfinal =>
        rw [hfinal] at hsync
        exact hsync

/-- The artifact holds what the writer remembers, whatever came before. -/
theorem Reached.remembers (h : build.Reached disk) : build.writer.Remembers disk := by
  induction h with
  | new disk h =>
    intro document hdocument
    rw [Build.new] at h
    split at h
    next => cases h
    next =>
      cases h
      cases hdocument
  | others h kept ih => exact fun document hdocument => kept _ (ih document hdocument)
  | run h root output apart ih =>
    obtain ⟨hvisits, hgitignore⟩ := apart.visits ih
    rw [run_eq_finish]
    exact finish_remembers hvisits hgitignore
  | processFile h root file output apart ih => exact processFile_remembers ih apart

/-! ## What is recorded -/

theorem files_summarise (seen : List (Path × FileStatus)) (classes : Nat) :
    (summarise seen classes).files = seen.length := by
  induction seen with
  | nil => rfl
  | cons visit seen ih =>
    obtain ⟨file, status⟩ := visit
    rw [List.length_cons, ← ih]
    cases status <;> simp [summarise, Summary.files] <;> omega

/-- A result is the record of visiting the sources of a build. -/
structure Recorded (build : Build) (disk : Disk) (root : Path) (output : Option Path)
    (result : Build.Result) : Prop where
  /-- The recorded files are the sources that can be read as a text and whose output can be
  written, and each of them contributed its variants. -/
  files (key : List Text) (classes : ClassSet) :
    result.session.build.registry.files.find? key = some classes ↔
      ∃ file ∈ build.sources disk root, file.components = key ∧
        ∃ text, readSource disk (root.join file) = .ok text ∧
          (∀ directory ∈ output, CanWrite disk (directory.join file)) ∧
          classes = (transformFile build.options file text).variants
  /-- The recorded classes are those that files contributed. -/
  classes (class_ : Text) : class_ ∈ result.session.build.registry.classes ↔
    ∃ key classes, result.session.build.registry.files.find? key = some classes ∧
      class_ ∈ classes
  /-- Every source was visited once, in the order of their paths. -/
  visited : result.seen.map Prod.fst = build.sources disk root ∧
    Ascending Path.components (build.sources disk root)
  /-- A run that ended well has counted the visits. -/
  counted (summary : Summary) (h : result.summary = .ok summary) :
    summary.transformed = result.seen.countP (·.2 == .transformed) ∧
      summary.unchanged = result.seen.countP (·.2 == .unchanged) ∧
      summary.failed = result.seen.countP (·.2 == .failed) ∧
      summary.files = (build.sources disk root).length ∧
      summary.classes = result.session.build.registry.classes.size
  /-- When a run ended well, the artifact holds the document of the recorded classes. -/
  artifact (summary : Summary) (h : result.summary = .ok summary) :
    result.session.disk.read build.writer.path =
      .ok (renderArtifact result.session.build.registry.classes).encode

/-- Whatever came before, a run on a tree records its sources and nothing else. -/
theorem run_recorded (hreached : build.Reached disk) (htree : disk.IsTree)
    (hapart : ∀ directory ∈ output, disk.Apart root directory)
    (hartifact : build.ArtifactApart disk root output) :
    build.Recorded disk root output (build.run disk root output) := by
  have hready := build.ready_sources htree hapart
  have hseen : (build.run disk root output).seen.map Prod.fst = build.sources disk root := by
    rw [run_seen, visits, visitAll_map_fst]
  obtain ⟨hremembers, hgitignore⟩ := hartifact.visits hreached.remembers
  have hfinish (summary : Summary) (h : (build.run disk root output).summary = .ok summary) :=
    finish_of_ok hremembers hgitignore (build.run_eq_finish disk root output ▸ h)
  refine ⟨?_, ?_, ⟨hseen, build.ascending_sources htree root⟩, ?_, ?_⟩
  · intro key classes
    have hnone : Registry.empty.files.find? key = none := SortedMap.find?_empty key
    rw [run_registry, visits, hready.find?_visitAll fun _ _ => rfl]
    simp [Contributes, CanTransform, and_assoc, hnone]
  · rw [run_registry]
    exact hready.isUnion_visitAll Registry.isUnion_empty
  · intro summary h
    obtain rfl := (hfinish summary h).1
    rw [files_summarise, ← hseen, List.length_map, run_registry, run_seen]
    exact ⟨rfl, rfl, rfl, rfl, rfl⟩
  · intro summary h
    obtain ⟨registry, hbuild⟩ := build.exists_visits_build disk root output
    have hpath : (build.visits disk root output).1.build.writer.path = build.writer.path := by
      rw [hbuild]
    rw [run_registry, run_eq_finish, ← hpath]
    exact (hfinish summary h).2

-- Comparing results of runs must not evaluate the runs.
seal run in
/-- A second run records the one source that is a text again, and the artifact holds its
variant although only the first run wrote it. -/
theorem run_recorded_of_second_run :
    let options : Options := { ignore := [] }
    let build : Build :=
      ⟨options, ⟨options.extensions.map listedExtension, []⟩, .empty, .new options.artifact⟩
    let work : Location := ["w".toList]
    let sources : Location := work ++ ["src".toList]
    let page : Text := "<p class:hover=\"b\">".toList
    let disk : Disk := (((Disk.mk ∅ work).put work .directory).put sources .directory).put
      (sources ++ ["a.html".toList]) (.file page.encode) |>.put
      (sources ++ ["b.html".toList]) (.file ⟨#[0xff]⟩)
    let root : Path := .ofString "src"
    let output : Option Path := some (.ofString "out")
    let first := build.run disk root output
    let second := first.session.build.run first.session.disk root output
    let variants := ClassSet.ofList ["hover:b".toList]
    first.session.disk.IsTree ∧
      second.session.build.registry.files.find? ["a.html".toList] = some variants ∧
      second.summary = .ok ⟨1, 0, 1, 1⟩ ∧
      second.session.disk.read first.session.build.writer.path =
        .ok (renderArtifact variants).encode := by
  intro options build work sources page disk root output first second variants
  have hnew : build.Reached disk := .new disk (rfl : Build.new options = .ok build)
  have hfirst : build.ArtifactApart disk root output := by decide +kernel
  have htree : first.session.disk.IsTree := by decide +kernel
  have hsecond : first.session.build.ArtifactApart first.session.disk root output := by
    decide +kernel
  have hapart : ∀ directory ∈ output, first.session.disk.Apart root directory := by decide +kernel
  have hrecorded : first.session.build.Recorded first.session.disk root output second :=
    run_recorded (hnew.run root output hfirst) htree hapart hsecond
  have hsummary : second.summary = .ok ⟨1, 0, 1, 1⟩ := by decide +kernel
  refine ⟨htree, ?_, hsummary, ?_⟩
  · refine (hrecorded.files _ _).mpr ⟨.ofString "a.html", by decide +kernel, by decide +kernel,
      page, by decide +kernel, ?_, by decide +kernel⟩
    intro directory hdirectory
    obtain rfl := Option.some.inj hdirectory
    exact ⟨[], by decide +kernel⟩
  · have hclasses : second.session.build.registry.classes = variants := by decide +kernel
    rw [← hclasses]
    exact hrecorded.artifact _ hsummary

end VariantClasses.Build
