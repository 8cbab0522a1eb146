import VariantClasses.Proofs.Build.Ignoring
import VariantClasses.Proofs.Build.Mirroring

/-! # Running again

A run reads its sources and writes outputs, the artifact and the `.gitignore` next to it. Where
none of these files is a source afterwards, a second run finds the sources of the first, comes to
the same summary and registry, and changes no file (`run_again`). Nothing keeps outputs below the
root from being sources of the second run (`run_again_finds_outputs`).
-/

namespace VariantClasses

open Disk

namespace Session

/-- Where a session ended well, another with the same records and the same files ends in the same
way and leaves all as it is. -/
theorem finish_again {session other : Session} {seen : List (Path × FileStatus)}
    {summary : Summary} (hok : (session.finish seen).summary = .ok summary)
    (hlistable : session.build.IsListable)
    (hoptions : other.build.options = session.build.options)
    (hregistry : other.build.registry = session.build.registry)
    (hwriter : other.build.writer = (session.finish seen).session.build.writer)
    {made : Set Location} (hdisk : (session.finish seen).session.disk.Changes other.disk made ∅) :
    other.finish seen = ⟨other, seen, .ok summary⟩ := by
  obtain ⟨hsync, hignore, hsummary⟩ := summary_finish_eq_ok_iff.mp hok
  obtain ⟨changed, hchanged, -⟩ := map_eq_ok_iff.mp hsync
  rw [finish_build] at hwriter
  rw [finish_session_of_sync hsync] at hdisk
  have hwritten : other.build.writer.written =
      some (renderArtifact other.build.registry.classes) := by
    rw [hwriter, hregistry]
    exact ArtifactWriter.written_sync_of_ok hchanged
  have hothersync : other.syncArtifact = (other, .ok ()) := by
    rw [syncArtifact, ArtifactWriter.sync_of_written hwritten]
    rfl
  have hlistable : session.syncArtifact.1.build.IsListable := by
    rw [Build.IsListable, path_syncArtifact]
    exact hlistable
  have hotherignore : other.ignoreArtifact = (other, .ok ()) := by
    apply ignoreArtifact_again hlistable hignore hoptions
    · rw [hwriter]
    · exact fun bytes hread => hdisk.read hread (Set.notMem_empty _)
  rw [finish, hothersync]
  dsimp only
  rw [hotherignore]
  dsimp only
  rw [hsummary, hregistry]

end Session

namespace Build

open Session

variable {build : Build} {disk : Disk} {root file : Path} {output : Option Path}

/-! ## Runs that can be repeated -/

/-- Where a file below a root is a source. -/
def sourcePlaces (build : Build) (disk : Disk) (root : Path) : Set Location :=
  {location | ∃ names, location = disk.place root ++ names ∧
    build.filter.accepts (.ofNames names) = true}

instance (build : Build) (disk : Disk) (root : Path) (location : Location) :
    Decidable (location ∈ build.sourcePlaces disk root) :=
  decidable_of_iff (∃ names ∈ (disk.place root).isPrefixOf? location,
    build.filter.accepts (.ofNames names) = true) (by
      apply exists_congr
      intro names
      rw [Option.mem_def, List.isPrefixOf?_eq_some_iff_append_eq, eq_comm])

/-- A run makes no source and writes over none, the artifact is no output, and its name can stand
on a line if it is to be listed. -/
structure Repeatable (build : Build) (disk : Disk) (root : Path) (output : Option Path) :
    Prop where
  /-- The root is there, or no file is where it leads. -/
  reached : (∃ location, disk.locate root = .ok location) ∨
    ∀ names, disk.file? (disk.place root ++ names) = none
  outputs : ∀ directory ∈ output, ∀ file ∈ build.sources disk root,
    disk.place (directory.join file) ∉ build.sourcePlaces disk root
  artifact : disk.place build.writer.path ∉ outputPlaces disk output (build.sources disk root)
  others : ∀ file ∈ build.sources disk root,
    disk.place (root.join file) ≠ disk.place build.writer.path
  listable : build.IsListable

theorem options_run (build : Build) (disk : Disk) (root : Path) (output : Option Path) :
    (build.run disk root output).session.build.options = build.options := by
  obtain ⟨registry, writer, -, hbuild⟩ := build.exists_run_build disk root output
  rw [hbuild]

theorem run_grows (build : Build) (disk : Disk) (root : Path) (output : Option Path) :
    disk.Grows (build.run disk root output).session.disk := by
  rw [run_eq_finish]
  exact (visitAll_grows ⟨{ build with registry := .empty }, disk, []⟩ root output _).trans
    (finish_grows _ _)

theorem run_isTree (htree : disk.IsTree) (build : Build) (root : Path) (output : Option Path) :
    (build.run disk root output).session.disk.IsTree := by
  rw [run_eq_finish]
  apply finish_isTree
  exact build.visits_isTree htree root output

/-- A run that ends well leaves any file but the outputs and the `.gitignore` as it was, unless that
is the artifact, which is there then. -/
theorem run_file?_cases {summary : Summary}
    (hok : (build.run disk root output).summary = .ok summary) {location : Location}
    (houtput : location ∉ outputPlaces disk output (build.sources disk root))
    (hgitignore : location ≠ disk.place build.gitignore) :
    (build.run disk root output).session.disk.file? location = disk.file? location ∨
      (build.run disk root output).session.disk.locate build.writer.path = .ok location := by
  have hvisits := build.visits_changes disk root output
  by_cases heq : location = disk.place build.writer.path
  · obtain ⟨registry, hbuild⟩ := build.exists_visits_build disk root output
    rw [run_eq_finish] at hok ⊢
    generalize build.visits disk root output = visits at hvisits hbuild hok
    obtain ⟨session, seen⟩ := visits
    dsimp only at hvisits hbuild hok ⊢
    have hsync := (summary_finish_eq_ok_iff.mp hok).1
    obtain ⟨changed, hchanged, -⟩ := map_eq_ok_iff.mp hsync
    rcases ArtifactWriter.sync_disk_cases hchanged with
      (hdisk : session.syncArtifact.1.disk = session.disk) | hread
    · left
      have hfinish := session.syncArtifact_finish_changes seen
      rw [hbuild, hvisits.place_eq] at hfinish
      rw [hfinish.file?_eq hgitignore, hdisk, hvisits.file?_eq houtput]
    · right
      have hlocate : session.syncArtifact.1.disk.locate session.build.writer.path = .ok _ :=
        locate_of_read hread
      rw [(syncArtifact_changes session).place_eq, hvisits.place_eq, hbuild] at hlocate
      rw [finish_session_of_sync hsync, heq]
      exact (ignoreArtifact_grows _).locate hlocate
  · left
    rw [(build.visits_run_changes disk root output).file?_eq, hvisits.file?_eq houtput]
    rintro (h | h)
    · exact heq h
    · exact hgitignore h

namespace Repeatable

variable {summary : Summary}

theorem ready (h : build.Repeatable disk root output) (htree : disk.IsTree) :
    Ready disk root output (build.sources disk root) := by
  apply ready_of_place_ne htree
  intro directory hdirectory file hfile other hother heq
  refine h.outputs directory hdirectory file hfile ⟨other.components, ?_, ?_⟩
  · rw [heq, place_join (isFileBelow_of_mem_sources htree hother).plain]
  · rw [(isFileBelow_of_mem_sources htree hother).plain.spelled]
    exact accepts_of_mem_sources hother

theorem outputsApart (h : build.Repeatable disk root output) (htree : disk.IsTree) :
    build.OutputsApart disk root output where
  artifact := h.artifact
  gitignore := by
    rintro ⟨directory, -, file, hfile, heq⟩
    exact place_join_ne_gitignore (isFileBelow_of_mem_sources htree hfile).plain
      (accepts_of_mem_sources hfile) disk directory heq.symm

/-! ## What a run leaves -/

/-- The sources hold what they held. -/
theorem read_source (h : build.Repeatable disk root output) (htree : disk.IsTree)
    (hfile : file ∈ build.sources disk root) :
    (build.run disk root output).session.disk.read (root.join file) =
      disk.read (root.join file) := by
  have hbelow := isFileBelow_of_mem_sources htree hfile
  obtain ⟨bytes, hread⟩ := hbelow.exists_read htree
  have hvisits := (build.visits_changes disk root output).read hread (by
    rintro ⟨directory, hdirectory, other, hother, heq⟩
    exact (h.ready htree).apart directory hdirectory other hother file hfile heq.symm)
  rw [hread]
  apply (build.visits_run_changes disk root output).read hvisits
  rw [(build.visits_changes disk root output).place_eq]
  rintro (heq | heq)
  · exact h.others file hfile heq
  · exact place_join_ne_gitignore hbelow.plain (accepts_of_mem_sources hfile) disk root heq

/-- The outputs that can be written hold what the sources make them hold. -/
theorem read_output (h : build.Repeatable disk root output) (htree : disk.IsTree)
    (hfile : file ∈ build.sources disk root) {bytes : ByteArray}
    (hread : disk.read (root.join file) = .ok bytes) {directory : Path}
    (hdirectory : directory ∈ output) (hcan : CanWrite disk (directory.join file)) :
    (build.run disk root output).session.disk.read (directory.join file) =
      .ok (outputBytes build.options file bytes) := by
  exact (h.outputsApart htree).read hdirectory hfile
    (visits_read (h.ready htree) hfile hread hdirectory hcan)

/-- What the visits of a second run depend on is as it was for the first. -/
theorem keeps (h : build.Repeatable disk root output) (htree : disk.IsTree)
    (hfile : file ∈ build.sources disk root) :
    Keeps root output file disk (build.run disk root output).session.disk where
  read_eq := h.read_source htree hfile
  canWrite_iff directory hdirectory := by
    have hafter := run_isTree htree build root output
    constructor
    · exact canWrite_of_grows (build.run_grows disk root output) htree hafter
    · intro hcan
      obtain ⟨bytes, hread⟩ := (isFileBelow_of_mem_sources htree hfile).exists_read htree
      exact canWrite_of_read hafter (h.read_output htree hfile hread hdirectory hcan)

/-- A file that would be a source after a run that ended well was there before it. -/
theorem file_ne_none (h : build.Repeatable disk root output) (htree : disk.IsTree)
    (hok : (build.run disk root output).summary = .ok summary) {names : List Text}
    (hsource : (build.run disk root output).session.build.IsSource
      (build.run disk root output).session.disk root names) :
    disk.file? (disk.place root ++ names) ≠ none := by
  have hgrows := build.run_grows disk root output
  obtain ⟨registry, writer, hpath, hbuild⟩ := build.exists_run_build disk root output
  obtain ⟨hplain, hcomponents⟩ := hsource.plain (run_isTree htree build root output)
  obtain ⟨-, -, hfile, hother, haccepted⟩ := hsource
  rw [hgrows.place_eq] at hfile hother
  rw [hbuild] at hother haccepted
  dsimp only at hother haccepted
  rw [hpath] at hother
  -- What is accepted is no output and not the `.gitignore`, and the artifact is left out.
  have houtput : disk.place root ++ names ∉
      outputPlaces disk output (build.sources disk root) := by
    rintro ⟨directory, hdirectory, file, hfile, heq⟩
    exact h.outputs directory hdirectory file hfile ⟨names, heq.symm, haccepted⟩
  have hgitignore : disk.place root ++ names ≠ disk.place build.gitignore := by
    have hne := place_join_ne_gitignore hplain haccepted disk root
    rwa [place_join hplain, hcomponents] at hne
  rcases run_file?_cases hok houtput hgitignore with hkept | hartifact
  · rwa [← hkept]
  · exact absurd hartifact hother

/-- The sources of a second run are those of the first. -/
theorem isSource_run_iff (h : build.Repeatable disk root output) (htree : disk.IsTree)
    (hok : (build.run disk root output).summary = .ok summary) (names : List Text) :
    (build.run disk root output).session.build.IsSource
        (build.run disk root output).session.disk root names ↔
      build.IsSource disk root names := by
  have hgrows := build.run_grows disk root output
  obtain ⟨registry, writer, hpath, hbuild⟩ := build.exists_run_build disk root output
  constructor
  · intro hsource
    have hfile := h.file_ne_none htree hok hsource
    refine ⟨?_, hsource.ne_nil, hfile, ?_, ?_⟩
    · rcases h.reached with hroot | hnone
      · exact hroot
      · exact absurd (hnone names) hfile
    · intro hlocate
      apply hsource.other
      rw [hgrows.place_eq, hbuild]
      dsimp only
      rw [hpath]
      exact hgrows.locate hlocate
    · have haccepted := hsource.accepted
      rwa [hbuild] at haccepted
  · intro hsource
    obtain ⟨location, hlocate⟩ := hsource.located
    refine ⟨⟨location, hgrows.locate hlocate⟩, hsource.ne_nil, ?_, ?_, ?_⟩
    · rw [hgrows.place_eq]
      exact hgrows.file_kept hsource.file
    · rw [hgrows.place_eq, hbuild]
      dsimp only
      rw [hpath]
      intro hartifact
      obtain ⟨hplain, hcomponents⟩ := hsource.plain htree
      have hne := h.others _ (mem_sources_iff.mpr ⟨names, hsource, rfl⟩)
      rw [place_join hplain, hcomponents, ← hgrows.place_eq build.writer.path] at hne
      exact hne (locate_eq_ok_iff.mp hartifact).2.2.1
    · rw [hbuild]
      exact hsource.accepted

theorem sources_run (h : build.Repeatable disk root output) (htree : disk.IsTree)
    (hok : (build.run disk root output).summary = .ok summary) :
    (build.run disk root output).session.build.sources
        (build.run disk root output).session.disk root =
      build.sources disk root := by
  apply (ascending_sources _ (run_isTree htree build root output) root).eq_of_mem_iff
    (build.ascending_sources htree root)
  intro file
  rw [mem_sources_iff, mem_sources_iff]
  simp only [h.isSource_run_iff htree hok]

/-! ## A second run -/

theorem ready_again (h : build.Repeatable disk root output) (htree : disk.IsTree)
    (hok : (build.run disk root output).summary = .ok summary) :
    Ready (build.run disk root output).session.disk root output
      ((build.run disk root output).session.build.sources
        (build.run disk root output).session.disk root) := by
  have hgrows := build.run_grows disk root output
  apply ready_of_place_ne (run_isTree htree build root output)
  rw [h.sources_run htree hok]
  intro directory hdirectory file hfile other hother
  rw [hgrows.place_eq, hgrows.place_eq]
  exact (h.ready htree).apart directory hdirectory file hfile other hother

/-- The visits of a second run come to what those of the first came to. -/
theorem visits_again_snd (h : build.Repeatable disk root output) (htree : disk.IsTree)
    (hok : (build.run disk root output).summary = .ok summary) :
    ((build.run disk root output).session.build.visits
        (build.run disk root output).session.disk root output).2 =
      (build.visits disk root output).2 := by
  have hready := h.ready htree
  have hagain := h.ready_again htree hok
  rw [visits_snd hagain, visits_snd hready, h.sources_run htree hok]
  apply List.map_congr_left
  intro file hfile
  refine congrArg (Prod.mk file) (Keeps.visit_status ?_ htree hagain.tree ?_ ?_)
  · exact h.keeps htree hfile
  · exact (hready.below file hfile).plain
  · exact options_run build disk root output

/-- The visits of a second run write what is there. -/
theorem visits_again_changes (h : build.Repeatable disk root output) (htree : disk.IsTree)
    (hok : (build.run disk root output).summary = .ok summary) :
    (build.run disk root output).session.disk.Changes
      ((build.run disk root output).session.build.visits
        (build.run disk root output).session.disk root output).1.disk Set.univ ∅ := by
  have hagain := h.ready_again htree hok
  apply ((visits_changes_written _ hagain.tree root output).mono (Set.subset_univ _)
    subset_rfl).of_file?_eq
  rintro location ⟨directory, hdirectory, file, hfile, hcan, rfl⟩
  have hsource := hfile
  rw [h.sources_run htree hok] at hsource
  obtain ⟨bytes, hread⟩ := (isFileBelow_of_mem_sources htree hsource).exists_read htree
  have hbefore := h.read_output htree hsource hread hdirectory
    (((h.keeps htree hsource).canWrite_iff directory hdirectory).mp hcan)
  have hafter := visits_read hagain hfile ((h.read_source htree hsource).trans hread) hdirectory
    hcan
  rw [options_run] at hafter
  have hplace := (read_eq_ok_iff.mp hafter).2.2
  rw [(visits_changes _ _ _ _).place_eq] at hplace
  rw [hplace, (read_eq_ok_iff.mp hbefore).2.2]

/-- A second run records what the first recorded. -/
theorem registry_again (h : build.Repeatable disk root output) (htree : disk.IsTree)
    (hok : (build.run disk root output).summary = .ok summary) :
    ((build.run disk root output).session.build.run
        (build.run disk root output).session.disk root output).session.build.registry =
      (build.run disk root output).session.build.registry := by
  have hready := h.ready htree
  have hagain := h.ready_again htree hok
  apply (isUnion_run hagain).eq_of_find?_iff (isUnion_run hready)
  intro key classes
  rw [find?_run hagain, find?_run hready, h.sources_run htree hok, options_run]
  apply exists_congr
  intro file
  apply and_congr_right
  intro hfile
  rw [(h.keeps htree hfile).contributes_iff]

end Repeatable

/-- A run that ended well and is repeated comes to the same summary and the same registry, and
changes no file. -/
theorem run_again (h : build.Repeatable disk root output) (htree : disk.IsTree) {summary : Summary}
    (hok : (build.run disk root output).summary = .ok summary) :
    let first := build.run disk root output
    let second := first.session.build.run first.session.disk root output
    second.summary = .ok summary ∧
      second.session.build.registry = first.session.build.registry ∧
      ∀ location, second.session.disk.file? location = first.session.disk.file? location := by
  intro first second
  let session := (build.visits disk root output).1
  let other := (first.session.build.visits first.session.disk root output).1
  let seen := (build.visits disk root output).2
  have hfirst : first = session.finish seen := run_eq_finish _ _ _ _
  have hseen : (first.session.build.visits first.session.disk root output).2 = seen :=
    h.visits_again_snd htree hok
  have hregistry : second.session.build.registry = first.session.build.registry :=
    h.registry_again htree hok
  have hdisk : first.session.disk.Changes other.disk Set.univ ∅ := h.visits_again_changes htree hok
  have hsecond : second = ⟨other, seen, .ok summary⟩ := by
    obtain ⟨registry, hbuild⟩ := build.exists_visits_build disk root output
    obtain ⟨registryAgain, hagain⟩ :=
      first.session.build.exists_visits_build first.session.disk root output
    have hlistable : session.build.IsListable := by
      rw [hbuild]
      exact h.listable
    have hoptions : other.build.options = session.build.options := by
      rw [hagain, hbuild]
      exact options_run build disk root output
    have hwriter : other.build.writer = (session.finish seen).session.build.writer := by
      rw [hagain, ← hfirst]
    have hsame : other.build.registry = session.build.registry := by
      rwa [run_registry, run_registry] at hregistry
    rw [run_eq_finish] at hok
    rw [hfirst] at hdisk
    calc
      second = other.finish (first.session.build.visits first.session.disk root output).2 :=
        run_eq_finish _ _ _ _
      _ = other.finish seen := by rw [hseen]
      _ = ⟨other, seen, .ok summary⟩ :=
        finish_again hok hlistable hoptions hsame hwriter hdisk
  rw [hsecond] at hregistry ⊢
  exact ⟨rfl, hregistry, fun location => hdisk.file?_eq (Set.notMem_empty location)⟩

-- Comparing results of runs must not evaluate the runs.
seal run in
/-- The outputs lie below the root, in a directory that is ignored. -/
theorem run_again_of_ignored_output :
    let options : Options := { ignore := ["dist/**".toList] }
    let glob : Glob := ⟨"dist/".toList.map .literal ++ [.anyDirectories]⟩
    let build : Build :=
      ⟨options, ⟨options.extensions.map listedExtension, [glob]⟩, .empty, .new options.artifact⟩
    let work : Location := ["w".toList]
    let disk : Disk := (Disk.mk ∅ work).put work .directory
      |>.put (work ++ ["a.html".toList]) (.file (Text.encode "<p class:hover=\"x\">".toList))
    let root : Path := .ofString "."
    let output : Option Path := some (.ofString "dist")
    let first := build.run disk root output
    let second := first.session.build.run first.session.disk root output
    Build.new options = .ok build ∧ disk.IsTree ∧
      first.session.disk.read (.ofString "dist/a.html") =
        .ok (Text.encode "<p class=\"hover:x\">".toList) ∧
      second.summary = .ok ⟨1, 0, 0, 1⟩ ∧
      second.session.build.registry = first.session.build.registry ∧
      ∀ location, second.session.disk.file? location = first.session.disk.file? location := by
  intro options glob build work disk root output first second
  have htree : disk.IsTree := by decide +kernel
  have hrepeatable : build.Repeatable disk root output :=
    ⟨.inl ⟨work, by decide +kernel⟩, by decide +kernel, by decide +kernel, by decide +kernel,
      by decide +kernel⟩
  have hok : first.summary = .ok ⟨1, 0, 0, 1⟩ := by decide +kernel
  obtain ⟨hsummary, hregistry, hfiles⟩ := run_again hrepeatable htree hok
  exact ⟨by decide +kernel, htree, by decide +kernel, hsummary, hregistry, hfiles⟩

seal run in
/-- Outputs below the root that are not ignored are sources of the second run. -/
theorem run_again_finds_outputs :
    let options : Options := { ignore := [] }
    let build : Build :=
      ⟨options, ⟨options.extensions.map listedExtension, []⟩, .empty, .new options.artifact⟩
    let work : Location := ["w".toList]
    let sources : Location := work ++ ["src".toList]
    let disk : Disk := ((Disk.mk ∅ work).put work .directory).put sources .directory
      |>.put (sources ++ ["a.html".toList]) (.file (Text.encode "<p class:hover=\"x\">".toList))
    let root : Path := .ofString "src"
    let output : Option Path := some (.ofString "src/out")
    let first := build.run disk root output
    let second := first.session.build.run first.session.disk root output
    let again : Location := sources ++ ["out".toList, "out".toList, "a.html".toList]
    Build.new options = .ok build ∧ disk.IsTree ∧
      first.summary = .ok ⟨1, 0, 0, 1⟩ ∧ second.summary = .ok ⟨1, 1, 0, 1⟩ ∧
      second.session.build.registry ≠ first.session.build.registry ∧
      first.session.disk.file? again = none ∧ second.session.disk.file? again ≠ none := by
  intro options build work sources disk root output first second again
  exact ⟨rfl, by decide +kernel, by decide +kernel, by decide +kernel, by decide +kernel,
    by decide +kernel, by decide +kernel⟩

end Build

end VariantClasses
