import VariantClasses.Proofs.Build.Finish

/-! # What a run leaves in the output directory

After a run on a tree, whether it ended well or not, the output of every source is what the
source alone makes it: its transformed text, or its bytes when they are no text. No other file
has changed but the artifact and the `.gitignore` (`Mirrored`).
-/

namespace VariantClasses.Build

open Disk Session

variable {build : Build} {disk : Disk} {root file : Path} {output : Option Path}

/-- Neither the artifact nor the `.gitignore` next to it lies at an output of a run. -/
structure OutputsApart (build : Build) (disk : Disk) (root : Path) (output : Option Path) :
    Prop where
  artifact : disk.place build.writer.path ∉ outputPlaces disk output (build.sources disk root)
  gitignore : disk.place build.gitignore ∉ outputPlaces disk output (build.sources disk root)

instance (build : Build) (disk : Disk) (root : Path) (output : Option Path) :
    Decidable (build.OutputsApart disk root output) :=
  decidable_of_iff (_ ∧ _) ⟨fun h => ⟨h.1, h.2⟩, fun h => ⟨h.1, h.2⟩⟩

/-- A result mirrors the sources of a build and has changed nothing else. -/
structure Mirrored (build : Build) (disk : Disk) (root : Path) (output : Option Path)
    (result : Build.Result) : Prop where
  /-- Every source came to what it comes to when it is visited alone. -/
  alone : result.seen = (build.sources disk root).map fun file =>
    (file, (visit ⟨build, disk, []⟩ root file output).2)
  /-- The output of a source that did not fail is its transformed text. -/
  transformed (file : Path) (status : FileStatus) (h : (file, status) ∈ result.seen)
    (hstatus : status ≠ .failed) :
    ∃ bytes text, disk.read (root.join file) = .ok bytes ∧ Text.decode? bytes = some text ∧
      (∀ directory ∈ output, result.session.disk.read (directory.join file) =
        .ok (transformFile build.options file text).code.encode) ∧
      (status = .unchanged → (transformFile build.options file text).code.encode = bytes)
  /-- The output of a source that is no text holds its bytes if it can be written. -/
  passed (file : Path) (h : file ∈ build.sources disk root) (bytes : ByteArray)
    (hread : disk.read (root.join file) = .ok bytes) (hdecode : Text.decode? bytes = none) :
    (file, .failed) ∈ result.seen ∧
      ∀ directory ∈ output, CanWrite disk (directory.join file) →
        result.session.disk.read (directory.join file) = .ok bytes
  /-- Any other file is as it was. -/
  others (location : Location)
    (houtput : location ∉ outputPlaces disk output (build.sources disk root))
    (hartifact : location ≠ disk.place build.writer.path)
    (hgitignore : location ≠ disk.place build.gitignore) :
    result.session.disk.file? location = disk.file? location

/-- What was read after the visits is read after the run. -/
theorem OutputsApart.read (h : build.OutputsApart disk root output) {directory : Path}
    (hdirectory : directory ∈ output) (hfile : file ∈ build.sources disk root) {bytes : ByteArray}
    (hread : (build.visits disk root output).1.disk.read (directory.join file) = .ok bytes) :
    (build.run disk root output).session.disk.read (directory.join file) = .ok bytes := by
  apply (build.visits_run_changes disk root output).read hread
  rw [(build.visits_changes disk root output).place_eq]
  have hmem : disk.place (directory.join file) ∈
      outputPlaces disk output (build.sources disk root) :=
    ⟨directory, hdirectory, file, hfile, rfl⟩
  rintro (heq | heq)
  · exact h.artifact (heq ▸ hmem)
  · exact h.gitignore (heq ▸ hmem)

theorem code_eq_of_changed_eq_false {options : Options} {text : Text}
    (h : (transformFile options file text).changed = false) :
    (transformFile options file text).code = text := by
  have hchanged : (transformFile options file text).changed =
      ((transformFile options file text).code != text) := rfl
  rw [hchanged] at h
  exact bne_eq_false_iff_eq.mp h

/-- A run and a visit of one file alone come to the same status. -/
theorem run_seen_eq (htree : disk.IsTree)
    (hapart : ∀ directory ∈ output, disk.Apart root directory) :
    (build.run disk root output).seen = (build.sources disk root).map fun file =>
      (file, (visit ⟨build, disk, []⟩ root file output).2) := by
  have hready := build.ready_sources htree hapart
  rw [run_seen, visits, hready.visitAll_snd]
  apply List.map_congr_left
  intro file hfile
  have hkeeps : Keeps root output file disk disk := ⟨rfl, fun _ _ => Iff.rfl⟩
  have hstatus : (visit ⟨{ build with registry := .empty }, disk, []⟩ root file output).2 =
      (visit ⟨build, disk, []⟩ root file output).2 :=
    hkeeps.visit_status htree htree (hready.below file hfile).plain rfl
  rw [hstatus]

/-- After a run on a tree the output mirrors the sources, and nothing else has changed. -/
theorem run_mirrored (htree : disk.IsTree)
    (hapart : ∀ directory ∈ output, disk.Apart root directory)
    (houtputs : build.OutputsApart disk root output) :
    build.Mirrored disk root output (build.run disk root output) := by
  have hready := build.ready_sources htree hapart
  have hplain (file : Path) (hfile : file ∈ build.sources disk root) : file.IsPlain :=
    (hready.below file hfile).plain
  have hseen := build.run_seen_eq htree hapart
  refine ⟨hseen, ?_, ?_, ?_⟩
  · intro file status h hfailed
    obtain ⟨other, hfile, heq⟩ := List.mem_map.mp (hseen ▸ h)
    obtain ⟨rfl, rfl⟩ := Prod.mk.inj heq
    rcases visit_cases ⟨build, disk, []⟩ root output htree (hplain other hfile) with
      ⟨text, (hcan : CanTransform disk root other output text), hstatus, -⟩ | ⟨-, hstatus, -⟩
    · obtain ⟨bytes, hread, hdecode⟩ := readSource_eq_ok_iff.mp hcan.1
      refine ⟨bytes, text, hread, hdecode, ?_, ?_⟩
      · intro directory hdirectory
        exact houtputs.read hdirectory hfile
          (hready.visitAll_read_of_canTransform hfile hcan directory hdirectory)
      · intro hunchanged
        rw [hstatus] at hunchanged
        split at hunchanged
        next => cases hunchanged
        next hchanged =>
          rw [code_eq_of_changed_eq_false (Bool.eq_false_of_not_eq_true hchanged)]
          exact Text.encode_of_decode?_eq_some hdecode
    · exact absurd hstatus hfailed
  · intro file hfile bytes hread hdecode
    constructor
    · have hnone (text : Text) : ¬CanTransform disk root file output text := by
        intro hcan
        obtain ⟨other, hother, htext⟩ := readSource_eq_ok_iff.mp hcan.1
        obtain rfl := Except.ok.inj (hread.symm.trans hother)
        rw [hdecode] at htext
        cases htext
      rw [hseen]
      refine List.mem_map.mpr ⟨file, hfile, ?_⟩
      rw [(visit_of_not_canTransform htree (hplain file hfile) hnone).1]
    · intro directory hdirectory hwrite
      obtain rfl := hdirectory
      exact houtputs.read rfl hfile (hready.visitAll_passes_through hfile hread hdecode hwrite)
  · intro location houtput hartifact hgitignore
    have hlocation : location ∉
        ({disk.place build.writer.path, disk.place build.gitignore} : Set Location) := by
      rintro (heq | heq)
      · exact hartifact heq
      · exact hgitignore heq
    rw [(build.visits_run_changes disk root output).file?_eq hlocation,
      (build.visits_changes disk root output).file?_eq houtput]

-- Comparing results of runs must not evaluate the runs.
seal run in
/-- Three sources come to three different ends, none of which the directory at the place of
the artifact changes; what was in the output directory stays. -/
theorem run_mirrored_of_blocked_artifact :
    let options : Options := { ignore := [] }
    let build : Build :=
      ⟨options, ⟨options.extensions.map listedExtension, []⟩, .empty, .new options.artifact⟩
    let work : Location := ["w".toList]
    let sources : Location := work ++ ["src".toList]
    let other : Location := work ++ ["out".toList, "d.html".toList]
    let page : Text := "<p class:hover=\"b\">".toList
    let plain : Text := "<p class=\"b\">".toList
    let disk : Disk := (Disk.mk ∅ work).put work .directory
      |>.put sources .directory
      |>.put (sources ++ ["a.html".toList]) (.file page.encode)
      |>.put (sources ++ ["b.html".toList]) (.file ⟨#[0xff]⟩)
      |>.put (sources ++ ["c.html".toList]) (.file plain.encode)
      |>.put (work ++ ["out".toList]) .directory
      |>.put other (.file page.encode)
      |>.put (work ++ options.artifact.steps) .directory
    let root : Path := .ofString "src"
    let output : Option Path := some (.ofString "out")
    let result := build.run disk root output
    disk.IsTree ∧
      result.seen = [(.ofString "a.html", .transformed), (.ofString "b.html", .failed),
        (.ofString "c.html", .unchanged)] ∧
      result.summary = .error (.disk options.artifact .isDirectory) ∧
      result.session.disk.read (.ofString "out/b.html") = .ok ⟨#[0xff]⟩ ∧
      result.session.disk.file? other = some page.encode := by
  intro options build work sources other page plain disk root output result
  have htree : disk.IsTree := by decide +kernel
  have hapart : ∀ directory ∈ output, disk.Apart root directory := by decide +kernel
  have houtputs : build.OutputsApart disk root output := by decide +kernel
  have hmirrored := run_mirrored htree hapart houtputs
  refine ⟨htree, by decide +kernel, by decide +kernel, ?_, ?_⟩
  · exact (hmirrored.passed (.ofString "b.html") (by decide +kernel) ⟨#[0xff]⟩
      (by decide +kernel) (by decide +kernel)).2 (.ofString "out") rfl ⟨[], by decide +kernel⟩
  · exact (hmirrored.others other (by decide +kernel) (by decide +kernel)
      (by decide +kernel)).trans (by decide +kernel)

end VariantClasses.Build
