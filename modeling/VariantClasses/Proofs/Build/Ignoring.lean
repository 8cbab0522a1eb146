import VariantClasses.Proofs.Build.Finish
import VariantClasses.Proofs.Gitignore

/-! # The `.gitignore` next to the artifact

The artifact and the `.gitignore` next to it lie in the same directory, so they are one file
exactly when the artifact has the name of the other (`sameFile_gitignore`, `place_gitignore_ne`).
Only then does listing the artifact change what it holds (`ignoreArtifact_read_iff`). Once the
artifact was listed, it is not listed again (`ignoreArtifact_again`).
-/

namespace VariantClasses

namespace Disk

variable {disk : Disk} {location other : Location} {steps : List Text}

/-! ## Dots -/

theorem foldl_stepFrom_dots (location : Location) (steps : List Text) (dots : Nat) :
    (steps ++ List.replicate dots Path.here).foldl stepFrom location =
      steps.foldl stepFrom location := by
  induction dots with
  | zero => rw [List.replicate_zero, List.append_nil]
  | succ dots ih =>
    rw [List.replicate_succ', ← List.append_assoc, List.foldl_append, ih, List.foldl_cons,
      List.foldl_nil, stepFrom, if_pos rfl]

theorem mem_passed_dots (dots : Nat) :
    other ∈ passed location (steps ++ List.replicate dots Path.here) ↔
      other ∈ passed location steps := by
  induction dots with
  | zero => rw [List.replicate_zero, List.append_nil]
  | succ dots ih => rw [List.replicate_succ', ← List.append_assoc, mem_passed_dot, ih]

/-! ## One file by two paths -/

/-- Two paths of files lead to the same place through the same directories. -/
structure SameFile (disk : Disk) (path other : Path) : Prop where
  names : NamesFile path
  namesOther : NamesFile other
  place_eq : disk.place other = disk.place path
  mem_way_iff (location : Location) : location ∈ disk.way other ↔ location ∈ disk.way path

variable {path : Path} {third : Path}

theorem SameFile.read_iff (h : disk.SameFile path third) {bytes : ByteArray} :
    disk.read third = .ok bytes ↔ disk.read path = .ok bytes := by
  rw [read_eq_ok_iff, read_eq_ok_iff, h.place_eq]
  simp only [Open, h.mem_way_iff, h.names.1, h.namesOther.1]

theorem SameFile.of_changes {after : Disk} {made written : Set Location}
    (h : disk.SameFile path third) (hchanges : disk.Changes after made written) :
    after.SameFile path third where
  names := h.names
  namesOther := h.namesOther
  place_eq := by rw [hchanges.place_eq, hchanges.place_eq, h.place_eq]
  mem_way_iff location := by rw [hchanges.way_eq, hchanges.way_eq, h.mem_way_iff]

/-- A file that can be read can be written. -/
theorem exists_write_of_read {bytes : ByteArray} (hname : NamesFile path)
    (hread : disk.read path = .ok bytes) (others : ByteArray) :
    ∃ after, disk.write path others = .ok after := by
  obtain ⟨-, hopen, -⟩ := read_eq_ok_iff.mp hread
  exact ⟨_, write_eq_ok_iff.mpr ⟨hname, hopen, (hasRoom_of_read hread).free, rfl⟩⟩

end Disk

open Disk

theorem Gitignore.isPlain_fileName : Gitignore.fileName.IsPlain :=
  ⟨by decide, by decide, by decide⟩

theorem Path.extension?_gitignore {file : Path} (hplain : file.IsPlain)
    (hlast : file.components.getLast? = some Gitignore.fileName.text) : file.extension? = none := by
  have hname : file.fileName? = some Gitignore.fileName.text := by
    apply Path.fileName?_eq_some
    · rw [hplain.steps_eq, hlast]
    · decide
    · decide
    · exact hplain.endsInSlash_eq
  rw [Path.extension?, hname]
  decide

namespace Build

variable {build : Build} {disk : Disk}

/-- The directory in which the artifact and the `.gitignore` lie. -/
def artifactDirectory (build : Build) : Path :=
  if build.writer.path.directory.text.isEmpty then ⟨Path.here⟩ else build.writer.path.directory

theorem gitignore_eq (build : Build) :
    build.gitignore = build.artifactDirectory.join Gitignore.fileName :=
  rfl

theorem place_gitignore (build : Build) (disk : Disk) :
    disk.place build.gitignore =
      disk.place build.artifactDirectory ++ [Gitignore.fileName.text] := by
  rw [gitignore_eq, place_join Gitignore.isPlain_fileName]
  rfl

theorem namesFile_gitignore (build : Build) : NamesFile build.gitignore :=
  namesFile_join Gitignore.isPlain_fileName

/-- The `.gitignore` is no source, and no output of one. -/
theorem place_join_ne_gitignore {file : Path} (hplain : file.IsPlain)
    (haccepted : build.filter.accepts file = true) (disk : Disk) (base : Path) :
    disk.place (base.join file) ≠ disk.place build.gitignore := by
  intro heq
  rw [place_join hplain, place_gitignore] at heq
  have hlast : file.components.getLast? = some Gitignore.fileName.text := by
    have hlasts := congrArg List.getLast? heq
    rwa [List.getLast?_append_of_ne_nil _ hplain.ne_nil, List.getLast?_concat] at hlasts
  rw [FileFilter.accepts, Path.extension?_gitignore hplain hlast] at haccepted
  cases haccepted

/-- The directory of the artifact takes the steps of the artifact's path but the last, dots at
the end aside. -/
theorem exists_steps_artifactDirectory (hname : NamesFile build.writer.path) :
    build.artifactDirectory.isAbsolute = build.writer.path.isAbsolute ∧
      ∃ steps dots more, build.writer.path.steps.dropLast = steps ++ List.replicate dots Path.here ∧
        build.artifactDirectory.steps = steps ++ List.replicate more Path.here := by
  obtain ⟨directory, above, dots, hpaths, hstart, hsteps⟩ := hname.climb.exists_dots
  obtain ⟨rfl, -⟩ := List.cons.inj hpaths
  rw [artifactDirectory]
  split
  next hempty =>
    -- The empty path and a dot lead to where relative paths start.
    have hnil : build.writer.path.directory = ⟨[]⟩ := congrArg Path.mk (List.isEmpty_iff.mp hempty)
    rw [hnil] at hstart hsteps
    exact ⟨hstart, [], dots, 1, hsteps, rfl⟩
  next => exact ⟨hstart, _, dots, 0, hsteps, by simp⟩

/-- The artifact lies in its directory. -/
theorem place_artifact (hname : NamesFile build.writer.path) (disk : Disk) :
    ∃ last, build.writer.path.fileName? = some last ∧
      disk.place build.writer.path = disk.place build.artifactDirectory ++ [last] := by
  obtain ⟨habsolute, steps, dots, more, hsteps, hdirectory⟩ := exists_steps_artifactDirectory hname
  obtain ⟨hslash, last, hlast, hhere, hup⟩ := hname
  refine ⟨last, Path.fileName?_eq_some hlast hhere hup hslash, ?_⟩
  rw [place_eq_concat hlast hhere hup, hsteps, foldl_stepFrom_dots, place, hdirectory,
    foldl_stepFrom_dots, start, start, habsolute]

/-- An artifact of another name is another file than the `.gitignore`. -/
theorem place_gitignore_ne (hname : NamesFile build.writer.path)
    (hne : build.writer.path.fileName? ≠ some Gitignore.fileName.text) (disk : Disk) :
    disk.place build.writer.path ≠ disk.place build.gitignore := by
  obtain ⟨last, hlast, hplace⟩ := place_artifact hname disk
  rw [hplace, place_gitignore]
  intro heq
  obtain rfl := List.singleton_inj.mp (List.append_cancel_left heq)
  exact hne hlast

/-- The artifact and the `.gitignore` are reached through the same directories. -/
theorem mem_way_gitignore_iff (hname : NamesFile build.writer.path) (disk : Disk)
    (location : Location) :
    location ∈ disk.way build.gitignore ↔ location ∈ disk.way build.writer.path := by
  obtain ⟨habsolute, steps, dots, more, hsteps, hdirectory⟩ := exists_steps_artifactDirectory hname
  have hgitignore : build.gitignore.steps.dropLast = build.artifactDirectory.steps := by
    rw [gitignore_eq, steps_join Gitignore.isPlain_fileName]
    exact List.dropLast_concat
  have hstart : disk.start build.gitignore = disk.start build.writer.path := by
    rw [gitignore_eq, start_join Gitignore.isPlain_fileName, start, start, habsolute]
  rw [way, way, hgitignore, hsteps, hdirectory, hstart, mem_passed_dots, mem_passed_dots]

/-- An artifact of the same name is the `.gitignore`. -/
theorem sameFile_gitignore (hname : NamesFile build.writer.path)
    (heq : build.writer.path.fileName? = some Gitignore.fileName.text) (disk : Disk) :
    disk.SameFile build.writer.path build.gitignore where
  names := hname
  namesOther := build.namesFile_gitignore
  place_eq := by
    obtain ⟨last, hlast, hplace⟩ := place_artifact hname disk
    obtain rfl := Option.some.inj (hlast.symm.trans heq)
    rw [hplace, place_gitignore]
  mem_way_iff := mem_way_gitignore_iff hname disk

/-- If the artifact is to be listed in the `.gitignore`, its name can stand on a line. -/
def IsListable (build : Build) : Prop :=
  build.options.gitignore = true → ∀ name ∈ build.writer.path.fileName?, Gitignore.IsLine name

instance (build : Build) : Decidable (IsListable build) :=
  inferInstanceAs (Decidable (_ → ∀ name ∈ build.writer.path.fileName?, _))

end Build

/-! ## Listing the artifact -/

namespace Session

variable {session other : Session}

theorem ignoreArtifact_grows (session : Session) :
    session.disk.Grows session.ignoreArtifact.1.disk := by
  rw [ignoreArtifact]
  split
  next => exact Gitignore.grows_ensure _ _ _
  next => exact .refl _

theorem ignoreArtifact_isTree (h : session.disk.IsTree) :
    session.ignoreArtifact.1.disk.IsTree := by
  rw [ignoreArtifact]
  split
  next => exact Gitignore.isTree_ensure h _ _
  next => exact h

theorem finish_grows (session : Session) (seen : List (Path × FileStatus)) :
    session.disk.Grows (session.finish seen).session.disk := by
  have hsync : session.disk.Grows session.syncArtifact.1.disk :=
    (session.build.writer.sync_attempts session.disk session.build.registry).grows
  rcases session.finish_session seen with h | h
  · rwa [h]
  · rw [h]
    exact hsync.trans (ignoreArtifact_grows _)

theorem finish_isTree {session : Session} (h : session.disk.IsTree)
    (seen : List (Path × FileStatus)) : (session.finish seen).session.disk.IsTree := by
  have hsync : session.syncArtifact.1.disk.IsTree :=
    (session.build.writer.sync_attempts session.disk session.build.registry).isTree h
  rcases session.finish_session seen with h | h
  · rwa [h]
  · rw [h]
    exact ignoreArtifact_isTree hsync

/-- Where the artifact was listed and the `.gitignore` still holds what it held, listing the
artifact again changes nothing. -/
theorem ignoreArtifact_again (hlistable : session.build.IsListable)
    (hok : session.ignoreArtifact.2 = .ok ())
    (hoptions : other.build.options = session.build.options)
    (hpath : other.build.writer.path = session.build.writer.path)
    (hread : ∀ bytes, session.ignoreArtifact.1.disk.read session.build.gitignore = .ok bytes →
      other.disk.read session.build.gitignore = .ok bytes) :
    other.ignoreArtifact = (other, .ok ()) := by
  rw [ignoreArtifact, hoptions, hpath]
  rw [ignoreArtifact] at hok hread
  split
  next name hignored hname =>
    rw [hignored, hname] at hok hread
    dsimp only at hok hread ⊢
    rw [← Build.artifactDirectory] at hok hread ⊢
    cases hensure : Gitignore.ensure session.disk session.build.artifactDirectory name with
    | mk after outcome =>
      rw [hensure] at hok hread
      obtain ⟨changed, hchanged, -⟩ := map_eq_ok_iff.mp hok
      dsimp only at hchanged hread
      rw [hchanged] at hensure
      obtain ⟨text, htext, hlists⟩ := Gitignore.exists_readText_of_ensure
        (hlistable hignored name hname) hensure
      obtain ⟨bytes, hbytes, hdecode⟩ := Gitignore.readText_eq_ok_iff.mp htext
      have hother : other.disk.readText
          (session.build.artifactDirectory.join Gitignore.fileName) = .ok text :=
        Gitignore.readText_eq_ok_iff.mpr ⟨bytes, hread bytes hbytes, hdecode⟩
      rw [Gitignore.ensure_of_lists hother hlists]
      rfl
  next => rfl

/-- Listing the artifact leaves what it holds, unless the artifact is the `.gitignore` and does not
list its own name. -/
theorem ignoreArtifact_read_iff {text : Text} (hname : NamesFile session.build.writer.path)
    (hread : session.disk.read session.build.writer.path = .ok text.encode) :
    session.ignoreArtifact.1.disk.read session.build.writer.path = .ok text.encode ↔
      ¬(session.build.options.gitignore = true ∧
        session.build.writer.path.fileName? = some Gitignore.fileName.text ∧
        Gitignore.lists Gitignore.fileName.text text = false) := by
  by_cases hsame : session.build.writer.path.fileName? = some Gitignore.fileName.text
  · have hfile := Build.sameFile_gitignore hname hsame session.disk
    have hgitignore := hfile.read_iff.mpr hread
    rw [ignoreArtifact, hsame]
    cases session.build.options.gitignore with
    | false => simp [hread]
    | true =>
      dsimp only
      rw [← Build.artifactDirectory]
      rw [Build.gitignore_eq] at hgitignore hfile
      have htext := Gitignore.readText_of_read_encode hgitignore
      cases hlists : Gitignore.lists Gitignore.fileName.text text with
      | true =>
        rw [Gitignore.ensure_of_lists htext hlists]
        simp [hread]
      | false =>
        obtain ⟨after, hwrite⟩ := exists_write_of_read hfile.namesOther hgitignore
          (Gitignore.add Gitignore.fileName.text text).encode
        have hadded := (hfile.of_changes (changes_of_write hwrite)).read_iff.mp
          (read_of_write hwrite)
        rw [Gitignore.ensure_of_not_lists (Gitignore.current_of_readText htext) hlists hwrite]
        dsimp only
        rw [hadded]
        simp [Text.encode_inj, Gitignore.add_ne_self]
  · have hkept := (ignoreArtifact_changes session).read hread
      (Build.place_gitignore_ne hname hsame session.disk)
    simp [hkept, hsame]

end Session

end VariantClasses
