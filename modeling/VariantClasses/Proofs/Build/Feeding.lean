import VariantClasses.Proofs.Build.Finish

/-! # Processing single files

A call that processes one file records the file's classes and writes the artifact only when
one of them is new. So the artifact is as the last call left it that recorded a new class: it
holds what is recorded exactly when that call ended well (`processFile_current_iff`). A call
after one that failed to write the artifact ends well without writing it when it records
nothing new (`processFile_leaves_artifact_missing`).
-/

namespace VariantClasses.Build

open Disk Session

variable {build : Build} {disk after : Disk} {root file : Path} {text : Text}

/-! ## What one call does -/

/-- The build after the classes of a file's text were recorded. -/
def recorded (build : Build) (file : Path) (text : Text) : Build :=
  { build with
    registry := build.registry.record file
      (transformFile build.options file text).variants.toList }

/-- Nothing comes of a file that is no text. -/
theorem processFile_of_error {failure : Failure}
    (h : readSource disk (root.join file) = .error failure) :
    build.processFile disk root file none = (⟨build, disk, []⟩, .error failure) := by
  rw [processFile, transformOne, h]

/-- The classes of a text are recorded, and the artifact is brought up to date if one of them
is new. -/
theorem processFile_of_text (build : Build) (h : readSource disk (root.join file) = .ok text) :
    ∃ (notices : List Notice) (status : FileStatus),
      build.processFile disk root file none =
        let session : Session := ⟨build.recorded file text, disk, notices⟩
        if session.build.registry.size = build.registry.size then (session, .ok status)
        else (session.syncArtifact.1, session.syncArtifact.2.map fun _ => status) := by
  let result := transformFile build.options file text
  refine ⟨[] ++ result.warnings.map Notice.warning,
    if result.changed then .transformed else .unchanged, ?_⟩
  rw [processFile, transformOne, h]
  dsimp only [writeOutput, recorded]
  split
  next => rfl
  next =>
    dsimp only [result]
    split
    next session failure hsync => rw [hsync]; rfl
    next session hsync => rw [hsync]; rfl

theorem registry_processFile (h : readSource disk (root.join file) = .ok text) :
    (build.processFile disk root file none).1.build.registry =
      build.registry.record file (transformFile build.options file text).variants.toList := by
  obtain ⟨notices, status, hcall⟩ := processFile_of_text build h
  rw [hcall]
  dsimp only
  split <;> rfl

theorem classes_recorded_of_size_eq
    (h : (build.recorded file text).registry.size = build.registry.size) :
    (build.recorded file text).registry.classes = build.registry.classes :=
  Registry.size_record_eq_iff.mp h

/-- A call that records no new class leaves the artifact and what is remembered of it. Any other
brings the artifact up to date, and ends well when that does. -/
theorem processFile_cases (build : Build) (disk : Disk) (root file : Path) :
    ((build.processFile disk root file none).1.build.registry.size = build.registry.size ∧
      (build.processFile disk root file none).1.build.registry.classes = build.registry.classes ∧
      (build.processFile disk root file none).1.build.writer = build.writer ∧
      (build.processFile disk root file none).1.disk = disk) ∨
    ∃ (session : Session) (status : FileStatus), session.build.writer = build.writer ∧
      session.disk = disk ∧ session.build.registry.size ≠ build.registry.size ∧
      build.processFile disk root file none =
        (session.syncArtifact.1, session.syncArtifact.2.map fun _ => status) := by
  cases hread : readSource disk (root.join file) with
  | error failure =>
    rw [processFile_of_error hread]
    exact .inl ⟨rfl, rfl, rfl, rfl⟩
  | ok text =>
    obtain ⟨notices, status, hcall⟩ := processFile_of_text build hread
    by_cases hsize : (build.recorded file text).registry.size = build.registry.size
    · left
      rw [hcall]
      dsimp only
      rw [if_pos hsize]
      exact ⟨hsize, classes_recorded_of_size_eq hsize, rfl, rfl⟩
    · right
      refine ⟨⟨build.recorded file text, disk, notices⟩, status, rfl, rfl, hsize, ?_⟩
      rw [hcall]
      exact if_neg hsize

/-- A call leaves the options, the filter and the place of the artifact as they are. -/
theorem exists_processFile_build (build : Build) (disk : Disk) (root file : Path) :
    ∃ registry writer, writer.path = build.writer.path ∧
      (build.processFile disk root file none).1.build = { build with registry, writer } := by
  cases hread : readSource disk (root.join file) with
  | error failure =>
    rw [processFile_of_error hread]
    exact ⟨_, _, rfl, rfl⟩
  | ok text =>
    obtain ⟨notices, status, hcall⟩ := processFile_of_text build hread
    rw [hcall]
    dsimp only
    split
    next => exact ⟨_, _, rfl, rfl⟩
    next => exact ⟨_, _, ArtifactWriter.path_sync _ _ _, rfl⟩

theorem path_processFile (build : Build) (disk : Disk) (root file : Path) :
    (build.processFile disk root file none).1.build.writer.path = build.writer.path := by
  obtain ⟨registry, writer, hpath, hbuild⟩ := exists_processFile_build build disk root file
  rw [hbuild, hpath]

/-! ## The artifact between calls -/

/-- What is known of the artifact between calls, where `current` says whether the last call that
recorded a new class ended well. -/
structure Tracks (build : Build) (disk : Disk) (current : Bool) : Prop where
  tree : disk.IsTree
  remembers : build.writer.Remembers disk
  /-- After a call that ended well the document of what is recorded is remembered. -/
  written (h : current = true) (hclasses : build.registry.classes ≠ ∅) :
    build.writer.written = some (renderArtifact build.registry.classes)
  /-- After a call that did not, there is no artifact. -/
  missing (h : current = false) (bytes : ByteArray) : disk.read build.writer.path ≠ .ok bytes

variable {current : Bool}

theorem tracks_new {options : Options} (h : Build.new options = .ok build) (htree : disk.IsTree) :
    build.Tracks disk true := by
  rw [Build.new] at h
  split at h
  next => cases h
  next =>
    cases h
    refine ⟨htree, ?_, ?_, ?_⟩
    · intro document hdocument
      cases hdocument
    · intro _ hclasses
      exact absurd rfl hclasses
    · intro hcurrent
      cases hcurrent

theorem Tracks.of_kept (h : build.Tracks disk current) (htree : after.IsTree)
    (hkept : ∀ bytes, after.read build.writer.path = .ok bytes ↔
      disk.read build.writer.path = .ok bytes) : build.Tracks after current where
  tree := htree
  remembers document hdocument := (hkept _).mpr (h.remembers document hdocument)
  written := h.written
  missing hcurrent bytes hread := h.missing hcurrent bytes ((hkept bytes).mp hread)

/-- The artifact holds the document of what is recorded exactly when the last call that recorded
a new class ended well. -/
theorem Tracks.read_iff (h : build.Tracks disk current) (hclasses : build.registry.classes ≠ ∅) :
    disk.read build.writer.path = .ok (renderArtifact build.registry.classes).encode ↔
      current = true := by
  constructor
  · intro hread
    by_contra hcurrent
    exact h.missing (Bool.eq_false_of_not_eq_true hcurrent) _ hread
  · intro hcurrent
    exact h.remembers _ (h.written hcurrent hclasses)

/-- Where the artifact cannot be written it is not there. -/
theorem read_ne_of_sync_error {writer : ArtifactWriter} {registry : Registry} {failure : Failure}
    (htree : disk.IsTree) (h : (writer.sync disk registry).2 = .error failure)
    (bytes : ByteArray) : (writer.sync disk registry).1.2.read writer.path ≠ .ok bytes := by
  intro hread
  have hattempts := writer.sync_attempts disk registry
  have hafter := hattempts.isTree htree
  exact ArtifactWriter.not_canWrite_of_sync_error htree h
    (canWrite_of_grows hattempts.grows htree hafter (canWrite_of_read hafter hread))

/-- Whether the last call that recorded a new class ended well, after one more call. -/
def currentAfter (build : Build) (disk : Disk) (root file : Path) (current : Bool) : Bool :=
  if (build.processFile disk root file none).1.build.registry.size = build.registry.size then
    current
  else (build.processFile disk root file none).2.isOk

/-- Bringing the artifact up to date ends well exactly when what is recorded is there then. -/
theorem tracks_syncArtifact (session : Session) (htree : session.disk.IsTree)
    (hremembers : session.build.writer.Remembers session.disk) :
    session.syncArtifact.1.build.Tracks session.syncArtifact.1.disk
      session.syncArtifact.2.isOk := by
  have htreeAfter := (session.build.writer.sync_attempts session.disk
    session.build.registry).isTree htree
  have hremembersAfter := syncArtifact_remembers hremembers
  have houtcome : session.syncArtifact.2 =
      (session.build.writer.sync session.disk session.build.registry).2.map fun _ => () := rfl
  rw [houtcome]
  cases hsync : (session.build.writer.sync session.disk session.build.registry).2 with
  | error failure =>
    refine ⟨htreeAfter, hremembersAfter, ?_, ?_⟩
    · intro hcurrent
      cases hcurrent
    · intro _
      rw [path_syncArtifact]
      exact read_ne_of_sync_error htree hsync
  | ok changed =>
    refine ⟨htreeAfter, hremembersAfter, ?_, ?_⟩
    · intro _ _
      exact ArtifactWriter.written_sync_of_ok hsync
    · intro hcurrent
      cases hcurrent

theorem Tracks.processFile (h : build.Tracks disk current) (root file : Path) :
    (build.processFile disk root file none).1.build.Tracks
      (build.processFile disk root file none).1.disk
      (build.currentAfter disk root file current) := by
  rw [currentAfter]
  rcases build.processFile_cases disk root file with
    ⟨hsize, hclasses, hwriter, hdisk⟩ | ⟨session, status, hwriter, hdisk, hsize, hcall⟩
  · rw [if_pos hsize, hdisk]
    constructor
    · exact h.tree
    · rw [hwriter]
      exact h.remembers
    · rw [hwriter, hclasses]
      exact h.written
    · rw [hwriter]
      exact h.missing
  · have hsync := tracks_syncArtifact session (hdisk ▸ h.tree)
      (by rw [hwriter, hdisk]; exact h.remembers)
    rw [hcall, if_neg (by exact hsize)]
    cases houtcome : session.syncArtifact.2 <;> rwa [houtcome] at hsync

/-! ## Calls one after the other -/

/-- What calls without an output directory make of a new build, while others change anything but
the artifact; and whether the last call that recorded a new class ended well. -/
inductive Fed : Build → Disk → Bool → Prop
  | new {options : Options} {build : Build} {disk : Disk} (h : Build.new options = .ok build)
    (tree : disk.IsTree) : Fed build disk true
  | others {build : Build} {before after : Disk} {current : Bool} (h : Fed build before current)
    (tree : after.IsTree)
    (kept : ∀ bytes, after.read build.writer.path = .ok bytes ↔
      before.read build.writer.path = .ok bytes) : Fed build after current
  | call {build : Build} {disk : Disk} {current : Bool} (h : Fed build disk current)
    (root file : Path) :
    Fed (build.processFile disk root file none).1.build
      (build.processFile disk root file none).1.disk (build.currentAfter disk root file current)

/-- Others may do what they like where there is no artifact, as long as they make none. -/
theorem Fed.of_unread (h : build.Fed disk current) (htree : after.IsTree)
    {fault faultAfter : DiskFault} (hread : disk.read build.writer.path = .error fault)
    (hafter : after.read build.writer.path = .error faultAfter) : build.Fed after current := by
  apply h.others htree
  intro bytes
  rw [hread, hafter]
  constructor <;> exact nofun

theorem Fed.tracks (h : build.Fed disk current) : build.Tracks disk current := by
  induction h with
  | new h tree => exact tracks_new h tree
  | others h tree kept ih => exact ih.of_kept tree kept
  | call h root file ih => exact ih.processFile root file

/-- After a call that ended well the artifact holds the document of what is recorded exactly when
the call recorded a new class, or the last call before it that did ended well. -/
theorem processFile_current_iff (h : build.Fed disk current) {status : FileStatus}
    (hok : (build.processFile disk root file none).2 = .ok status)
    (hclasses : (build.processFile disk root file none).1.build.registry.classes ≠ ∅) :
    (build.processFile disk root file none).1.disk.read build.writer.path =
        .ok (renderArtifact
          (build.processFile disk root file none).1.build.registry.classes).encode ↔
      ((build.processFile disk root file none).1.build.registry.size = build.registry.size →
        current = true) := by
  have hiff := (h.call root file).tracks.read_iff hclasses
  rw [path_processFile] at hiff
  rw [hiff, currentAfter, hok]
  split
  next hsize => simp [hsize]
  next hsize => simp [hsize, Except.isOk, Except.toBool]

-- Comparing results of calls must not evaluate the calls.
seal processFile in
/-- The first call cannot write the artifact, since a file is in its way; after that is gone, a
call with a new class writes the classes of both. -/
theorem processFile_current_of_later_class :
    let options : Options := { ignore := [], artifact := .ofString "blocker/classes.html" }
    let build : Build :=
      ⟨options, ⟨options.extensions.map listedExtension, []⟩, .empty, .new options.artifact⟩
    let work : Location := ["w".toList]
    let disk : Disk := (Disk.mk ∅ work).put work .directory
      |>.put (work ++ ["a.html".toList]) (.file (Text.encode "<p class:hover=\"x\">".toList))
      |>.put (work ++ ["b.html".toList]) (.file (Text.encode "<p class:focus=\"y\">".toList))
      |>.put (work ++ ["blocker".toList]) (.file .empty)
    let root : Path := .ofString "."
    let first := build.processFile disk root (.ofString "a.html") none
    let cleared := first.1.disk.remove (work ++ ["blocker".toList])
    let second := first.1.build.processFile cleared root (.ofString "b.html") none
    let classes := ClassSet.ofList ["focus:y".toList, "hover:x".toList]
    first.2 = .error (.disk (.ofString "blocker") .occupied) ∧
      second.2 = .ok .transformed ∧
      second.1.disk.read first.1.build.writer.path = .ok (renderArtifact classes).encode := by
  intro options build work disk root first cleared second classes
  have hfirst : build.Fed disk true :=
    .new (rfl : Build.new options = .ok build) (by decide +kernel)
  have hblocked : first.1.disk.read first.1.build.writer.path = .error .notDirectory := by
    decide +kernel
  have hmissing : cleared.read first.1.build.writer.path = .error .missing := by decide +kernel
  have hcleared := (hfirst.call root (.ofString "a.html")).of_unread (by decide +kernel) hblocked
    hmissing
  have hok : second.2 = .ok .transformed := by decide +kernel
  have hclasses : second.1.build.registry.classes = classes := by decide +kernel
  have hgrown : second.1.build.registry.size ≠ first.1.build.registry.size := by decide +kernel
  have hiff := processFile_current_iff hcleared hok (by rw [hclasses]; decide +kernel)
  refine ⟨by decide +kernel, hok, ?_⟩
  rw [← hclasses]
  exact hiff.mpr fun hsize => absurd hsize hgrown

seal processFile in
/-- A call that is tried again after the artifact could not be written ends well, and there is no
artifact. -/
theorem processFile_leaves_artifact_missing :
    let options : Options := { ignore := [], artifact := .ofString "blocker/classes.html" }
    let build : Build :=
      ⟨options, ⟨options.extensions.map listedExtension, []⟩, .empty, .new options.artifact⟩
    let work : Location := ["w".toList]
    let disk : Disk := (Disk.mk ∅ work).put work .directory
      |>.put (work ++ ["a.html".toList]) (.file (Text.encode "<p class:hover=\"x\">".toList))
      |>.put (work ++ ["blocker".toList]) (.file .empty)
    let root : Path := .ofString "."
    let first := build.processFile disk root (.ofString "a.html") none
    let cleared := first.1.disk.remove (work ++ ["blocker".toList])
    let second := first.1.build.processFile cleared root (.ofString "a.html") none
    first.1.build.Fed cleared false ∧
      second.2 = .ok .transformed ∧
      second.1.build.registry.classes = ClassSet.ofList ["hover:x".toList] ∧
      second.1.disk.read options.artifact = .error .missing := by
  intro options build work disk root first cleared second
  have hfirst : build.Fed disk true :=
    .new (rfl : Build.new options = .ok build) (by decide +kernel)
  have hcurrent : build.currentAfter disk root (.ofString "a.html") true = false := by
    decide +kernel
  have hblocked : first.1.disk.read first.1.build.writer.path = .error .notDirectory := by
    decide +kernel
  have hmissing : cleared.read first.1.build.writer.path = .error .missing := by decide +kernel
  have hcleared : first.1.build.Fed cleared false := by
    have hcall := hfirst.call root (.ofString "a.html")
    rw [hcurrent] at hcall
    exact hcall.of_unread (by decide +kernel) hblocked hmissing
  exact ⟨hcleared, by decide +kernel, by decide +kernel, by decide +kernel⟩

end VariantClasses.Build
