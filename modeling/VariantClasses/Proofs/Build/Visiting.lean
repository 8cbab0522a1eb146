import VariantClasses.Build.Session
import VariantClasses.Proofs.Disk.Growth

/-! # Visiting a file

A visit that succeeds writes the transformed text and records the classes
(`visit_of_canTransform`), and any other visit fails and records nothing (`visit_cases`).
Whatever becomes of it, the disk changes at the output of the file only (`visit_attempts`).
-/

namespace VariantClasses.Session

open Disk

/-! ## Writing and copying -/

/-- Something can be written at a path, with the directories above it. -/
def CanWrite (disk : Disk) (path : Path) : Prop :=
  ∃ text, (writeWithParents disk path text).2 = .ok ()

section Write

variable {disk after : Disk} {path : Path} {text : Text}

theorem writeWithParents_eq_ok_iff :
    writeWithParents disk path text = (after, .ok ()) ↔ disk.Deposits path text.encode after := by
  rw [writeWithParents, Deposits]
  constructor
  · intro h
    split at h
    next => cases h
    next made hmade =>
      split at h
      next => cases h
      next written hwritten =>
        cases h
        rw [hmade]
        exact ⟨rfl, hwritten⟩
  · intro h
    split
    next made fault hmade =>
      rw [hmade] at h
      cases h.1
    next made hmade =>
      rw [hmade] at h
      rw [h.2]

/-- A text is written, or no more than directories above it are made. -/
theorem writeWithParents_cases (disk : Disk) (path : Path) (text : Text) :
    disk.Deposits path text.encode (writeWithParents disk path text).1 ∨
      (writeWithParents disk path text).1 = (disk.makeDirectories path.directory).1 := by
  cases hwrite : writeWithParents disk path text with
  | mk after outcome =>
    cases outcome with
    | ok done => exact .inl (writeWithParents_eq_ok_iff.mp hwrite)
    | error failure =>
      right
      rw [writeWithParents] at hwrite
      split at hwrite
      next hmade =>
        cases hwrite
        rw [hmade]
      next hmade =>
        split at hwrite
        next =>
          cases hwrite
          rw [hmade]
        next => cases hwrite

theorem writeWithParents_attempts (disk : Disk) (path : Path) (text : Text) :
    Attempts path disk (writeWithParents disk path text).1 := by
  rcases writeWithParents_cases disk path text with hwritten | hmade
  · exact .deposit hwritten
  · rw [hmade]
    exact .make disk

theorem writeWithParents_snd_eq_ok_iff (htree : disk.IsTree) (hname : NamesFile path) :
    (writeWithParents disk path text).2 = .ok () ↔ disk.HasRoom path := by
  rw [← htree.exists_deposits_iff hname text.encode]
  simp only [← writeWithParents_eq_ok_iff]
  constructor
  · intro h
    exact ⟨_, Prod.ext rfl h⟩
  · intro h
    obtain ⟨after, h⟩ := h
    rw [h]

theorem canWrite_iff_hasRoom (htree : disk.IsTree) (hname : NamesFile path) :
    CanWrite disk path ↔ disk.HasRoom path := by
  simp only [CanWrite, writeWithParents_snd_eq_ok_iff htree hname, exists_const]

/-- What can be written at all names a file. -/
theorem CanWrite.namesFile (h : CanWrite disk path) : NamesFile path := by
  obtain ⟨text, hok⟩ := h
  exact (write_eq_ok_iff.mp (writeWithParents_eq_ok_iff.mp (Prod.ext rfl hok)).2).1

/-- Where one text can be written any text can be. -/
theorem CanWrite.any (htree : disk.IsTree) (h : CanWrite disk path) (text : Text) :
    (writeWithParents disk path text).2 = .ok () :=
  (writeWithParents_snd_eq_ok_iff htree h.namesFile).mpr
    ((canWrite_iff_hasRoom htree h.namesFile).mp h)

/-- A file that can be read can be written with the directories above it. -/
theorem canWrite_of_read {bytes : ByteArray} (htree : disk.IsTree)
    (hread : disk.read path = .ok bytes) : CanWrite disk path :=
  (canWrite_iff_hasRoom htree (htree.namesFile_of_read hread)).mpr (hasRoom_of_read hread)

/-- What can be written could be written before. -/
theorem canWrite_of_grows (h : disk.Grows after) (htree : disk.IsTree) (hafter : after.IsTree)
    (hcan : CanWrite after path) : CanWrite disk path := by
  have hname := hcan.namesFile
  rw [canWrite_iff_hasRoom hafter hname] at hcan
  exact (canWrite_iff_hasRoom htree hname).mpr (h.hasRoom hcan)

end Write

section PassThrough

variable {source target : Path}

@[simp]
theorem passThrough_build (session : Session) (source target : Path) :
    (session.passThrough source target).build = session.build := by
  unfold passThrough
  dsimp only
  split <;> rfl

/-- A file is copied, or no more than directories above the copy are made. -/
theorem passThrough_cases (session : Session) (source target : Path) :
    (∃ bytes, session.disk.Deposits target bytes (session.passThrough source target).disk) ∨
      (session.passThrough source target).disk =
        (session.disk.makeDirectories target.directory).1 := by
  rw [passThrough]
  cases hmade : session.disk.makeDirectories target.directory with
  | mk made room =>
    dsimp only
    split
    next copied hcopied =>
      obtain ⟨done, rfl, hcopy⟩ := bind_eq_ok_iff.mp hcopied
      obtain ⟨bytes, -, hwrite⟩ := copy_eq_ok_iff.mp hcopy
      refine .inl ⟨if made.place target = made.place source then .empty else bytes, ?_⟩
      rw [Deposits, hmade]
      exact ⟨rfl, hwrite⟩
    next => exact .inr rfl

theorem passThrough_attempts (session : Session) (source target : Path) :
    Attempts target session.disk (session.passThrough source target).disk := by
  rcases passThrough_cases session source target with ⟨bytes, hwritten⟩ | hmade
  · exact .deposit hwritten
  · rw [hmade]
    exact .make session.disk

/-- A file that can be read is copied to where there is room. Nothing is left of one that is copied
to itself. -/
theorem passThrough_deposits (session : Session) (htree : session.disk.IsTree)
    (hname : NamesFile target) (hroom : session.disk.HasRoom target) {bytes : ByteArray}
    (hread : session.disk.read source = .ok bytes) :
    session.disk.Deposits target
      (if session.disk.place target = session.disk.place source then .empty else bytes)
      (session.passThrough source target).disk := by
  obtain ⟨copied, hmake, hwrite⟩ := (htree.exists_deposits_iff hname
    (if session.disk.place target = session.disk.place source then .empty else bytes)).mpr hroom
  have hchanges := changes_makeDirectories_directory session.disk target
  have hcopy : (session.disk.makeDirectories target.directory).1.copy source target =
      .ok copied := by
    refine copy_eq_ok_iff.mpr ⟨bytes, hchanges.read hread (Set.notMem_empty _), ?_⟩
    rwa [hchanges.place_eq, hchanges.place_eq]
  rw [Deposits, passThrough]
  cases hmade : session.disk.makeDirectories target.directory with
  | mk made room =>
    rw [hmade] at hmake hwrite hcopy
    subst hmake
    dsimp only [Except.bind]
    rw [hcopy]
    exact ⟨rfl, hwrite⟩

/-- A file that can be read is passed through to where there is room. -/
theorem passThrough_read (session : Session) (htree : session.disk.IsTree)
    (hname : NamesFile target)
    (hroom : session.disk.HasRoom target) {bytes : ByteArray}
    (hread : session.disk.read source = .ok bytes)
    (hapart : session.disk.place target ≠ session.disk.place source) :
    (session.passThrough source target).disk.read target = .ok bytes := by
  have hwritten := passThrough_deposits session htree hname hroom hread
  rw [if_neg hapart] at hwritten
  exact hwritten.read

end PassThrough

/-! ## The output of a file -/

section Output

variable {disk : Disk} {file : Path} {output : Option Path} {text : Text}

theorem writeOutput_attempts (disk : Disk) (directory file : Path) (text : Text) :
    Attempts (directory.join file) disk (writeOutput disk (some directory) file text).1 :=
  writeWithParents_attempts disk _ text

theorem writeOutput_eq_ok_iff (htree : disk.IsTree) (hplain : file.IsPlain) :
    (writeOutput disk output file text).2 = .ok () ↔
      ∀ directory ∈ output, CanWrite disk (directory.join file) := by
  cases output with
  | none => simp [writeOutput]
  | some directory =>
    have hname : NamesFile (directory.join file) := namesFile_join hplain
    simp [writeOutput, writeWithParents_snd_eq_ok_iff htree hname, canWrite_iff_hasRoom htree hname]

theorem writeOutput_read (h : (writeOutput disk output file text).2 = .ok ()) :
    ∀ directory ∈ output,
      (writeOutput disk output file text).1.read (directory.join file) = .ok text.encode := by
  intro directory hdirectory
  obtain rfl := hdirectory
  exact (writeWithParents_eq_ok_iff.mp (Prod.ext rfl h)).read

end Output

/-! ## Transforming -/

/-- A file can be read as a text, and its output can be written. -/
def CanTransform (disk : Disk) (root file : Path) (output : Option Path) (text : Text) : Prop :=
  readSource disk (root.join file) = .ok text ∧
    ∀ directory ∈ output, CanWrite disk (directory.join file)

theorem readSource_eq_ok_iff {disk : Disk} {path : Path} {text : Text} :
    readSource disk path = .ok text ↔
      ∃ bytes, disk.read path = .ok bytes ∧ Text.decode? bytes = some text := by
  rw [readSource]
  cases disk.read path with
  | error fault => simp
  | ok bytes => cases hdecode : Text.decode? bytes <;> simp [hdecode]

section Transform

variable {session : Session} {root file : Path} {output : Option Path}

theorem transformOne_attempts (session : Session) (root file directory : Path) :
    Attempts (directory.join file) session.disk
      (session.transformOne root file (some directory)).1.disk := by
  rw [transformOne]
  split
  next => exact .none session.disk
  next text hread =>
    have hattempts := writeOutput_attempts session.disk directory file
      (transformFile session.build.options file text).code
    dsimp only
    split <;> exact hattempts

theorem transformOne_disk_of_none (session : Session) (root file : Path) :
    (session.transformOne root file none).1.disk = session.disk := by
  rw [transformOne]
  split <;> rfl

/-- Transforming leaves all of the build but the registry as it is. -/
theorem exists_transformOne_build (session : Session) (root file : Path) (output : Option Path) :
    ∃ registry,
      (session.transformOne root file output).1.build = { session.build with registry } := by
  rw [transformOne]
  split
  next => exact ⟨_, rfl⟩
  next text hread =>
    dsimp only
    split
    next => exact ⟨_, rfl⟩
    next => exact ⟨_, rfl⟩

/-- A file that can be transformed is written and recorded. -/
theorem transformOne_of_canTransform (htree : session.disk.IsTree) (hplain : file.IsPlain)
    {text : Text} (h : CanTransform session.disk root file output text) :
    (session.transformOne root file output).2 =
        .ok (if (transformFile session.build.options file text).changed then .transformed
          else .unchanged) ∧
      (session.transformOne root file output).1.build =
        { session.build with
          registry := session.build.registry.record file
            (transformFile session.build.options file text).variants.toList } ∧
      ∀ directory ∈ output,
        (session.transformOne root file output).1.disk.read (directory.join file) =
          .ok (transformFile session.build.options file text).code.encode := by
  have hok : (writeOutput session.disk output file
      (transformFile session.build.options file text).code).2 = .ok () :=
    (writeOutput_eq_ok_iff htree hplain).mpr h.2
  have hread := writeOutput_read hok
  cases hwrite : writeOutput session.disk output file
      (transformFile session.build.options file text).code with
  | mk after outcome =>
    rw [hwrite] at hok hread
    subst hok
    rw [transformOne, h.1]
    dsimp only
    rw [hwrite]
    exact ⟨rfl, rfl, hread⟩

/-- A file that cannot be transformed is not recorded. -/
theorem transformOne_of_not_canTransform (htree : session.disk.IsTree) (hplain : file.IsPlain)
    (h : ∀ text, ¬CanTransform session.disk root file output text) :
    (∃ failure, (session.transformOne root file output).2 = .error failure) ∧
      (session.transformOne root file output).1.build = session.build := by
  rw [transformOne]
  split
  next failure hread => exact ⟨⟨failure, rfl⟩, rfl⟩
  next text hread =>
    have hfailed : (writeOutput session.disk output file
        (transformFile session.build.options file text).code).2 ≠ .ok () := by
      rw [Ne, writeOutput_eq_ok_iff htree hplain]
      exact fun hwrite => h text ⟨hread, hwrite⟩
    dsimp only
    split
    next failure _ => exact ⟨⟨failure, rfl⟩, rfl⟩
    next hok => exact absurd hok hfailed

end Transform

/-! ## Visits -/

section Visit

variable {session : Session} {root file : Path} {output : Option Path}

theorem visit_attempts (session : Session) (root file directory : Path) :
    Attempts (directory.join file) session.disk
      (session.visit root file (some directory)).1.disk := by
  have hattempts := transformOne_attempts session root file directory
  rw [visit]
  split
  next after status h =>
    rw [h] at hattempts
    exact hattempts
  next after failure h =>
    rw [h] at hattempts
    exact hattempts.trans (passThrough_attempts { after with
      notices := after.notices ++ [.leftUnmodified failure file] } _ _)

theorem visit_disk_of_none (session : Session) (root file : Path) :
    (session.visit root file none).1.disk = session.disk := by
  have hdisk := transformOne_disk_of_none session root file
  rw [visit]
  split
  next after status h =>
    rw [h] at hdisk
    exact hdisk
  next after failure h =>
    rw [h] at hdisk
    exact hdisk

theorem visit_grows (session : Session) (root file : Path) (output : Option Path) :
    session.disk.Grows (session.visit root file output).1.disk := by
  cases output with
  | none =>
    rw [visit_disk_of_none]
    exact .refl _
  | some directory => exact (visit_attempts session root file directory).grows

theorem visit_isTree (session : Session) (h : session.disk.IsTree) (root file : Path)
    (output : Option Path) : (session.visit root file output).1.disk.IsTree := by
  cases output with
  | none => rwa [visit_disk_of_none]
  | some directory => exact (visit_attempts session root file directory).isTree h

/-- A visit leaves all of the build but the registry as it is. -/
theorem exists_visit_build (session : Session) (root file : Path) (output : Option Path) :
    ∃ registry, (session.visit root file output).1.build = { session.build with registry } := by
  obtain ⟨registry, hbuild⟩ := exists_transformOne_build session root file output
  refine ⟨registry, ?_⟩
  rw [visit]
  split
  next after status h =>
    rw [h] at hbuild
    exact hbuild
  next after failure h =>
    rw [h] at hbuild
    cases output with
    | none => exact hbuild
    | some directory => exact (passThrough_build _ _ _).trans hbuild

theorem visit_of_canTransform (htree : session.disk.IsTree) (hplain : file.IsPlain)
    {text : Text} (h : CanTransform session.disk root file output text) :
    (session.visit root file output).2 =
        (if (transformFile session.build.options file text).changed then .transformed
          else .unchanged) ∧
      (session.visit root file output).1.build.registry =
        session.build.registry.record file
          (transformFile session.build.options file text).variants.toList ∧
      ∀ directory ∈ output,
        (session.visit root file output).1.disk.read (directory.join file) =
          .ok (transformFile session.build.options file text).code.encode := by
  obtain ⟨hstatus, hbuild, hread⟩ := transformOne_of_canTransform htree hplain h
  cases htransform : session.transformOne root file output with
  | mk after outcome =>
    rw [htransform] at hstatus hbuild hread
    subst hstatus
    rw [visit, htransform]
    exact ⟨rfl, congrArg Build.registry hbuild, hread⟩

theorem visit_of_not_canTransform (htree : session.disk.IsTree) (hplain : file.IsPlain)
    (h : ∀ text, ¬CanTransform session.disk root file output text) :
    (session.visit root file output).2 = .failed ∧
      (session.visit root file output).1.build = session.build := by
  obtain ⟨⟨failure, hfailure⟩, hbuild⟩ := transformOne_of_not_canTransform htree hplain h
  cases htransform : session.transformOne root file output with
  | mk after outcome =>
    rw [htransform] at hfailure hbuild
    subst hfailure
    rw [visit, htransform]
    cases output with
    | none => exact ⟨rfl, hbuild⟩
    | some directory => exact ⟨rfl, (passThrough_build _ _ _).trans hbuild⟩

/-- A file is transformed, recorded and written, or it fails and nothing is recorded. -/
theorem visit_cases (session : Session) (root : Path) (output : Option Path)
    (htree : session.disk.IsTree) (hplain : file.IsPlain) :
    (∃ text, CanTransform session.disk root file output text ∧
      (session.visit root file output).2 =
          (if (transformFile session.build.options file text).changed then .transformed
            else .unchanged) ∧
        (session.visit root file output).1.build.registry =
          session.build.registry.record file
            (transformFile session.build.options file text).variants.toList) ∨
    (∀ text, ¬CanTransform session.disk root file output text) ∧
      (session.visit root file output).2 = .failed ∧
        (session.visit root file output).1.build = session.build := by
  by_cases hcan : ∃ text, CanTransform session.disk root file output text
  · obtain ⟨text, hcan⟩ := hcan
    obtain ⟨hstatus, hregistry, -⟩ := visit_of_canTransform htree hplain hcan
    exact .inl ⟨text, hcan, hstatus, hregistry⟩
  · rw [not_exists] at hcan
    exact .inr ⟨hcan, visit_of_not_canTransform htree hplain hcan⟩

/-- A file that can be read but is no text is passed through. -/
theorem visit_passes_through (htree : session.disk.IsTree) (hplain : file.IsPlain)
    {directory : Path} {bytes : ByteArray} (hread : session.disk.read (root.join file) = .ok bytes)
    (hdecode : Text.decode? bytes = none)
    (hroom : CanWrite session.disk (directory.join file))
    (hapart : session.disk.place (directory.join file) ≠ session.disk.place (root.join file)) :
    (session.visit root file (some directory)).1.disk.read (directory.join file) = .ok bytes := by
  have hname : NamesFile (directory.join file) := namesFile_join hplain
  have hsource : readSource session.disk (root.join file) = .error (.notUtf8 (root.join file)) := by
    rw [readSource, hread]
    dsimp only
    rw [hdecode]
  rw [visit, transformOne, hsource]
  exact passThrough_read { session with
    notices := session.notices ++ [.leftUnmodified (.notUtf8 (root.join file)) file] }
    htree hname ((canWrite_iff_hasRoom htree hname).mp hroom) hread hapart

end Visit

end VariantClasses.Session
