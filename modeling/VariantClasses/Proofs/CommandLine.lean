import VariantClasses.CommandLine
import VariantClasses.Proofs.Build.Contents

/-! # The exit code of a tree command

A tree command exits with 0 when its configuration is one, there is a directory with a source
file, and the artifact and the `.gitignore` are brought up to date, and with 1 otherwise. What the
files hold changes nothing about it, and where the outputs stay clear of the artifact and the
`.gitignore`, it is nothing to it which files fail (`run_exits`). An output on the way to the
artifact does change it (`run_exits_of_output_in_way`).
-/

namespace VariantClasses.CommandLine

open Session

variable {invocation : Invocation} {disk other : Disk} {source : Path}
  {output artifact : Option Path} {options others : Options} {build : Build}

/-! ## Options in effect -/

/-- The options are those of the configuration file, if one is given, and the defaults
otherwise. -/
def Invocation.Configures (invocation : Invocation) (disk : Disk) (options : Options) : Prop :=
  match invocation.config with
  | none => options = {}
  | some path => ∃ text, disk.readText path = .ok text ∧ Configuration.read text = .ok options

/-- The options with what the arguments say in place of what is configured. -/
def Invocation.applied (invocation : Invocation) (artifact : Option Path) (options : Options) :
    Options :=
  { options with
    maxDepth := invocation.maxDepth.getD options.maxDepth
    gitignore := options.gitignore && !invocation.noGitignore
    artifact := artifact.getD options.artifact }

theorem Invocation.Configures.unique (h : invocation.Configures disk options)
    (hothers : invocation.Configures disk others) : others = options := by
  rw [Configures] at h hothers
  cases hconfig : invocation.config with
  | none =>
    rw [hconfig] at h hothers
    rw [h, hothers]
  | some path =>
    rw [hconfig] at h hothers
    obtain ⟨text, htext, hread⟩ := h
    obtain ⟨other, hother, hreadOther⟩ := hothers
    rw [htext] at hother
    cases hother
    rw [hread] at hreadOther
    exact (Except.ok.inj hreadOther).symm

/-- A configuration is loaded with the flags applied, or it is none. -/
theorem Invocation.options_cases (invocation : Invocation) (disk : Disk) :
    (∃ options, invocation.Configures disk options ∧ invocation.options disk =
        .ok { options with
          maxDepth := invocation.maxDepth.getD options.maxDepth
          gitignore := options.gitignore && !invocation.noGitignore }) ∨
      (∀ options, ¬invocation.Configures disk options) ∧
        ∃ failure, invocation.options disk = .error failure := by
  unfold Invocation.options Configures
  cases invocation.config with
  | none => exact .inl ⟨{}, rfl, rfl⟩
  | some path =>
    dsimp only
    rw [Options.load]
    cases disk.readText path with
    | error fault => exact .inr ⟨by simp, _, rfl⟩
    | ok text =>
      dsimp only
      cases hread : Configuration.read text with
      | error fault => exact .inr ⟨by simp [hread], _, rfl⟩
      | ok options => exact .inl ⟨options, ⟨text, rfl, hread⟩, rfl⟩

/-- A tree command works under its configuration, or it stops when there is none. -/
theorem run_cases {arguments : List Text} (hparse : parse arguments = .ok invocation)
    (hcommand : invocation.command = .transformTree source output artifact) (disk : Disk)
    (input : ByteArray) :
    (∃ options, invocation.Configures disk options ∧
        run arguments disk input =
          runTree (invocation.applied artifact options) disk source output) ∨
      (∀ options, ¬invocation.Configures disk options) ∧
        ∃ message, run arguments disk input = .stopped disk message := by
  rw [run, hparse]
  dsimp only
  rcases invocation.options_cases disk with ⟨options, hconfigures, hoptions⟩ |
    ⟨hnone, failure, hoptions⟩
  · refine .inl ⟨options, hconfigures, ?_⟩
    rw [hoptions, hcommand]
    rfl
  · rw [hoptions]
    exact .inr ⟨hnone, _, rfl⟩

/-! ## Work on a tree -/

/-- Nothing is done before there is a directory to work on and a build to do it. -/
theorem runTree_stopped (h : disk.isDirectory source = false ∨
    ∃ pattern ∈ options.ignore, ∀ glob, Glob.ofText pattern ≠ .ok glob) :
    ∃ message, runTree options disk source output = .stopped disk message := by
  rw [runTree]
  rcases h with hsource | ⟨pattern, hpattern, hnone⟩
  · exact ⟨_, if_pos (by simp [hsource])⟩
  · split
    next => exact ⟨_, rfl⟩
    next =>
      split
      next => exact ⟨_, rfl⟩
      next build hbuild =>
        obtain ⟨glob, hglob⟩ := Build.exists_new_iff.mp ⟨build, hbuild⟩ pattern hpattern
        exact absurd hglob (hnone glob)

theorem Outcome.ofRun_exitCode (options : Options) (source : Path) (output : Option Path)
    (result : Build.Result) :
    (ofRun options source output result).exitCode = 0 ∨
      (ofRun options source output result).exitCode = 1 := by
  rw [ofRun]
  split
  next => exact .inr rfl
  next =>
    split
    next => exact .inr rfl
    next => exact .inl rfl

theorem runTree_exitCode (options : Options) (disk : Disk) (source : Path)
    (output : Option Path) :
    (runTree options disk source output).exitCode = 0 ∨
      (runTree options disk source output).exitCode = 1 := by
  rw [runTree]
  split
  next => exact .inr rfl
  next =>
    split
    next => exact .inr rfl
    next => exact Outcome.ofRun_exitCode _ _ _ _

/-- Two exit codes are the same when either is 0 exactly when the other is. -/
theorem exitCode_eq {code other : Nat} (hcode : code = 0 ∨ code = 1)
    (hother : other = 0 ∨ other = 1) (h : code = 0 ↔ other = 0) : code = other := by
  omega

/-- A run is reported to be done when it ends well on files. -/
theorem Outcome.ofRun_exitCode_eq_zero_iff {result : Build.Result} {files : List Path}
    (hfiles : ∀ summary, result.summary = .ok summary → summary.files = files.length) :
    (ofRun options source output result).exitCode = 0 ↔
      files ≠ [] ∧ ∃ summary, result.summary = .ok summary := by
  rw [ofRun]
  cases hsummary : result.summary with
  | error failure => simp
  | ok summary =>
    have hcount := hfiles summary hsummary
    by_cases hnone : files = []
    · simp [hcount, hnone]
    · simp [hcount, hnone]

/-- The work is done when the run of the build ends well on sources. -/
theorem runTree_exitCode_eq_zero_iff (hsource : disk.isDirectory source = true)
    (hbuild : Build.new options = .ok build) :
    (runTree options disk source output).exitCode = 0 ↔ build.sources disk source ≠ [] ∧
      ∃ summary, (build.run disk source output).summary = .ok summary := by
  rw [runTree, hsource, hbuild]
  exact Outcome.ofRun_exitCode_eq_zero_iff fun _ => Build.files_of_summary_run

/-- The exit code of the work on a tree depends on what the `.gitignore` holds, and on no other
file. -/
theorem runTree_exitCode_alike (htree : disk.IsTree) (halike : disk.Alike other)
    (hsame : ∀ build, Build.new options = .ok build →
      other.file? (disk.place build.gitignore) = disk.file? (disk.place build.gitignore)) :
    (runTree options other source output).exitCode =
      (runTree options disk source output).exitCode := by
  cases hsource : disk.isDirectory source with
  | false =>
    rw [runTree, runTree, halike.isDirectory_eq, hsource]
    rfl
  | true =>
    have hother : other.isDirectory source = true := by rw [halike.isDirectory_eq, hsource]
    cases hbuild : Build.new options with
    | error failure =>
      rw [runTree, runTree, hsource, hother, hbuild]
      rfl
    | ok build =>
      have hnew : build.writer.written = none := by
        rw [(Build.of_new hbuild).2]
        rfl
      apply exitCode_eq (runTree_exitCode _ _ _ _) (runTree_exitCode _ _ _ _)
      rw [runTree_exitCode_eq_zero_iff hother hbuild, runTree_exitCode_eq_zero_iff hsource hbuild,
        Build.exists_summary_run_iff (halike.isTree htree) hnew,
        Build.exists_summary_run_iff htree hnew, build.sources_alike htree halike,
        Build.canFinish_visits_alike_iff htree halike (hsame build hbuild)]

/-! ## Exit codes -/

/-- How a tree command exits. -/
structure Exits (invocation : Invocation) (disk : Disk) (source : Path)
    (output artifact : Option Path) (outcome : Outcome) : Prop where
  /-- The exit code is 0 exactly when there is a configuration, the source is a directory, every
  ignore pattern is one, some source file is found, and the artifact and, if that is on, the
  `.gitignore` next to it are brought up to date. -/
  zero_iff : outcome.exitCode = 0 ↔ ∃ options, invocation.Configures disk options ∧
    disk.isDirectory source = true ∧
    (∀ pattern ∈ options.ignore, ∃ glob, Glob.ofText pattern = .ok glob) ∧
    ∃ build, Build.new (invocation.applied artifact options) = .ok build ∧
      build.sources disk source ≠ [] ∧
      (build.visits disk source output).1.syncArtifact.2 = .ok () ∧
      ((options.gitignore && !invocation.noGitignore) = true →
        (build.visits disk source output).1.syncArtifact.1.ignoreArtifact.2 = .ok ())
  /-- There is no other exit code than 0 and 1. -/
  one : outcome.exitCode ≠ 0 → outcome.exitCode = 1
  /-- Where there are no outputs, or they stay clear of the artifact and the `.gitignore`, the disk
  before the command decides whether the artifact can be brought up to date, and with that the exit
  code. It is the same whichever files cannot be read, are no text or cannot be written, be that
  seen on the disk or not. -/
  unhindered (options : Options) (hconfigures : invocation.Configures disk options) (build : Build)
    (hbuild : Build.new (invocation.applied artifact options) = .ok build)
    (hclear : output = none ∨ build.OutputsClear disk source output) :
    (outcome.exitCode = 0 ↔ disk.isDirectory source = true ∧ build.sources disk source ≠ [] ∧
      build.CanFinish disk) ∧
    ∀ after seen, Visited source output ⟨{ build with registry := .empty }, disk, []⟩
        (build.sources disk source) after seen → disk.isDirectory source = true →
      (Outcome.ofRun (invocation.applied artifact options) source output
        (after.finish seen)).exitCode = outcome.exitCode
  /-- A command without a configuration, a directory or a pattern that it needs leaves the disk as
  it is. -/
  untouched (h : (∀ options, ¬invocation.Configures disk options) ∨
      disk.isDirectory source = false ∨
      ∃ options, invocation.Configures disk options ∧
        ∃ pattern ∈ options.ignore, ∀ glob, Glob.ofText pattern ≠ .ok glob) :
    outcome.exitCode = 1 ∧ outcome.disk = disk

/-- Another disk has the same directories and files, whatever they hold, but for the configuration
and the `.gitignore`, which hold the same. -/
structure Invocation.Agrees (invocation : Invocation) (artifact : Option Path)
    (disk other : Disk) : Prop where
  alike : disk.Alike other
  configures_iff (options : Options) :
    invocation.Configures other options ↔ invocation.Configures disk options
  gitignore (options : Options) (hconfigures : invocation.Configures disk options)
    (build : Build) (hbuild : Build.new (invocation.applied artifact options) = .ok build) :
    other.file? (disk.place build.gitignore) = disk.file? (disk.place build.gitignore)

/-- A command without a configuration stops. -/
theorem exits_stopped (hnone : ∀ options, ¬invocation.Configures disk options)
    (message : String) :
    Exits invocation disk source output artifact (.stopped disk message) where
  zero_iff := by
    refine iff_of_false (by simp [Outcome.stopped]) ?_
    rintro ⟨options, hconfigures, -⟩
    exact hnone options hconfigures
  one _ := rfl
  unhindered options hconfigures := absurd hconfigures (hnone options)
  untouched _ := ⟨rfl, rfl⟩

/-- A command with a configuration does its work on the tree. -/
theorem exits_runTree (htree : disk.IsTree) (hconfigures : invocation.Configures disk options) :
    Exits invocation disk source output artifact
      (runTree (invocation.applied artifact options) disk source output) := by
  have hstopped (h : disk.isDirectory source = false ∨
      ∃ pattern ∈ options.ignore, ∀ glob, Glob.ofText pattern ≠ .ok glob) :
      (runTree (invocation.applied artifact options) disk source output).exitCode = 1 ∧
        (runTree (invocation.applied artifact options) disk source output).disk = disk := by
    have hrun : ∃ message, runTree (invocation.applied artifact options) disk source output =
        .stopped disk message := runTree_stopped h
    obtain ⟨message, hrun⟩ := hrun
    rw [hrun]
    exact ⟨rfl, rfl⟩
  refine ⟨⟨?_, ?_⟩, (runTree_exitCode _ _ _ _).resolve_left, ?_, ?_⟩
  · intro hzero
    have hready : ¬(disk.isDirectory source = false ∨
        ∃ pattern ∈ options.ignore, ∀ glob, Glob.ofText pattern ≠ .ok glob) := by
      intro h
      rw [(hstopped h).1] at hzero
      cases hzero
    push Not at hready
    obtain ⟨hsource, hignore⟩ := hready
    rw [Bool.ne_false_iff] at hsource
    obtain ⟨build, hbuild⟩ :
        ∃ build, Build.new (invocation.applied artifact options) = .ok build :=
      Build.exists_new_iff.mpr hignore
    obtain ⟨hsources, hsummary⟩ := (runTree_exitCode_eq_zero_iff hsource hbuild).mp hzero
    obtain ⟨hwritten, hlisted⟩ := (build.exists_summary_run_iff_updated disk source output).mp
      hsummary
    rw [(Build.of_new hbuild).1] at hlisted
    exact ⟨options, hconfigures, hsource, hignore, build, hbuild, hsources, hwritten, hlisted⟩
  · rintro ⟨others, hothers, hsource, -, build, hbuild, hsources, hwritten, hlisted⟩
    obtain rfl := hconfigures.unique hothers
    rw [runTree_exitCode_eq_zero_iff hsource hbuild, build.exists_summary_run_iff_updated,
      (Build.of_new hbuild).1]
    exact ⟨hsources, hwritten, hlisted⟩
  · intro others hothers build hbuild houtput
    have hclear : build.OutputsClear disk source output := houtput.elim .of_none id
    obtain rfl := hconfigures.unique hothers
    have hnew : build.writer.written = none := by
      rw [(Build.of_new hbuild).2]
      rfl
    have hzero : (runTree (invocation.applied artifact others) disk source output).exitCode = 0 ↔
        disk.isDirectory source = true ∧ build.sources disk source ≠ [] ∧ build.CanFinish disk := by
      cases hsource : disk.isDirectory source with
      | false => simp [(hstopped (.inl hsource)).1]
      | true =>
        rw [runTree_exitCode_eq_zero_iff hsource hbuild, Build.run_eq_finish,
          hclear.exists_summary_iff htree hnew (build.visited_visits disk source output)]
        simp
    refine ⟨hzero, fun after seen hvisited hsource => ?_⟩
    apply exitCode_eq (Outcome.ofRun_exitCode _ _ _ _) (runTree_exitCode _ _ _ _)
    rw [hzero, Outcome.ofRun_exitCode_eq_zero_iff fun _ => hvisited.files_of_summary,
      hclear.exists_summary_iff htree hnew hvisited]
    simp [hsource]
  · rintro (hnone | hsource | ⟨others, hothers, hpattern⟩)
    · exact absurd hconfigures (hnone options)
    · exact hstopped (.inl hsource)
    · obtain rfl := hconfigures.unique hothers
      exact hstopped (.inr hpattern)

/-- Whatever the tree, the configuration and the arguments, a tree command exits so, and what the
files hold, but for the configuration and the `.gitignore`, is nothing to its exit code. -/
theorem run_exits {arguments : List Text} (hparse : parse arguments = .ok invocation)
    (hcommand : invocation.command = .transformTree source output artifact)
    (htree : disk.IsTree) (input : ByteArray) :
    Exits invocation disk source output artifact (run arguments disk input) ∧
      ∀ other, invocation.Agrees artifact disk other → ∀ others,
        (run arguments other others).exitCode = (run arguments disk input).exitCode := by
  rcases run_cases hparse hcommand disk input with ⟨options, hconfigures, hrun⟩ |
    ⟨hnone, message, hrun⟩
  · rw [hrun]
    refine ⟨exits_runTree htree hconfigures, fun other hagrees others => ?_⟩
    rcases run_cases hparse hcommand other others with ⟨found, hfound, hother⟩ | ⟨hnone, -⟩
    · obtain rfl := hconfigures.unique ((hagrees.configures_iff found).mp hfound)
      rw [hother]
      exact runTree_exitCode_alike htree hagrees.alike (hagrees.gitignore found hconfigures)
    · exact absurd ((hagrees.configures_iff options).mpr hconfigures) (hnone options)
  · rw [hrun]
    refine ⟨exits_stopped hnone message, fun other hagrees others => ?_⟩
    rcases run_cases hparse hcommand other others with ⟨found, hfound, -⟩ | ⟨-, again, hother⟩
    · exact absurd ((hagrees.configures_iff found).mp hfound) (hnone found)
    · rw [hother]
      rfl

-- Comparing exit codes must not evaluate the run.
seal run in
/-- One file is no text and another cannot be written, since a directory is in its place; the
command exits with 0 all the same, as it does when the one is a text. -/
theorem run_exits_of_failed_files :
    let work : Location := ["w".toList]
    let sources : Location := work ++ ["src".toList]
    let outputs : Location := work ++ ["out".toList]
    let page : Text := "<p class:hover=\"b\">".toList
    let written : Disk := (((((Disk.mk ∅ work).put work .directory).put sources .directory).put
      (sources ++ ["a.html".toList]) (.file page.encode)).put
      (sources ++ ["c.html".toList]) (.file page.encode)).put outputs .directory |>.put
      (outputs ++ ["c.html".toList]) .directory
    let disk : Disk := written.put (sources ++ ["b.html".toList]) (.file ⟨#[0xff]⟩)
    let repaired : Disk := written.put (sources ++ ["b.html".toList]) (.file page.encode)
    let source : Path := .ofString "src"
    let output : Option Path := some (.ofString "out")
    let options : Options := {}
    let filter := (FileFilter.ofOptions options).toOption.getD ⟨[], []⟩
    let build : Build := ⟨options, filter, .empty, .new options.artifact⟩
    let arguments := ["build", "src", "--out-dir", "out"].map String.toList
    let outcome := run arguments disk ByteArray.empty
    disk.IsTree ∧ Build.new options = .ok build ∧
      (build.visits disk source output).2.map Prod.snd = [.transformed, .failed, .failed] ∧
      (∃ after seen, Visited source output ⟨{ build with registry := .empty }, disk, []⟩
        (build.sources disk source) after seen ∧ seen.map Prod.snd = [.failed, .failed, .failed] ∧
        (Outcome.ofRun options source output (after.finish seen)).exitCode = 0) ∧
      Exits ⟨none, none, false, .transformTree source output none⟩ disk source output none
        outcome ∧ outcome.exitCode = 0 ∧
      (run arguments repaired ByteArray.empty).exitCode = 0 := by
  intro work sources outputs page written disk repaired source output options filter build arguments
    outcome
  have htree : disk.IsTree := by decide +kernel
  have hbuild : Build.new options = .ok build := by decide +kernel
  have hparse : parse arguments =
      .ok ⟨none, none, false, .transformTree source output none⟩ := rfl
  obtain ⟨hexits, hagree⟩ := run_exits hparse rfl htree ByteArray.empty
  have hclear : build.OutputsClear disk source output := by
    refine ⟨fun location hlocation hmem => ?_, by decide +kernel, by decide +kernel⟩
    have hapart : ∀ location ∈ disk.way build.writer.path,
        location ∉ outputPlaces disk output (build.sources disk source) := by decide +kernel
    exact hapart location hlocation (writtenPlaces_subset _ _ _ hmem)
  have hnone : disk.entry? (disk.place build.gitignore) = none := by decide +kernel
  have hcan : build.CanFinish disk := by
    refine ⟨⟨[], by decide +kernel⟩, fun _ => .inr ⟨by decide +kernel, by decide +kernel, ?_⟩⟩
    intro bytes hfile
    simp [Disk.file?_eq_some_iff, hnone] at hfile
  obtain ⟨hzero_iff, hhindered⟩ := hexits.unhindered options rfl build hbuild (.inr hclear)
  have hsource : disk.isDirectory source = true := by decide +kernel
  have hsources : build.sources disk source =
      .ofString "a.html" :: [.ofString "b.html", .ofString "c.html"] := by decide +kernel
  have hzero : outcome.exitCode = 0 :=
    hzero_iff.mpr ⟨hsource, by rw [hsources]; exact List.cons_ne_nil _ _, hcan⟩
  -- The first file cannot be read, so its visit leaves nothing.
  let session : Session := ⟨{ build with registry := .empty }, disk, []⟩
  let more := session.visitAll source output [.ofString "b.html", .ofString "c.html"]
  have hvisited : Visited source output session (build.sources disk source) more.1
      ((.ofString "a.html", .failed) :: more.2) := by
    rw [hsources]
    exact .failed [] ⟨htree, .refl disk, .refl disk _ _⟩ (visited_visitAll session _ _ _)
  refine ⟨htree, hbuild, by decide +kernel, ⟨_, _, hvisited, by decide +kernel, ?_⟩,
    hexits, hzero, ?_⟩
  · rw [← hzero]
    exact hhindered _ _ hvisited hsource
  rw [← hzero]
  apply hagree
  refine ⟨(Disk.Alike.refl written).put _ _ _, fun _ => Iff.rfl, ?_⟩
  rintro others hothers other hother
  obtain rfl : others = options := hothers
  obtain rfl := Except.ok.inj (hbuild.symm.trans hother)
  have hrepaired : repaired.entry? (disk.place build.gitignore) = none := by decide +kernel
  rw [Disk.file?, Disk.file?, hnone, hrepaired]

/-- An output that can be written stands on the way to the artifact, so the command exits with 1.
Where a directory is in the place of that output, it cannot be written, and the command exits
with 0. -/
theorem run_exits_of_output_in_way :
    let work : Location := ["w".toList]
    let sources : Location := work ++ ["src".toList]
    let outputs : Location := work ++ ["out".toList]
    let page : Text := "<p class:hover=\"b\">".toList
    let disk : Disk := ((((Disk.mk ∅ work).put work .directory).put sources .directory).put
      (sources ++ ["a.html".toList]) (.file page.encode)).put outputs .directory
    let hindered : Disk := disk.put (outputs ++ ["a.html".toList]) .directory
    let arguments := ["build", "src", "--out-dir", "out", "--artifact",
      "out/a.html/classes.html"].map String.toList
    let invocation : Invocation := ⟨none, none, false, .transformTree (.ofString "src")
      (some (.ofString "out")) (some (.ofString "out/a.html/classes.html"))⟩
    let options := invocation.applied (some (.ofString "out/a.html/classes.html")) {}
    let filter := (FileFilter.ofOptions options).toOption.getD ⟨[], []⟩
    let build : Build := ⟨options, filter, .empty, .new options.artifact⟩
    parse arguments = .ok invocation ∧ Build.new options = .ok build ∧
      ((build.visits disk (.ofString "src") (some (.ofString "out"))).2.map Prod.snd =
          [.transformed] ∧
        (run arguments disk ByteArray.empty).exitCode = 1) ∧
      (build.visits hindered (.ofString "src") (some (.ofString "out"))).2.map Prod.snd =
          [.failed] ∧
        (run arguments hindered ByteArray.empty).exitCode = 0 := by
  intro work sources outputs page disk hindered arguments invocation options filter build
  exact ⟨rfl, by decide +kernel, ⟨by decide +kernel, by decide +kernel⟩, by decide +kernel,
    by decide +kernel⟩

end VariantClasses.CommandLine
