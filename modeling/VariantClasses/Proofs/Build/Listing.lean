import VariantClasses.Proofs.Build.Sources
import VariantClasses.Proofs.Disk.Growth
import VariantClasses.Proofs.Disk.Walking

/-! # The list of the sources

A build lists exactly the files below a root that the filter accepts, without the artifact, in
ascending order. The artifact is told by the place that its path leads to, however the path and the
root are spelled. A walk from the root that picks the sources as it finds them, in whatever order
directories have their entries, and sorts them in the end comes to the same list
(`sources_exact`).
-/

namespace VariantClasses

/-! ## Walking from a root -/

namespace Disk

variable {disk : Disk} {root : Path} {found : List Location}

/-- A walk from where a path leads. Nothing is found where it leads nowhere. -/
def WalkFrom (disk : Disk) (root : Path) (found : List Location) : Prop :=
  match disk.locate root with
  | .ok location => disk.Walk [location] found
  | .error _ => found = []

theorem exists_walkFrom (disk : Disk) (root : Path) : ∃ found, disk.WalkFrom root found := by
  unfold WalkFrom
  split
  next location hlocate =>
    obtain ⟨-, -, rfl, entry, hentry, -⟩ := locate_eq_ok_iff.mp hlocate
    exact exists_walk (by simp [hentry])
  next => exact ⟨[], rfl⟩

theorem WalkFrom.mem_iff (h : disk.WalkFrom root found) (htree : disk.IsTree) {file : Location} :
    file ∈ found ↔ disk.file? file ≠ none ∧
      ∃ location, disk.locate root = .ok location ∧ location <+: file := by
  rw [WalkFrom] at h
  cases hlocate : disk.locate root with
  | error fault =>
    rw [hlocate] at h
    simp [h]
  | ok location =>
    rw [hlocate] at h
    simp [h.mem_iff htree]

theorem WalkFrom.nodup (h : disk.WalkFrom root found) (htree : disk.IsTree) : found.Nodup := by
  rw [WalkFrom] at h
  split at h
  next => exact h.nodup htree (List.pairwise_singleton _ _)
  next => exact h ▸ List.nodup_nil

/-! ## Files that can be read below a root -/

theorem isFileBelow_of_read {file : Path} {bytes : ByteArray} (hplain : file.IsPlain)
    (hread : disk.read (root.join file) = .ok bytes) : disk.IsFileBelow root file := by
  obtain ⟨-, hopen, -⟩ := read_eq_ok_iff.mp hread
  refine ⟨hplain, ?_, ?_⟩
  · exact fun location hlocation => hopen location ((mem_way_join hplain).mpr (.inl hlocation))
  · rw [← place_join hplain]
    exact file?_ne_none_of_read hread

/-- A root that a file lies below is a directory. -/
theorem IsFileBelow.locate_root {file : Path} (h : disk.IsFileBelow root file)
    (hroot : root.text ≠ []) : disk.locate root = .ok (disk.place root) := by
  obtain ⟨hopen, hdirectory⟩ := open_passed_iff.mp h.located
  exact locate_eq_ok_iff.mpr ⟨hroot, hopen, rfl, .directory, hdirectory, fun _ => rfl⟩

end Disk

/-! ## Sorting paths -/

namespace Path

/-- Whether one path stands before another or has the same components. -/
def upTo (path other : Path) : Bool :=
  !decide (other.components < path.components)

theorem upTo_trans (first second third : Path) (h : first.upTo second = true)
    (hnext : second.upTo third = true) : first.upTo third = true := by
  simp only [upTo, Bool.not_eq_true', decide_eq_false_iff_not] at h hnext ⊢
  intro hlt
  by_cases hsecond : first.components < second.components
  · exact hnext (StrictTotal.trans hlt hsecond)
  · exact hnext (StrictTotal.eq_of_not_lt hsecond h ▸ hlt)

theorem upTo_total (path other : Path) : (path.upTo other || other.upTo path) = true := by
  simp only [upTo, Bool.or_eq_true, Bool.not_eq_true', decide_eq_false_iff_not]
  by_contra h
  simp only [not_or, not_not] at h
  exact StrictTotal.irrefl _ (StrictTotal.trans h.1 h.2)

theorem lt_of_upTo {path other : Path} (h : path.upTo other = true)
    (hne : path.components ≠ other.components) : path.components < other.components := by
  simp only [upTo, Bool.not_eq_true', decide_eq_false_iff_not] at h
  by_contra hlt
  exact hne (StrictTotal.eq_of_not_lt hlt h)

end Path

namespace Build

variable {build : Build} {disk : Disk} {root file : Path} {found : List Location}

/-- The ways from a root to the files found below it that are not the artifact and that the filter
accepts. -/
def picks (build : Build) (disk : Disk) (root : Path) (found : List Location) : List (List Text) :=
  let artifact := (disk.locate build.writer.path).toOption
  let here := (disk.locate root).toOption.getD []
  ((found.filter fun location => artifact != some location).filterMap here.isPrefixOf?).filter
    fun names => build.filter.accepts (.ofNames names)

/-- The sources among the files that a walk from a root found. -/
def select (build : Build) (disk : Disk) (root : Path) (found : List Location) : List Path :=
  ((build.picks disk root found).map Path.ofNames).mergeSort Path.upTo

/-- A filter accepts no empty path. -/
theorem ne_nil_of_accepts {filter : FileFilter} {names : List Text}
    (h : filter.accepts (.ofNames names) = true) : names ≠ [] := by
  rintro rfl
  cases h

theorem mem_picks_iff (h : disk.WalkFrom root found) (htree : disk.IsTree) {names : List Text} :
    names ∈ build.picks disk root found ↔ build.IsSource disk root names := by
  simp only [picks, List.mem_filter, List.mem_filterMap, h.mem_iff htree,
    List.isPrefixOf?_eq_some_iff_append_eq]
  constructor
  · rintro ⟨⟨-, ⟨⟨hfile, location, hlocate, -⟩, hother⟩, rfl⟩, haccepted⟩
    obtain ⟨-, -, rfl, -⟩ := Disk.locate_eq_ok_iff.mp hlocate
    simp only [hlocate, Except.toOption, Option.getD_some] at hfile hother
    refine ⟨⟨_, hlocate⟩, ne_nil_of_accepts haccepted, hfile, ?_, haccepted⟩
    intro hartifact
    simp [hartifact] at hother
  · rintro ⟨⟨location, hlocate⟩, hne, hfile, hother, haccepted⟩
    obtain ⟨-, -, rfl, -⟩ := Disk.locate_eq_ok_iff.mp hlocate
    refine ⟨⟨_, ⟨⟨hfile, _, hlocate, List.prefix_append _ _⟩, ?_⟩, ?_⟩, haccepted⟩
    · cases hartifact : disk.locate build.writer.path with
      | error fault => rfl
      | ok location =>
        rw [hartifact] at hother
        simpa [Except.toOption] using hother
    · simp [hlocate, Except.toOption]

theorem nodup_picks (h : disk.WalkFrom root found) (htree : disk.IsTree) :
    (build.picks disk root found).Nodup := by
  apply List.Pairwise.filter
  apply List.pairwise_filterMap.mpr
  apply ((h.nodup htree).filter _).imp
  rintro location other hne names hnames others hothers rfl
  apply hne
  rw [← List.isPrefixOf?_eq_some_iff_append_eq.mp hnames,
    List.isPrefixOf?_eq_some_iff_append_eq.mp hothers]

/-- What is selected ascends, whatever the order in which it was found. -/
theorem ascending_select (h : disk.WalkFrom root found) (htree : disk.IsTree) :
    Ascending Path.components (build.select disk root found) := by
  have hplain {names : List Text} (hnames : names ∈ build.picks disk root found) :
      (Path.ofNames names).components = names :=
    (((mem_picks_iff h htree).mp hnames).plain htree).2
  have hnodup : ((build.picks disk root found).map Path.ofNames).Pairwise
      fun path other => path.components ≠ other.components := by
    apply List.pairwise_map.mpr
    apply (nodup_picks h htree).imp_of_mem
    intro names others hnames hothers hne
    rwa [hplain hnames, hplain hothers]
  have hsorted := List.pairwise_mergeSort Path.upTo_trans Path.upTo_total
    ((build.picks disk root found).map Path.ofNames)
  have hdistinct := hnodup.perm (List.mergeSort_perm _ Path.upTo).symm fun h heq => h heq.symm
  apply (hsorted.and hdistinct).imp
  intro path other hboth
  exact Path.lt_of_upTo hboth.1 hboth.2

/-- Walking from a root and sorting what is picked lists the sources, whatever the order of the
walk. -/
theorem select_eq_sources (h : disk.WalkFrom root found) (htree : disk.IsTree) :
    build.select disk root found = build.sources disk root := by
  apply (ascending_select h htree).eq_of_mem_iff (build.ascending_sources htree root)
  intro file
  simp only [select, List.mem_mergeSort, List.mem_map, mem_picks_iff h htree, mem_sources_iff]

/-! ## What is listed -/

/-- The list depends on where the root and the artifact are, and not on how their paths are
spelled. -/
theorem sources_eq_of_locate_eq {other : Build} {base : Path}
    (hfilter : other.filter = build.filter)
    (hartifact : disk.locate other.writer.path = disk.locate build.writer.path)
    (hroot : disk.locate base = disk.locate root) :
    other.sources disk base = build.sources disk root := by
  simp only [sources, Disk.filesBelow, hfilter, hartifact, hroot]

/-- The sources are the accepted files below the root except the artifact. -/
theorem mem_sources_iff_read (htree : disk.IsTree) (hroot : root.text ≠ []) :
    file ∈ build.sources disk root ↔
      file.IsPlain ∧ (∃ bytes, disk.read (root.join file) = .ok bytes) ∧
        build.filter.accepts file = true ∧
        disk.locate build.writer.path ≠ disk.locate (root.join file) := by
  constructor
  · intro h
    have hbelow := isFileBelow_of_mem_sources htree h
    obtain ⟨bytes, hread⟩ := hbelow.exists_read htree
    refine ⟨hbelow.plain, ⟨bytes, hread⟩, accepts_of_mem_sources h, ?_⟩
    obtain ⟨names, hsource, rfl⟩ := mem_sources_iff.mp h
    rw [Disk.locate_of_read hread, Disk.place_join hbelow.plain, (hsource.plain htree).2]
    exact hsource.other
  · rintro ⟨hplain, ⟨bytes, hread⟩, haccepted, hother⟩
    rw [Disk.locate_of_read hread, Disk.place_join hplain] at hother
    have hbelow := Disk.isFileBelow_of_read hplain hread
    exact mem_sources_iff.mpr ⟨file.components, ⟨⟨_, hbelow.locate_root hroot⟩, hplain.ne_nil,
      hbelow.file, hother, hplain.spelled.symm ▸ haccepted⟩, hplain.spelled⟩

/-- The sources are listed in ascending order. They are the accepted files below the root except
the artifact, whatever way leads to it, and a walk in any order finds them. -/
theorem sources_exact (htree : disk.IsTree) (hroot : root.text ≠ []) :
    Ascending Path.components (build.sources disk root) ∧
    (∀ file : Path, file ∈ build.sources disk root ↔
      file.IsPlain ∧ (∃ bytes, disk.read (root.join file) = .ok bytes) ∧
        build.filter.accepts file = true ∧
        disk.locate build.writer.path ≠ disk.locate (root.join file)) ∧
    (∀ (other : Build) (base : Path), other.filter = build.filter →
      disk.locate other.writer.path = disk.locate build.writer.path →
      disk.locate base = disk.locate root → other.sources disk base = build.sources disk root) ∧
    (∃ found, disk.WalkFrom root found) ∧
    ∀ found, disk.WalkFrom root found → build.select disk root found = build.sources disk root := by
  refine ⟨build.ascending_sources htree root, fun file => mem_sources_iff_read htree hroot, ?_,
    disk.exists_walkFrom root, fun found h => select_eq_sources h htree⟩
  intro other base hfilter hartifact hbase
  exact sources_eq_of_locate_eq hfilter hartifact hbase

/-- The artifact and the root are spelled with dots and repeated slashes. A directory stands before
a longer name, although its slash stands behind the dash. -/
theorem sources_exact_of_respelled_artifact :
    let file : Entry := .file ByteArray.empty
    let src : Location := ["src".toList]
    let disk : Disk := (((((Disk.mk ∅ []).put src .directory).put (src ++ ["a".toList])
      .directory).put (src ++ ["a".toList, "x.html".toList]) file).put (src ++ ["a-b.html".toList])
      file).put (src ++ ["out.html".toList]) file
    let artifact : Path := .ofString "src/a/..//./out.html"
    let build : Build := ⟨{}, ⟨["html".toList], []⟩, .empty, .new artifact⟩
    let root : Path := .ofString "./src//"
    disk.IsTree ∧ root.text ≠ [] ∧
      ∀ found, disk.WalkFrom root found →
        build.select disk root found = [.ofString "a/x.html", .ofString "a-b.html"] := by
  intro file src disk artifact build root
  have htree : disk.IsTree := by decide +kernel
  have hroot : root.text ≠ [] := by decide +kernel
  have hsources : build.sources disk root = [.ofString "a/x.html", .ofString "a-b.html"] := by
    decide +kernel
  obtain ⟨-, -, -, -, hselect⟩ := @sources_exact build disk root htree hroot
  exact ⟨htree, hroot, fun found h => (hselect found h).trans hsources⟩

end Build

end VariantClasses
