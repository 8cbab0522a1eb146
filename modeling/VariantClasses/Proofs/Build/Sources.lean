import VariantClasses.Build.Basic
import VariantClasses.Proofs.Disk.Trees

/-! # The sources of a build

The sources of a build on a tree are files below the root that can be read
(`isFileBelow_of_mem_sources`), in ascending order of their paths, so each of them once
(`ascending_sources`). None of them lies below another (`IsFileBelow.not_prefix`).
-/

namespace VariantClasses

namespace Disk

variable {disk : Disk} {root : Path}

/-! ## Files below a directory -/

/-- The way from a location to the file that an item of a disk is. -/
def below? (location : Location) (item : Location × Entry) : Option (List Text) :=
  match item.2, location.isPrefixOf? item.1 with
  | .file _, some (name :: names) => some (name :: names)
  | _, _ => none

theorem below?_eq_some_iff {location : Location} {item : Location × Entry} {names : List Text} :
    below? location item = some names ↔
      names ≠ [] ∧ ∃ bytes, item = (location ++ names, .file bytes) := by
  unfold below?
  constructor
  · intro h
    split at h
    next bytes name rest hentry hprefix =>
      obtain rfl := Option.some.inj h
      have hplace := List.isPrefixOf?_eq_some_iff_append_eq.mp hprefix
      exact ⟨List.cons_ne_nil name rest, bytes, Prod.ext hplace.symm hentry⟩
    next => cases h
  · intro h
    obtain ⟨hne, bytes, rfl⟩ := h
    obtain ⟨name, rest, rfl⟩ := List.exists_cons_of_ne_nil hne
    rw [List.isPrefixOf?_eq_some_iff_append_eq.mpr rfl]

theorem filesBelow_eq {location : Location} (h : disk.locate root = .ok location) :
    disk.filesBelow root = disk.entries.entries.filterMap (below? location) := by
  rw [filesBelow, h]
  rfl

theorem mem_filesBelow_iff {names : List Text} :
    names ∈ disk.filesBelow root ↔ ∃ location, disk.locate root = .ok location ∧ names ≠ [] ∧
      disk.file? (location ++ names) ≠ none := by
  cases hlocate : disk.locate root with
  | error fault => simp [filesBelow, hlocate]
  | ok location =>
    simp only [filesBelow_eq hlocate, List.mem_filterMap, below?_eq_some_iff,
      Except.ok.injEq, exists_eq_left']
    constructor
    · intro h
      obtain ⟨item, hmem, hne, bytes, rfl⟩ := h
      refine ⟨hne, ?_⟩
      have hfile : disk.file? (location ++ names) = some bytes := by
        rw [file?_eq_some_iff, entry?, if_neg (by simp [hne])]
        exact SortedMap.find?_eq_some_iff.mpr hmem
      simp [hfile]
    · intro h
      obtain ⟨hne, hfile⟩ := h
      obtain ⟨bytes, hbytes⟩ := Option.ne_none_iff_exists'.mp hfile
      rw [file?_eq_some_iff, entry?, if_neg (by simp [hne]), SortedMap.find?_eq_some_iff] at hbytes
      exact ⟨_, hbytes, hne, bytes, rfl⟩

theorem lt_of_append_lt {location names others : List Text}
    (h : location ++ names < location ++ others) : names < others := by
  induction location with
  | nil => exact h
  | cons name location ih =>
    rcases List.cons_lt_cons_iff.mp h with hlt | ⟨-, hrest⟩
    · exact absurd hlt (StrictTotal.irrefl name)
    · exact ih hrest

/-- Files are listed in the order of the names on the way to them. -/
theorem ascending_filesBelow (disk : Disk) (root : Path) : Ascending id (disk.filesBelow root) := by
  cases hlocate : disk.locate root with
  | error fault =>
    rw [filesBelow, hlocate]
    exact List.Pairwise.nil
  | ok location =>
    rw [filesBelow_eq hlocate]
    apply List.pairwise_filterMap.mpr
    apply disk.entries.ascending.imp
    intro item other hlt names hnames others hothers
    obtain ⟨-, bytes, rfl⟩ := below?_eq_some_iff.mp hnames
    obtain ⟨-, bytes, rfl⟩ := below?_eq_some_iff.mp hothers
    exact lt_of_append_lt hlt

/-- A file below a root, by its path from there. -/
structure IsFileBelow (disk : Disk) (root file : Path) : Prop where
  plain : file.IsPlain
  located : disk.Open (passed (disk.start root) root.steps)
  file : disk.file? (disk.place root ++ file.components) ≠ none

namespace IsFileBelow

variable {file other : Path}

theorem directory_above (h : disk.IsFileBelow root file) (htree : disk.IsTree)
    {front : List Text} (hfront : front <+: file.components) (hne : front ≠ file.components) :
    disk.entry? (disk.place root ++ front) = some .directory := by
  obtain ⟨bytes, hbytes⟩ := Option.ne_none_iff_exists'.mp h.file
  obtain ⟨rest, hrest⟩ := hfront
  rw [file?_eq_some_iff, ← hrest, ← List.append_assoc] at hbytes
  apply htree.directory_above hbytes
  rintro rfl
  exact hne (by simpa using hrest)

/-- A file below a root can be read. -/
theorem exists_read (h : disk.IsFileBelow root file) (htree : disk.IsTree) :
    ∃ bytes, disk.read (root.join file) = .ok bytes := by
  obtain ⟨bytes, hbytes⟩ := Option.ne_none_iff_exists'.mp h.file
  refine ⟨bytes, read_eq_ok_iff.mpr ⟨(namesFile_join h.plain).1, ?_, ?_⟩⟩
  · intro location hlocation
    rcases (mem_way_join h.plain).mp hlocation with hroot | ⟨front, hfront, hne, rfl⟩
    · exact h.located location hroot
    · exact h.directory_above htree hfront hne
  · rwa [place_join h.plain]

/-- No file lies below another. -/
theorem not_prefix (h : disk.IsFileBelow root file) (hother : disk.IsFileBelow root other)
    (htree : disk.IsTree) (hne : file.components ≠ other.components) :
    ¬file.components <+: other.components := by
  intro hprefix
  have hdirectory := hother.directory_above htree hprefix hne
  have hfile := h.file
  simp [file?, hdirectory] at hfile

end IsFileBelow

end Disk

/-! ## Sources -/

namespace Build

variable {build : Build} {disk : Disk} {root file : Path}

theorem exists_of_mem_sources (h : file ∈ build.sources disk root) :
    ∃ names ∈ disk.filesBelow root, Path.ofNames names = file := by
  rw [sources] at h
  obtain ⟨names, hnames, hfile⟩ := List.mem_map.mp (List.mem_filter.mp h).1
  exact ⟨names, (List.mem_filter.mp hnames).1, hfile⟩

theorem components_of_mem_filesBelow (htree : disk.IsTree) {names : List Text}
    (h : names ∈ disk.filesBelow root) :
    (Path.ofNames names).IsPlain ∧ (Path.ofNames names).components = names := by
  obtain ⟨location, -, hne, hfile⟩ := Disk.mem_filesBelow_iff.mp h
  obtain ⟨bytes, hbytes⟩ := Option.ne_none_iff_exists'.mp hfile
  have hnames : ∀ name ∈ names, Path.IsName name := fun name hname =>
    htree.isName_of_mem (Disk.file?_eq_some_iff.mp hbytes) name (List.mem_append_right _ hname)
  exact ⟨Path.isPlain_ofNames hne hnames, Path.components_ofNames hne hnames⟩

theorem isFileBelow_ofNames (htree : disk.IsTree) {names : List Text}
    (h : names ∈ disk.filesBelow root) : disk.IsFileBelow root (.ofNames names) := by
  obtain ⟨location, hlocate, hne, hfile⟩ := Disk.mem_filesBelow_iff.mp h
  obtain ⟨htext, hopen, rfl, -⟩ := Disk.locate_eq_ok_iff.mp hlocate
  obtain ⟨hplain, hcomponents⟩ := components_of_mem_filesBelow htree h
  obtain ⟨bytes, hbytes⟩ := Option.ne_none_iff_exists'.mp hfile
  have hroot := htree.directory_above (Disk.file?_eq_some_iff.mp hbytes) hne
  exact ⟨hplain, Disk.open_passed_iff.mpr ⟨hopen, hroot⟩, hcomponents.symm ▸ hfile⟩

theorem isFileBelow_of_mem_sources (htree : disk.IsTree) (h : file ∈ build.sources disk root) :
    disk.IsFileBelow root file := by
  obtain ⟨names, hnames, rfl⟩ := exists_of_mem_sources h
  exact isFileBelow_ofNames htree hnames

/-- The sources ascend by their components. -/
theorem ascending_sources (build : Build) (htree : disk.IsTree) (root : Path) :
    Ascending Path.components (build.sources disk root) := by
  apply List.Pairwise.filter
  apply List.pairwise_map.mpr
  apply List.Pairwise.filter
  apply (Disk.ascending_filesBelow disk root).imp_of_mem
  intro names others hnames hothers hlt
  rwa [(components_of_mem_filesBelow htree hnames).2,
    (components_of_mem_filesBelow htree hothers).2]

/-- The names below a root lead to a source. -/
structure IsSource (build : Build) (disk : Disk) (root : Path) (names : List Text) : Prop where
  located : ∃ location, disk.locate root = .ok location
  ne_nil : names ≠ []
  file : disk.file? (disk.place root ++ names) ≠ none
  other : disk.locate build.writer.path ≠ .ok (disk.place root ++ names)
  accepted : build.filter.accepts (.ofNames names) = true

theorem IsSource.plain {names : List Text} (h : build.IsSource disk root names)
    (htree : disk.IsTree) :
    (Path.ofNames names).IsPlain ∧ (Path.ofNames names).components = names := by
  obtain ⟨location, hlocate⟩ := h.located
  obtain ⟨-, -, rfl, -⟩ := Disk.locate_eq_ok_iff.mp hlocate
  exact components_of_mem_filesBelow htree
    (Disk.mem_filesBelow_iff.mpr ⟨_, hlocate, h.ne_nil, h.file⟩)

theorem mem_sources_iff :
    file ∈ build.sources disk root ↔ ∃ names, build.IsSource disk root names ∧
      Path.ofNames names = file := by
  constructor
  · intro h
    obtain ⟨hmem, haccepted⟩ := List.mem_filter.mp h
    obtain ⟨names, hnames, rfl⟩ := List.mem_map.mp hmem
    obtain ⟨hbelow, hother⟩ := List.mem_filter.mp hnames
    obtain ⟨location, hlocate, hne, hfile⟩ := Disk.mem_filesBelow_iff.mp hbelow
    obtain ⟨-, -, rfl, -⟩ := Disk.locate_eq_ok_iff.mp hlocate
    refine ⟨names, ⟨⟨_, hlocate⟩, hne, hfile, ?_, haccepted⟩, rfl⟩
    intro hartifact
    simp [hlocate, hartifact, Except.toOption] at hother
  · rintro ⟨names, ⟨⟨location, hlocate⟩, hne, hfile, hother, haccepted⟩, rfl⟩
    obtain ⟨-, -, rfl, -⟩ := Disk.locate_eq_ok_iff.mp hlocate
    refine List.mem_filter.mpr ⟨List.mem_map.mpr ⟨names, List.mem_filter.mpr
      ⟨Disk.mem_filesBelow_iff.mpr ⟨_, hlocate, hne, hfile⟩, ?_⟩, rfl⟩, haccepted⟩
    cases hartifact : disk.locate build.writer.path with
    | error fault => simp [Except.toOption]
    | ok location =>
      rw [hartifact] at hother
      simpa [Except.toOption, hlocate] using hother

theorem accepts_of_mem_sources (h : file ∈ build.sources disk root) :
    build.filter.accepts file = true :=
  (List.mem_filter.mp h).2

end Build

end VariantClasses
