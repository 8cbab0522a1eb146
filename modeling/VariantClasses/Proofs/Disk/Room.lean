import VariantClasses.Proofs.Disk.Trees

/-! # Room for a file

A file can be written at a path, once the directories above it are made, when no file is in
their way, its place is not among them, and no directory is there (`HasRoom`). What is made
then are locations on the way only.
-/

namespace VariantClasses.Disk

variable {disk : Disk} {path : Path}

/-- No file is at any of the locations. -/
def Clear (disk : Disk) (way : List Location) : Prop :=
  ∀ location ∈ way, disk.file? location = none

/-- A file can be written at a path once the directories above it are made. -/
structure HasRoom (disk : Disk) (path : Path) : Prop where
  clear : disk.Clear (disk.way path)
  ahead : disk.place path ∉ disk.way path
  free : disk.entry? (disk.place path) ≠ some .directory

theorem entry?_eq_directory_of_file?_eq_none {location : Location}
    (h : disk.file? location = none) (hentry : disk.entry? location ≠ none) :
    disk.entry? location = some .directory := by
  rw [file?] at h
  split at h
  next => cases h
  next hfile =>
    obtain ⟨entry, hsome⟩ := Option.ne_none_iff_exists'.mp hentry
    cases entry with
    | file bytes => exact absurd hsome (hfile bytes)
    | directory => exact hsome

theorem Open.clear {way : List Location} (h : disk.Open way) : disk.Clear way := by
  intro location hlocation
  rw [file?, h location hlocation]

theorem clear_concat {way : List Location} {location : Location} :
    disk.Clear (way ++ [location]) ↔ disk.Clear way ∧ disk.file? location = none := by
  simp [Clear, or_imp, forall_and]

theorem open_concat {way : List Location} {location : Location} :
    disk.Open (way ++ [location]) ↔
      disk.Open way ∧ disk.entry? location = some .directory := by
  simp [Open, or_imp, forall_and]

theorem Changes.clear_iff {after : Disk} {made : Set Location} (h : disk.Changes after made ∅)
    {way : List Location} : after.Clear way ↔ disk.Clear way := by
  simp [Clear, h.file?_eq]

/-! ## Making directories -/

theorem isDirectory_iff (h : path.steps ≠ []) :
    disk.isDirectory path = true ↔
      disk.Open (disk.way path) ∧ disk.entry? (disk.place path) = some .directory := by
  rw [isDirectory]
  constructor
  · intro hdirectory
    split at hdirectory
    next location hlocate =>
      obtain ⟨-, hopen, rfl, -⟩ := locate_eq_ok_iff.mp hlocate
      rw [dropLast_passed_eq_way h] at hopen
      exact ⟨hopen, directoryFault?_eq_none_iff.mp (Option.isNone_iff_eq_none.mp hdirectory)⟩
    next => cases hdirectory
  · intro hdirectory
    obtain ⟨hopen, hentry⟩ := hdirectory
    have hlocate : disk.locate path = .ok (disk.place path) := by
      apply locate_eq_ok_iff.mpr
      rw [dropLast_passed_eq_way h]
      exact ⟨Path.text_ne_nil_of_steps_ne_nil h, hopen, rfl, _, hentry, fun _ => rfl⟩
    rw [hlocate]
    simp [directoryFault?_eq_none_iff.mpr hentry]

/-- What comes of making directories: it succeeds exactly when no file was on a way, which
is open then. -/
structure MakesWay (disk : Disk) (result : Disk × Except DiskFault Unit) (way : List Location) :
    Prop where
  ok_iff : result.2 = .ok () ↔ disk.Clear way
  opened : result.2 = .ok () → result.1.Open way

theorem makesWay_ok {after : Disk} {way : List Location} (hclear : disk.Clear way)
    (hopen : after.Open way) : disk.MakesWay (after, .ok ()) way :=
  ⟨⟨fun _ => hclear, fun _ => rfl⟩, fun _ => hopen⟩

theorem makesWay_error {after : Disk} {fault : DiskFault} {way : List Location}
    (h : ¬disk.Clear way) : disk.MakesWay (after, .error fault) way := by
  constructor
  · simpa using h
  · intro hok
    cases hok

/-- Where a directory is made there was nothing, and it is there then. -/
theorem makesWay_of_makeDirectory {after : Disk} (hmake : disk.makeDirectory path = .ok after) :
    disk.MakesWay (after, .ok ()) (disk.way path ++ [disk.place path]) := by
  obtain ⟨-, hopen, hfree, rfl⟩ := makeDirectory_eq_ok_iff.mp hmake
  have hne : disk.place path ≠ [] := ne_nil_of_entry?_ne (disk.entry?_ne_of_eq_none hfree)
  apply makesWay_ok
  · rw [clear_concat, file?, hfree]
    exact ⟨hopen.clear, rfl⟩
  · rw [open_concat]
    exact ⟨(changes_put_directory hfree).open_kept hopen, entry?_put_self hne disk _⟩

/-- A directory cannot be made where the way is not open, or where something is. -/
theorem IsTree.fault_of_makeDirectory (h : disk.IsTree) {last : Text} {fault : DiskFault}
    (hlast : path.steps.getLast? = some last) (hmake : disk.makeDirectory path = .error fault) :
    (disk.Open (disk.way path) ∧ disk.entry? (disk.place path) ≠ none ∧ fault = .occupied) ∨
      ∃ location ∈ disk.way path, disk.directoryFault? location = some fault := by
  rcases bind_eq_error hmake with happroach | ⟨⟨location, step⟩, happroach, hmake⟩
  · exact .inr (exists_fault_of_approach_eq_error hlast happroach)
  · left
    obtain rfl := (step_of_approach_eq_ok happroach).trans hlast
    obtain ⟨-, rfl, hopen⟩ := approach_eq_ok_iff.mp happroach
    have hbase := (open_passed_iff.mp hopen).2
    rw [place_eq_stepFrom hlast]
    dsimp only at hmake
    split at hmake
    next hoccupied =>
      refine ⟨hopen, ?_, (Except.error.inj hmake).symm⟩
      -- A dot leads to a directory that was passed, and two dots lead above it.
      by_cases hhere : last = Path.here
      · simp [stepFrom, hhere, hbase]
      by_cases hup : last = Path.up
      · rw [stepFrom, if_neg hhere, if_pos hup, h.directory_dropLast hbase]
        exact Option.some_ne_none _
      · rw [stepFrom, if_neg hhere, if_neg hup]
        simpa [hhere, hup, Option.isSome_iff_ne_none] using hoccupied
    next => cases hmake

/-- Nothing is missing at the end of an open way. -/
theorem IsTree.fault_ne_missing (h : disk.IsTree) {last : Text} {fault : DiskFault}
    (hlast : path.steps.getLast? = some last) (hopen : disk.Open (disk.way path))
    (hmake : disk.makeDirectory path = .error fault) : fault ≠ .missing := by
  rcases h.fault_of_makeDirectory hlast hmake with ⟨-, -, rfl⟩ | ⟨location, hmem, hclosed⟩
  · exact DiskFault.noConfusion
  · rw [directoryFault?_eq_none_iff.mpr (hopen location hmem)] at hclosed
    cases hclosed

theorem missing_of_directoryFault? {location : Location} {fault : DiskFault}
    (hclear : disk.file? location = none) (h : disk.directoryFault? location = some fault) :
    fault = .missing := by
  rw [directoryFault?] at h
  rw [file?] at hclear
  split at h <;> simp_all

/-- Where a directory cannot be made although nothing is missing, it is there already or a
file is in its way. -/
theorem IsTree.makesWay_of_fault (h : disk.IsTree) {last : Text} {fault : DiskFault}
    (hlast : path.steps.getLast? = some last) (hmake : disk.makeDirectory path = .error fault)
    (hfault : fault ≠ .missing) :
    disk.MakesWay (disk, if disk.isDirectory path then .ok () else .error fault)
      (disk.way path ++ [disk.place path]) := by
  have hsteps : path.steps ≠ [] := by
    intro hnil
    simp [hnil] at hlast
  have hopen : disk.isDirectory path = true ↔ disk.Open (disk.way path ++ [disk.place path]) := by
    rw [isDirectory_iff hsteps, open_concat]
  have hthere (hclear : disk.Clear (disk.way path ++ [disk.place path])) :
      disk.isDirectory path = true := by
    obtain ⟨hway, hplace⟩ := clear_concat.mp hclear
    rcases h.fault_of_makeDirectory hlast hmake with ⟨hopen, hentry, -⟩ | ⟨location, hmem, hclosed⟩
    · exact (isDirectory_iff hsteps).mpr
        ⟨hopen, entry?_eq_directory_of_file?_eq_none hplace hentry⟩
    · exact absurd (missing_of_directoryFault? (hway location hmem) hclosed) hfault
  by_cases hdirectory : disk.isDirectory path = true
  · rw [if_pos hdirectory]
    exact makesWay_ok (hopen.mp hdirectory).clear (hopen.mp hdirectory)
  · rw [if_neg hdirectory]
    exact makesWay_error fun hway => hdirectory (hthere hway)

/-- A directory is made, if it can be, after those above it that are missing. -/
theorem IsTree.makesWay_cons (h : disk.IsTree) {paths : List Path} {last : Text}
    (hlast : path.steps.getLast? = some last)
    (habove : disk.MakesWay (disk.makeChain paths) (disk.way path)) :
    disk.MakesWay (disk.makeChain (path :: paths)) (disk.way path ++ [disk.place path]) := by
  have hne : path.text ≠ [] := Path.text_ne_nil_of_steps_ne_nil fun hnil => by
    simp [hnil] at hlast
  have hchanges := changes_makeChain disk paths
  have htree := h.makeChain paths
  rw [Disk.makeChain, if_neg (by simpa using hne)]
  split
  next made hmade => exact makesWay_of_makeDirectory hmade
  next hmissing =>
    split
    next made fault hchain =>
      rw [hchain] at habove
      apply makesWay_error
      intro hclear
      cases habove.ok_iff.mpr (clear_concat.mp hclear).1
    next made hchain =>
      rw [hchain] at habove hchanges htree
      have hopen : made.Open (made.way path) := hchanges.way_eq path ▸ habove.opened rfl
      -- No file was written, so what was clear of files before is what is clear now.
      have hmakes {result : Disk × Except DiskFault Unit}
          (hresult : made.MakesWay result (made.way path ++ [made.place path])) :
          disk.MakesWay result (disk.way path ++ [disk.place path]) := by
        rw [hchanges.way_eq, hchanges.place_eq] at hresult
        exact ⟨hresult.ok_iff.trans hchanges.clear_iff, hresult.opened⟩
      split
      next after hafter => exact hmakes (makesWay_of_makeDirectory hafter)
      next fault hfault =>
        exact hmakes (htree.makesWay_of_fault hlast hfault
          (htree.fault_ne_missing hlast hopen hfault))
  next fault hpresent hfault => exact h.makesWay_of_fault hlast hfault hpresent

/-- Where paths start that are absolute or are not. -/
def startOf (disk : Disk) (absolute : Bool) : Location :=
  if absolute then [] else disk.workingDirectory

section Climb

variable {absolute : Bool} {paths : List Path} {steps : List Text} {name : Text}

theorem way_eq_passed (hstart : path.isAbsolute = absolute) (hway : path.steps = steps ++ [name]) :
    disk.way path = passed (disk.startOf absolute) steps := by
  rw [way, hway, List.dropLast_concat, start, hstart]
  rfl

theorem passed_startOf_concat (hstart : path.isAbsolute = absolute)
    (hway : path.steps = steps ++ [name]) :
    passed (disk.startOf absolute) (steps ++ [name]) = disk.way path ++ [disk.place path] := by
  rw [passed_concat, ← way_eq_passed hstart hway, place, hway, List.foldl_append, start, hstart]
  rfl

theorem place_mem_of_climb (h : Path.Climb absolute paths steps) :
    ∀ path ∈ paths, disk.place path ∈ passed (disk.startOf absolute) steps := by
  induction h with
  | base =>
    intro path hpath
    obtain rfl := List.mem_singleton.mp hpath
    cases absolute
    · exact List.mem_singleton_self _
    · exact List.mem_singleton_self _
  | dot below ih =>
    intro path hpath
    rw [passed_concat]
    exact List.mem_append_left _ (ih path hpath)
  | @step first paths steps name below hstart hway ih =>
    intro path hpath
    rcases List.mem_cons.mp hpath with rfl | hpath
    · rw [passed_startOf_concat hstart hway]
      exact List.mem_append_right _ List.mem_cons_self
    · rw [passed_concat]
      exact List.mem_append_left _ (ih path hpath)

/-- A dot passes the location where it is once more. -/
theorem mem_passed_dot {location other : Location} :
    other ∈ passed location (steps ++ [Path.here]) ↔ other ∈ passed location steps := by
  rw [passed_concat, stepFrom, if_pos rfl, passed_eq_concat]
  simp

/-- The directories along a climb can be made exactly when no file is in their way, and then
they are there. -/
theorem IsTree.makesWay_climb (h : disk.IsTree) (hclimb : Path.Climb absolute paths steps) :
    disk.MakesWay (disk.makeChain paths) (passed (disk.startOf absolute) steps) := by
  induction hclimb with
  | base =>
    have hopen : disk.Open (passed (disk.startOf absolute) []) := by
      cases absolute
      · simpa [Open, passed, startOf] using h.working
      · simp [Open, passed, startOf, entry?]
    have hchain : disk.makeChain [⟨if absolute then Path.top else []⟩] = (disk, .ok ()) := by
      cases absolute
      · rfl
      · rfl
    rw [hchain]
    exact makesWay_ok hopen.clear hopen
  | dot below ih =>
    constructor
    · simpa only [Clear, mem_passed_dot] using ih.ok_iff
    · simpa only [Open, mem_passed_dot] using ih.opened
  | step below hstart hway ih =>
    rw [← way_eq_passed hstart hway] at ih
    rw [passed_startOf_concat hstart hway]
    exact h.makesWay_cons (by rw [hway, List.getLast?_concat]) ih

end Climb

/-! ## Writing below directories that are made -/

theorem NamesFile.climb (h : NamesFile path) :
    Path.Climb path.isAbsolute (path.directory :: path.directory.above) path.steps.dropLast := by
  obtain ⟨hslash, last, hlast, hhere, -⟩ := h
  exact Path.climb_directory hlast hhere hslash

theorem IsTree.makesWay_directory (h : disk.IsTree) (hname : NamesFile path) :
    disk.MakesWay (disk.makeDirectories path.directory) (disk.way path) :=
  h.makesWay_climb hname.climb

/-- The locations of the directory of a path and of those above it. -/
def above (disk : Disk) (path : Path) : Set Location :=
  {location | ∃ other ∈ path.directory :: path.directory.above, location = disk.place other}

instance (disk : Disk) (path : Path) (location : Location) :
    Decidable (location ∈ disk.above path) :=
  inferInstanceAs (Decidable (∃ other ∈ path.directory :: path.directory.above, _))

theorem Changes.above_eq {after : Disk} {made written : Set Location}
    (h : disk.Changes after made written) (path : Path) : after.above path = disk.above path := by
  simp only [above, h.place_eq]

/-- The directories above a file are on its way. -/
theorem NamesFile.above_subset (h : NamesFile path) :
    disk.above path ⊆ {location | location ∈ disk.way path} := by
  intro location hlocation
  obtain ⟨other, hother, rfl⟩ := hlocation
  exact place_mem_of_climb h.climb other hother

theorem changes_makeDirectories_directory (disk : Disk) (path : Path) :
    disk.Changes (disk.makeDirectories path.directory).1 (disk.above path) ∅ :=
  changes_makeChain disk _

/-- A file is written at a path after the directories above it were made. -/
def Deposits (disk : Disk) (path : Path) (bytes : ByteArray) (after : Disk) : Prop :=
  (disk.makeDirectories path.directory).2 = .ok () ∧
    (disk.makeDirectories path.directory).1.write path bytes = .ok after

theorem Deposits.changes {bytes : ByteArray} {after : Disk} (h : disk.Deposits path bytes after) :
    disk.Changes after (disk.above path) {disk.place path} := by
  have hmake := changes_makeDirectories_directory disk path
  have hboth := hmake.trans (changes_of_write h.2)
  rwa [Set.union_empty, Set.empty_union, hmake.place_eq] at hboth

theorem Deposits.read {bytes : ByteArray} {after : Disk} (h : disk.Deposits path bytes after) :
    after.read path = .ok bytes :=
  read_of_write h.2

theorem Deposits.isTree {bytes : ByteArray} {after : Disk} (h : disk.Deposits path bytes after)
    (htree : disk.IsTree) : after.IsTree :=
  (htree.makeChain _).write h.2

/-- A file can be written at a path exactly when there is room. -/
theorem IsTree.exists_deposits_iff (h : disk.IsTree) (hname : NamesFile path)
    (bytes : ByteArray) : (∃ after, disk.Deposits path bytes after) ↔ disk.HasRoom path := by
  have hmake := h.makesWay_directory hname
  have hchanges := (changes_makeDirectories_directory disk path).mono hname.above_subset subset_rfl
  simp only [Deposits, write_eq_ok_iff, hchanges.way_eq, hchanges.place_eq]
  constructor
  · intro hwrite
    obtain ⟨after, hok, -, hopen, hfree, -⟩ := hwrite
    refine ⟨hmake.ok_iff.mp hok, ?_, ?_⟩
    · intro hmem
      exact hfree (hopen _ hmem)
    · intro hdirectory
      exact hfree (hchanges.directory_kept hdirectory)
  · intro hroom
    have hok := hmake.ok_iff.mpr hroom.clear
    refine ⟨_, hok, hname, hmake.opened hok, ?_, rfl⟩
    intro hdirectory
    rcases hchanges.directory_made hdirectory with hbefore | hmem
    · exact hroom.free hbefore
    · exact hroom.ahead hmem

/-- There is as much room after a change as before it that writes nothing on the way and
makes a directory in the place only if the place is on the way. -/
theorem Changes.hasRoom_iff {after : Disk} {made written : Set Location}
    (h : disk.Changes after made written)
    (hwritten : ∀ location ∈ disk.way path, location ∉ written)
    (hmade : disk.place path ∈ made → disk.place path ∈ disk.way path) :
    after.HasRoom path ↔ disk.HasRoom path := by
  have hclear : after.Clear (disk.way path) ↔ disk.Clear (disk.way path) := by
    apply forall₂_congr
    intro location hlocation
    rw [h.file?_eq (hwritten location hlocation)]
  constructor
  · intro hroom
    obtain ⟨hway, hahead, hfree⟩ := hroom
    rw [h.way_eq] at hway hahead
    rw [h.place_eq] at hahead hfree
    exact ⟨hclear.mp hway, hahead, fun hdirectory => hfree (h.directory_kept hdirectory)⟩
  · intro hroom
    obtain ⟨hway, hahead, hfree⟩ := hroom
    refine ⟨h.way_eq path ▸ hclear.mpr hway, ?_, ?_⟩
    · rwa [h.place_eq, h.way_eq]
    · rw [h.place_eq]
      intro hdirectory
      rcases h.directory_made hdirectory with hbefore | hmem
      · exact hfree hbefore
      · exact hahead (hmade hmem)

/-! ## Attempts to write -/

/-- What comes of attempts to write at a path: directories above it are made, and a file is
written if that can be done. -/
inductive Attempts (path : Path) : Disk → Disk → Prop
  | none (disk : Disk) : Attempts path disk disk
  | make (disk : Disk) : Attempts path disk (disk.makeDirectories path.directory).1
  | deposit {disk after : Disk} {bytes : ByteArray} (written : disk.Deposits path bytes after) :
    Attempts path disk after
  | trans {disk between after : Disk} (first : Attempts path disk between)
    (then_ : Attempts path between after) : Attempts path disk after

namespace Attempts

variable {after : Disk}

theorem changes (h : Attempts path disk after) :
    disk.Changes after (disk.above path) {disk.place path} := by
  induction h with
  | none disk => exact .refl disk _ _
  | make disk =>
    exact (changes_makeDirectories_directory disk path).mono subset_rfl (Set.empty_subset _)
  | deposit written => exact written.changes
  | @trans disk between after first then_ ihfirst ihthen =>
    rw [ihfirst.above_eq, ihfirst.place_eq] at ihthen
    have hboth := ihfirst.trans ihthen
    rwa [Set.union_self, Set.union_self] at hboth

theorem isTree (h : Attempts path disk after) (htree : disk.IsTree) : after.IsTree := by
  induction h with
  | none disk => exact htree
  | make disk => exact htree.makeChain _
  | deposit written => exact written.isTree htree
  | trans first then_ ihfirst ihthen => exact ihthen (ihfirst htree)

/-- Where there is no room, attempts write no file. -/
theorem changes_of_not_hasRoom (h : Attempts path disk after) (htree : disk.IsTree)
    (hname : NamesFile path) (hroom : ¬disk.HasRoom path) :
    disk.Changes after (disk.above path) ∅ := by
  induction h with
  | none disk => exact .refl disk _ _
  | make disk => exact changes_makeDirectories_directory disk path
  | deposit written =>
    exact absurd ((htree.exists_deposits_iff hname _).mp ⟨_, written⟩) hroom
  | @trans disk between after first then_ ihfirst ihthen =>
    have hfirst := ihfirst htree hroom
    have hbetween : ¬between.HasRoom path := by
      rwa [hfirst.hasRoom_iff (fun _ _ => Set.notMem_empty _) fun hplace =>
        hname.above_subset hplace]
    have hthen := ihthen (first.isTree htree) hbetween
    rw [hfirst.above_eq] at hthen
    have hboth := hfirst.trans hthen
    rwa [Set.union_self, Set.union_self] at hboth

end Attempts

end VariantClasses.Disk
