import VariantClasses.Proofs.Disk.Growth

/-! # Disks alike

Disks are alike when they have the same directories and the same files, whatever the files hold.
Operations fail on both or on none, and leave disks that are alike (`Alike.makeChain`,
`Alike.write`). To make directories a second time changes nothing (`IsTree.makeChain_again`), so an
attempt to write that fails leaves the same disk when it is made again (`Tries.again`).
-/

namespace VariantClasses.Disk

/-- The same directories and the same files, whatever the files hold. -/
structure Alike (disk other : Disk) : Prop where
  grows : disk.Grows other
  back : other.Grows disk

variable {disk other after : Disk} {path : Path} {location : Location}

theorem entry?_eq_none_iff :
    disk.entry? location = none ↔
      disk.entry? location ≠ some .directory ∧ disk.file? location = none := by
  rw [file?]
  cases disk.entry? location with
  | none => simp
  | some entry => cases entry <;> simp

theorem isDirectory_eq_true_iff :
    disk.isDirectory path = true ↔
      ∃ location, disk.locate path = .ok location ∧ disk.entry? location = some .directory := by
  rw [isDirectory]
  cases disk.locate path with
  | error fault => simp
  | ok location => simp [directoryFault?_eq_none_iff]

/-- Entries of the same kind at one location keep what grew growing. -/
theorem Grows.put {entry found : Entry} (h : disk.Grows other)
    (hkind : entry = .directory ↔ found = .directory) (location : Location) :
    (disk.put location entry).Grows (other.put location found) := by
  have hself (hne : location ≠ []) := entry?_put_self hne disk entry
  have hfound (hne : location ≠ []) := entry?_put_self hne other found
  refine ⟨h.workingDirectory, ?_, ?_⟩
  · intro place hdirectory
    by_cases heq : place = location
    · subst heq
      by_cases hnil : place = []
      · simp [hnil, entry?]
      · rw [hself hnil, Option.some_inj] at hdirectory
        rw [hfound hnil, hkind.mp hdirectory]
    · rw [entry?_put_of_ne heq] at hdirectory ⊢
      exact h.directory_kept hdirectory
  · intro place hfile
    by_cases heq : place = location
    · subst heq
      by_cases hnil : place = []
      · simp [hnil, entry?, file?] at hfile
      · rw [file?, hself hnil] at hfile
        rw [file?, hfound hnil]
        cases found with
        | file bytes => simp
        | directory => simp [hkind.mpr rfl] at hfile
    · rw [file?, entry?_put_of_ne heq, ← file?] at hfile ⊢
      exact h.file_kept hfile

namespace Alike

theorem refl (disk : Disk) : disk.Alike disk :=
  ⟨.refl disk, .refl disk⟩

theorem symm (h : disk.Alike other) : other.Alike disk :=
  ⟨h.back, h.grows⟩

theorem trans (h : disk.Alike other) (hnext : other.Alike after) : disk.Alike after :=
  ⟨h.grows.trans hnext.grows, hnext.back.trans h.back⟩

theorem directory_iff (h : disk.Alike other) (location : Location) :
    other.entry? location = some .directory ↔ disk.entry? location = some .directory :=
  ⟨h.back.directory_kept, h.grows.directory_kept⟩

theorem file_iff (h : disk.Alike other) (location : Location) :
    other.file? location = none ↔ disk.file? location = none :=
  not_iff_not.mp ⟨h.back.file_kept, h.grows.file_kept⟩

theorem none_iff (h : disk.Alike other) (location : Location) :
    other.entry? location = none ↔ disk.entry? location = none := by
  rw [entry?_eq_none_iff, entry?_eq_none_iff, Ne, Ne, h.directory_iff, h.file_iff]

theorem hasRoom_iff (h : disk.Alike other) : other.HasRoom path ↔ disk.HasRoom path :=
  ⟨h.grows.hasRoom, h.back.hasRoom⟩

theorem locate_eq_ok_iff (h : disk.Alike other) :
    other.locate path = .ok location ↔ disk.locate path = .ok location :=
  ⟨h.back.locate, h.grows.locate⟩

theorem isDirectory_eq (h : disk.Alike other) (path : Path) :
    other.isDirectory path = disk.isDirectory path := by
  rw [Bool.eq_iff_iff, isDirectory_eq_true_iff, isDirectory_eq_true_iff]
  simp only [h.locate_eq_ok_iff, h.directory_iff]

theorem isTree (h : disk.Alike other) (htree : disk.IsTree) : other.IsTree where
  working := by
    rw [h.grows.workingDirectory]
    exact h.grows.directory_kept htree.working
  below {front name entry} hentry := by
    have hsome : disk.entry? (front ++ [name]) ≠ none := by
      rw [Ne, ← h.none_iff, hentry]
      exact Option.some_ne_none entry
    obtain ⟨found, hfound⟩ := Option.ne_none_iff_exists'.mp hsome
    obtain ⟨hname, hfront⟩ := htree.below hfound
    exact ⟨hname, h.grows.directory_kept hfront⟩

/-! ## Making directories -/

theorem directoryFault?_eq (h : disk.Alike other) (location : Location) :
    other.directoryFault? location = disk.directoryFault? location := by
  have hdirectory := h.directory_iff location
  have hnone := h.none_iff location
  unfold directoryFault?
  cases hentry : disk.entry? location with
  | none => simp [hnone.mpr hentry]
  | some entry =>
    cases hother : other.entry? location with
    | none => simp [hnone.mp hother] at hentry
    | some found =>
      rw [hentry, hother, Option.some_inj, Option.some_inj] at hdirectory
      cases entry <;> cases found <;> simp_all

theorem approach_eq (h : disk.Alike other) (path : Path) :
    other.approach path = disk.approach path := by
  have hwalk (location : Location) (steps : List Text) :
      other.walk location steps = disk.walk location steps := by
    induction steps generalizing location with
    | nil => rfl
    | cons step steps ih => simp only [walk, h.directoryFault?_eq, ih]
  simp only [approach, hwalk, h.directoryFault?_eq, h.grows.start_eq]

theorem makeDirectory (h : disk.Alike other) (path : Path) :
    (∃ fault, disk.makeDirectory path = .error fault ∧
        other.makeDirectory path = .error fault) ∨
      ∃ made found, disk.makeDirectory path = .ok made ∧
        other.makeDirectory path = .ok found ∧ made.Alike found := by
  have hsome (location : Location) :
      (other.entry? location).isSome = (disk.entry? location).isSome := by
    rw [Bool.eq_iff_iff, ← Option.ne_none_iff_isSome, ← Option.ne_none_iff_isSome, Ne, Ne,
      h.none_iff]
  simp only [Disk.makeDirectory, h.approach_eq, hsome]
  cases disk.approach path with
  | error fault => exact .inl ⟨fault, rfl, rfl⟩
  | ok approached =>
    obtain ⟨location, _ | last⟩ := approached
    · exact .inl ⟨_, rfl, rfl⟩
    · dsimp only [Except.bind]
      split
      next => exact .inl ⟨_, rfl, rfl⟩
      next =>
        exact .inr ⟨_, _, rfl, rfl, h.grows.put Iff.rfl _, h.back.put Iff.rfl _⟩

/-- Directories are made on both disks or on none, as far as that goes. -/
theorem makeChain (h : disk.Alike other) (paths : List Path) :
    (disk.makeChain paths).1.Alike (other.makeChain paths).1 ∧
      (other.makeChain paths).2 = (disk.makeChain paths).2 := by
  induction paths with
  | nil => exact ⟨h, rfl⟩
  | cons path above ih =>
    rw [Disk.makeChain, Disk.makeChain]
    by_cases hnil : path.text.isEmpty = true
    · rw [if_pos hnil, if_pos hnil]
      exact ⟨h, rfl⟩
    rw [if_neg hnil, if_neg hnil]
    rcases h.makeDirectory path with ⟨fault, hmake, hother⟩ | ⟨made, found, hmake, hother, halike⟩
    · rw [hmake, hother]
      cases fault with
      | missing =>
        dsimp only
        obtain ⟨hchain, houtcome⟩ := ih
        cases hdisk : disk.makeChain above with
        | mk made outcome =>
          cases hfound : other.makeChain above with
          | mk found others =>
            rw [hdisk, hfound] at hchain houtcome
            dsimp only at hchain houtcome
            subst houtcome
            cases others with
            | error fault => exact ⟨hchain, rfl⟩
            | ok done =>
              dsimp only
              rcases hchain.makeDirectory path with ⟨fault, hmake, hother⟩ |
                ⟨after, last, hmake, hother, halike⟩
              · rw [hmake, hother]
                exact ⟨hchain, by dsimp only; rw [hchain.isDirectory_eq]⟩
              · rw [hmake, hother]
                exact ⟨halike, rfl⟩
      | _ => exact ⟨h, by dsimp only; rw [h.isDirectory_eq]⟩
    · rw [hmake, hother]
      exact ⟨halike, rfl⟩

theorem put (h : disk.Alike other) (location : Location) (bytes others : ByteArray) :
    (disk.put location (.file bytes)).Alike (other.put location (.file others)) :=
  ⟨h.grows.put (by simp) location, h.back.put (by simp) location⟩

/-- A file is written on both disks or on none. -/
theorem write (h : disk.Alike other) {bytes : ByteArray}
    (hwrite : disk.write path bytes = .ok after) (others : ByteArray) :
    ∃ last, other.write path others = .ok last ∧ after.Alike last := by
  obtain ⟨hname, hopen, hfree, rfl⟩ := write_eq_ok_iff.mp hwrite
  refine ⟨_, write_eq_ok_iff.mpr ⟨hname, ?_, ?_, rfl⟩, ?_⟩
  · intro location hlocation
    rw [h.grows.way_eq] at hlocation
    exact h.grows.directory_kept (hopen location hlocation)
  · rwa [h.grows.place_eq, Ne, h.directory_iff]
  · rw [h.grows.place_eq]
    exact h.put _ _ _

end Alike

/-! ## Making directories again -/

/-- A directory that cannot be made is not made. -/
theorem makeChain_cons_of_fault {fault : DiskFault} {above : List Path}
    (hmake : disk.makeDirectory path = .error fault) (hfault : fault ≠ .missing) :
    (disk.makeChain (path :: above)).1 = disk := by
  rw [makeChain]
  split
  next => rfl
  next =>
    rw [hmake]
    cases fault with
    | missing => exact absurd rfl hfault
    | _ => rfl

/-- Where there is something, no directory is made. -/
theorem IsTree.makeChain_cons_of_there (h : disk.IsTree) {last : Text} {above : List Path}
    (hlast : path.steps.getLast? = some last) (hopen : disk.Open (disk.way path))
    (hthere : disk.entry? (disk.place path) ≠ none) :
    (disk.makeChain (path :: above)).1 = disk := by
  cases hmake : disk.makeDirectory path with
  | ok made => exact absurd (makeDirectory_eq_ok_iff.mp hmake).2.2.1 hthere
  | error fault =>
    exact makeChain_cons_of_fault hmake (h.fault_ne_missing hlast hopen hmake)

theorem IsTree.makeChain_cons_of_made (h : disk.IsTree) {last : Text} {above : List Path}
    (hlast : path.steps.getLast? = some last) (hmake : disk.makeDirectory path = .ok after) :
    (after.makeChain (path :: above)).1 = after := by
  obtain ⟨hopen, hplace⟩ := open_concat.mp ((makesWay_of_makeDirectory hmake).opened rfl)
  have hchanges := changes_of_makeDirectory hmake
  apply (h.makeDirectory hmake).makeChain_cons_of_there hlast
  · rwa [hchanges.way_eq]
  · rw [hchanges.place_eq, hplace]
    exact Option.some_ne_none _

/-- When a directory is missing above one, those above are made first. -/
theorem makeChain_cons_of_missing {above : List Path} (hne : ¬path.text.isEmpty = true)
    (hmake : disk.makeDirectory path = .error .missing) :
    (disk.makeChain (path :: above)).1 =
      match disk.makeChain above with
      | (made, .error _) => made
      | (made, .ok ()) => (made.makeDirectory path).toOption.getD made := by
  rw [makeChain, if_neg hne, hmake]
  dsimp only
  cases disk.makeChain above with
  | mk made outcome =>
    cases outcome with
    | error fault => rfl
    | ok done =>
      dsimp only
      cases made.makeDirectory path <;> rfl

/-- A directory that cannot be made is not made when nothing above it is. -/
theorem makeChain_cons_eq_self {above : List Path} (habove : (disk.makeChain above).1 = disk)
    (hmake : ∀ after, disk.makeDirectory path ≠ .ok after) :
    (disk.makeChain (path :: above)).1 = disk := by
  by_cases hne : path.text.isEmpty = true
  · rw [makeChain, if_pos hne]
  cases hresult : disk.makeDirectory path with
  | ok after => exact absurd hresult (hmake after)
  | error fault =>
    by_cases hmissing : fault = .missing
    · subst hmissing
      rw [makeChain_cons_of_missing hne hresult]
      cases hchain : disk.makeChain above with
      | mk made outcome =>
        obtain rfl : made = disk := by rwa [hchain] at habove
        cases outcome with
        | error fault => rfl
        | ok done => simp [hresult, Except.toOption]
    · exact makeChain_cons_of_fault hresult hmissing

/-- To make the directories along a climb a second time changes nothing, whether or not all of them
could be made. -/
theorem IsTree.makeChain_again {absolute : Bool} {paths : List Path} {steps : List Text}
    (h : disk.IsTree) (hclimb : Path.Climb absolute paths steps) :
    ((disk.makeChain paths).1.makeChain paths).1 = (disk.makeChain paths).1 := by
  induction hclimb with
  | base => cases absolute <;> rfl
  | dot below ih => exact ih
  | @step path paths steps name below hstart hway ih =>
    have hlast : path.steps.getLast? = some name := by rw [hway, List.getLast?_concat]
    have hne : ¬path.text.isEmpty = true := by
      simpa using Path.text_ne_nil_of_steps_ne_nil (by simp [hway])
    cases hmake : disk.makeDirectory path with
    | ok made =>
      have hfirst : (disk.makeChain (path :: paths)).1 = made := by
        rw [Disk.makeChain, if_neg hne, hmake]
      rw [hfirst, h.makeChain_cons_of_made hlast hmake]
    | error fault =>
      by_cases hfault : fault = .missing
      · subst hfault
        rw [makeChain_cons_of_missing hne hmake]
        have hmakes := h.makesWay_climb below
        have hchanges := changes_makeChain disk paths
        have htree := h.makeChain paths
        rw [← way_eq_passed hstart hway] at hmakes
        cases hchain : disk.makeChain paths with
        | mk made outcome =>
          rw [hchain] at hmakes hchanges htree ih
          cases outcome with
          | error fault =>
            refine makeChain_cons_eq_self ih fun after hafter => ?_
            -- What kept the directories above from being made keeps this one from it.
            have hclear := (makeDirectory_eq_ok_iff.mp hafter).2.1.clear
            rw [hchanges.way_eq, hchanges.clear_iff] at hclear
            cases hmakes.ok_iff.mpr hclear
          | ok done =>
            cases hnext : made.makeDirectory path with
            | ok after =>
              simpa [hnext, Except.toOption] using htree.makeChain_cons_of_made hlast hnext
            | error fault =>
              simpa [hnext, Except.toOption] using
                makeChain_cons_eq_self ih (by simp [hnext])
      · rw [makeChain_cons_of_fault hmake hfault, makeChain_cons_of_fault hmake hfault]

/-! ## Attempts that go as far as they can -/

/-- An attempt to write at a path writes a file where there is room, and makes no more than the
directories above it where there is none. -/
structure Tries (path : Path) (disk after : Disk) : Prop where
  written : disk.HasRoom path → ∃ bytes, disk.Deposits path bytes after
  made : ¬disk.HasRoom path → after = (disk.makeDirectories path.directory).1

namespace Tries

variable {between last : Disk}

/-- Where there is no room, a second attempt changes nothing. -/
theorem again (h : Tries path disk between) (hnext : Tries path between after)
    (htree : disk.IsTree) (hname : NamesFile path) (hroom : ¬disk.HasRoom path) :
    Tries path disk after := by
  have hgrows : disk.Grows between := by
    rw [h.made hroom]
    exact (changes_makeDirectories_directory disk path).grows
  refine ⟨fun hfree => absurd hfree hroom, fun _ => ?_⟩
  rw [hnext.made fun hfree => hroom (hgrows.hasRoom hfree), h.made hroom]
  exact htree.makeChain_again hname.climb

/-- Attempts on disks that are alike leave disks that are alike. -/
theorem alike (h : Tries path disk after) (hother : Tries path other last)
    (halike : disk.Alike other) : after.Alike last := by
  obtain ⟨hmade, -⟩ := halike.makeChain (path.directory :: path.directory.above)
  by_cases hroom : disk.HasRoom path
  · obtain ⟨bytes, -, hwrite⟩ := h.written hroom
    obtain ⟨others, -, hwritten⟩ := hother.written (halike.hasRoom_iff.mpr hroom)
    obtain ⟨found, hfound, hafter⟩ := hmade.write hwrite others
    obtain rfl := Except.ok.inj (hfound.symm.trans hwritten)
    exact hafter
  · rw [h.made hroom, hother.made (mt halike.hasRoom_iff.mp hroom)]
    exact hmade

end Tries

end VariantClasses.Disk
