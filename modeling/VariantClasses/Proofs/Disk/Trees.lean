import VariantClasses.Proofs.Disk.Changes

/-! # Trees

On a disk that is a tree every entry has a name and lies in a directory, and so all
directories above an entry are there (`IsTree.directory_above`). The operations keep a tree.
-/

namespace VariantClasses.Disk

/-- Every entry has a name and lies in a directory, and there is a directory to work in. -/
structure IsTree (disk : Disk) : Prop where
  working : disk.entry? disk.workingDirectory = some .directory
  below {front : Location} {name : Text} {entry : Entry}
    (h : disk.entry? (front ++ [name]) = some entry) :
    Path.IsName name ∧ disk.entry? front = some .directory

theorem isTree_iff {disk : Disk} :
    disk.IsTree ↔ disk.entry? disk.workingDirectory = some .directory ∧
      ∀ item ∈ disk.entries.entries, ∀ name ∈ item.1.getLast?,
        Path.IsName name ∧ disk.entry? item.1.dropLast = some .directory := by
  have hentry (front : Location) (name : Text) (entry : Entry) :
      disk.entry? (front ++ [name]) = some entry ↔
        (front ++ [name], entry) ∈ disk.entries.entries := by
    rw [Disk.entry?, if_neg (by simp), SortedMap.find?_eq_some_iff]
  constructor
  · intro h
    refine ⟨h.working, ?_⟩
    intro item hitem name hname
    obtain ⟨front, hfront⟩ := List.getLast?_eq_some_iff.mp hname
    rw [hfront, List.dropLast_concat]
    exact h.below ((hentry front name item.2).mpr (hfront ▸ hitem))
  · intro h
    refine ⟨h.1, ?_⟩
    intro front name entry hmem
    simpa using h.2 _ ((hentry front name entry).mp hmem) name (by simp)

instance (disk : Disk) : Decidable disk.IsTree :=
  decidable_of_iff' _ isTree_iff

variable {disk after : Disk} {path : Path}

namespace IsTree

/-- All directories above an entry are there. -/
theorem directory_above (h : disk.IsTree) {front rest : Location} {entry : Entry}
    (hentry : disk.entry? (front ++ rest) = some entry) (hne : rest ≠ []) :
    disk.entry? front = some .directory := by
  induction rest using List.reverseRecOn generalizing entry with
  | nil => exact absurd rfl hne
  | append_singleton rest name ih =>
    rw [← List.append_assoc] at hentry
    have hbelow := (h.below hentry).2
    by_cases hnil : rest = []
    · rwa [hnil, List.append_nil] at hbelow
    · exact ih hbelow hnil

theorem isName_of_mem (h : disk.IsTree) {location : Location} {entry : Entry}
    (hentry : disk.entry? location = some entry) : ∀ name ∈ location, Path.IsName name := by
  intro name hname
  obtain ⟨front, rest, rfl⟩ := List.append_of_mem hname
  by_cases hnil : rest = []
  · rw [hnil] at hentry
    exact (h.below hentry).1
  · rw [List.append_cons] at hentry
    exact (h.below (h.directory_above hentry hnil)).1

/-- The directory above a directory is one. -/
theorem directory_dropLast (h : disk.IsTree) {location : Location}
    (hlocation : disk.entry? location = some .directory) :
    disk.entry? location.dropLast = some .directory := by
  rcases List.eq_nil_or_concat location with rfl | ⟨front, name, rfl⟩
  · exact hlocation
  · rw [List.concat_eq_append] at hlocation
    rw [List.concat_eq_append, List.dropLast_concat]
    exact (h.below hlocation).2

/-! ## Operations keep trees -/

theorem put (h : disk.IsTree) {front : Location} {name : Text} (hname : Path.IsName name)
    (hfront : disk.entry? front = some .directory)
    (hfree : disk.entry? (front ++ [name]) ≠ some .directory) (entry : Entry) :
    (disk.put (front ++ [name]) entry).IsTree := by
  have hkept {other : Location} (hother : disk.entry? other = some .directory) :
      Disk.entry? (disk.put (front ++ [name]) entry) other = some .directory := by
    rwa [entry?_put_of_ne]
    intro heq
    exact hfree (heq ▸ hother)
  refine ⟨hkept h.working, ?_⟩
  intro above other found hfound
  by_cases heq : above ++ [other] = front ++ [name]
  · obtain ⟨rfl, hother⟩ := List.append_inj' heq rfl
    obtain rfl : other = name := by simpa using hother
    exact ⟨hname, hkept hfront⟩
  · rw [entry?_put_of_ne heq] at hfound
    have hbelow := h.below hfound
    exact ⟨hbelow.1, hkept hbelow.2⟩

/-- What is put at the end of an open way lies in the directory there. -/
theorem put_place (h : disk.IsTree)
    (hlast : ∃ last ∈ path.steps.getLast?, last ≠ Path.here ∧ last ≠ Path.up)
    (hopen : disk.Open (disk.way path)) (hfree : disk.entry? (disk.place path) ≠ some .directory)
    (entry : Entry) : (disk.put (disk.place path) entry).IsTree := by
  obtain ⟨last, hlast, hhere, hup⟩ := hlast
  have hname := Path.isName_of_mem_steps (List.mem_of_getLast? hlast) hhere hup
  rw [place_eq_concat hlast hhere hup] at hfree ⊢
  exact h.put hname (open_passed_iff.mp hopen).2 hfree entry

theorem write (h : disk.IsTree) {bytes : ByteArray} (hwrite : disk.write path bytes = .ok after) :
    after.IsTree := by
  obtain ⟨hname, hopen, hfree, rfl⟩ := write_eq_ok_iff.mp hwrite
  exact h.put_place hname.2 hopen hfree _

theorem makeDirectory (h : disk.IsTree) (hmake : disk.makeDirectory path = .ok after) :
    after.IsTree := by
  obtain ⟨hlast, hopen, hfree, rfl⟩ := makeDirectory_eq_ok_iff.mp hmake
  exact h.put_place hlast hopen (by simp [hfree]) _

theorem makeChain (h : disk.IsTree) (paths : List Path) : (disk.makeChain paths).1.IsTree :=
  makeChain_induction IsTree h fun _ _ _ _ hbefore hmake => hbefore.makeDirectory hmake

end IsTree

end VariantClasses.Disk
