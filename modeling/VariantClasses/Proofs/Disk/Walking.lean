import VariantClasses.Proofs.Ascending
import VariantClasses.Proofs.Disk.Trees

/-! # Walking through directories

A walk goes through what is at some places, depth first, and each directory has its entries in an
order of its own. Whatever these orders are, a walk comes to an end (`exists_walk`), and it finds
exactly the files below where it started (`Walk.mem_iff`), each of them once (`Walk.nodup`).
-/

namespace VariantClasses.Disk

variable {disk : Disk} {location : Location} {pending others found more children : List Location}

/-- The entries of a directory, each of them once, in any order. -/
structure Enumerates (disk : Disk) (location : Location) (children : List Location) : Prop where
  nodup : children.Nodup
  mem_iff (child : Location) :
    child ∈ children ↔ (∃ name, child = location ++ [name]) ∧ disk.entry? child ≠ none

/-- A walk through pending places, with the files in the order in which they are found. A directory
gives way to its entries. -/
inductive Walk (disk : Disk) : List Location → List Location → Prop
  | done : Walk disk [] []
  | file {location : Location} {pending found : List Location}
    (hfile : disk.file? location ≠ none) (rest : Walk disk pending found) :
    Walk disk (location :: pending) (location :: found)
  | directory {location : Location} {pending children found : List Location}
    (hdirectory : disk.entry? location = some .directory)
    (listed : disk.Enumerates location children) (rest : Walk disk (children ++ pending) found) :
    Walk disk (location :: pending) found

/-! ## What a walk finds -/

/-- A file in a directory is one of its entries or lies below one. -/
theorem Enumerates.exists_prefix_iff (h : disk.Enumerates location children) (htree : disk.IsTree)
    (hdirectory : disk.entry? location = some .directory) {file : Location}
    (hfile : disk.file? file ≠ none) :
    (∃ child ∈ children, child <+: file) ↔ location <+: file := by
  constructor
  · rintro ⟨child, hchild, hunder⟩
    obtain ⟨⟨name, rfl⟩, -⟩ := (h.mem_iff child).mp hchild
    exact (List.prefix_append location [name]).trans hunder
  · rintro ⟨rest, rfl⟩
    obtain ⟨bytes, hbytes⟩ := Option.ne_none_iff_exists'.mp hfile
    rw [file?_eq_some_iff] at hbytes
    cases rest with
    | nil =>
      rw [List.append_nil, hdirectory] at hbytes
      cases hbytes
    | cons name rest =>
      rw [List.append_cons] at hbytes ⊢
      refine ⟨location ++ [name], (h.mem_iff _).mpr ⟨⟨name, rfl⟩, ?_⟩, List.prefix_append _ _⟩
      by_cases hnil : rest = []
      · simp [hnil] at hbytes
        simp [hbytes]
      · simp [htree.directory_above hbytes hnil]

/-- No file lies below another. -/
theorem IsTree.eq_of_below (h : disk.IsTree) {file : Location}
    (hlocation : disk.file? location ≠ none) (hfile : disk.file? file ≠ none)
    (hunder : location <+: file) : file = location := by
  obtain ⟨rest, rfl⟩ := hunder
  obtain ⟨bytes, hbytes⟩ := Option.ne_none_iff_exists'.mp hfile
  by_contra hne
  have hdirectory := h.directory_above (file?_eq_some_iff.mp hbytes) (by simpa using hne)
  simp [file?, hdirectory] at hlocation

/-- A walk finds the files that lie below the places where it starts, or there. -/
theorem Walk.mem_iff (h : disk.Walk pending found) (htree : disk.IsTree) {file : Location} :
    file ∈ found ↔ disk.file? file ≠ none ∧ ∃ start ∈ pending, start <+: file := by
  induction h with
  | done => simp
  | @file location pending found hfile rest ih =>
    rw [List.mem_cons, List.exists_mem_cons_iff, ih, and_or_left]
    apply or_congr_left
    constructor
    · rintro rfl
      exact ⟨hfile, List.prefix_rfl⟩
    · rintro ⟨hother, hunder⟩
      exact htree.eq_of_below hfile hother hunder
  | @directory location pending children found hdirectory listed rest ih =>
    rw [ih, List.exists_mem_cons_iff]
    apply and_congr_right
    intro hfile
    rw [← listed.exists_prefix_iff htree hdirectory hfile]
    simp only [List.mem_append, or_and_right, exists_or]

/-! ## Finding a file once -/

/-- No place is or lies below another. -/
def Unnested (places : List Location) : Prop :=
  places.Pairwise fun first second => ¬first <+: second ∧ ¬second <+: first

theorem Enumerates.unnested (h : disk.Enumerates location children) : Unnested children := by
  apply h.nodup.imp_of_mem
  intro first second hfirst hsecond hne
  obtain ⟨⟨name, rfl⟩, -⟩ := (h.mem_iff first).mp hfirst
  obtain ⟨⟨other, rfl⟩, -⟩ := (h.mem_iff second).mp hsecond
  constructor
  · exact fun hunder => hne (hunder.eq_of_length (by simp))
  · exact fun hunder => hne (hunder.eq_of_length (by simp)).symm

/-- Entries of a directory lie as far from other places as the directory. -/
theorem Enumerates.unnested_append (h : disk.Enumerates location children)
    (hplaces : Unnested (location :: pending)) : Unnested (children ++ pending) := by
  obtain ⟨hlocation, hpending⟩ := List.pairwise_cons.mp hplaces
  refine List.pairwise_append.mpr ⟨h.unnested, hpending, ?_⟩
  intro child hchild other hother
  obtain ⟨⟨name, rfl⟩, -⟩ := (h.mem_iff child).mp hchild
  obtain ⟨hbelow, habove⟩ := hlocation other hother
  constructor
  · exact fun hunder => hbelow ((List.prefix_append location [name]).trans hunder)
  · intro hunder
    rcases List.prefix_concat_iff.mp hunder with rfl | hunder
    · exact hbelow (List.prefix_append location [name])
    · exact habove hunder

/-- A walk finds no file twice. -/
theorem Walk.nodup (h : disk.Walk pending found) (htree : disk.IsTree)
    (hpending : Unnested pending) : found.Nodup := by
  induction h with
  | done => exact List.nodup_nil
  | file hfile rest ih =>
    obtain ⟨hlocation, hrest⟩ := List.pairwise_cons.mp hpending
    refine List.nodup_cons.mpr ⟨?_, ih hrest⟩
    rw [rest.mem_iff htree]
    rintro ⟨-, start, hstart, hunder⟩
    exact (hlocation start hstart).2 hunder
  | directory hdirectory listed rest ih => exact ih (listed.unnested_append hpending)

/-! ## Walks -/

theorem Walk.append (h : disk.Walk pending found) (hothers : disk.Walk others more) :
    disk.Walk (pending ++ others) (found ++ more) := by
  induction h with
  | done => exact hothers
  | file hfile rest ih => exact .file hfile ih
  | directory hdirectory listed rest ih =>
    exact .directory hdirectory listed (by rwa [List.append_assoc] at ih)

theorem exists_enumerates (disk : Disk) (location : Location) :
    ∃ children, disk.Enumerates location children := by
  let keys := disk.entries.entries.map Prod.fst
  have hkeys (key : Location) : key ∈ keys ↔ disk.entries.find? key ≠ none := by
    simp [keys, Option.ne_none_iff_exists', SortedMap.find?_eq_some_iff]
  refine ⟨keys.filter fun key => !key.isEmpty && key.dropLast == location,
    disk.entries.ascending.nodup_map.filter _, ?_⟩
  intro child
  rw [List.mem_filter, hkeys, and_comm]
  rcases List.eq_nil_or_concat child with rfl | ⟨front, name, rfl⟩
  · simp
  · have hparent : (∃ other, front ++ [name] = location ++ [other]) ↔ front = location := by
      constructor
      · rintro ⟨other, heq⟩
        exact (List.append_inj' heq rfl).1
      · rintro rfl
        exact ⟨name, rfl⟩
    rw [List.concat_eq_append, hparent]
    unfold entry?
    simp

theorem exists_walk_of_forall (h : ∀ start ∈ pending, ∃ found, disk.Walk [start] found) :
    ∃ found, disk.Walk pending found := by
  induction pending with
  | nil => exact ⟨[], .done⟩
  | cons start pending ih =>
    rw [List.forall_mem_cons] at h
    obtain ⟨found, hfound⟩ := h.1
    obtain ⟨more, hmore⟩ := ih h.2
    exact ⟨found ++ more, hfound.append hmore⟩

/-- There is a walk through a place that nothing lies deeply below. -/
theorem exists_walk_of_depth {start : Location} (depth : Nat) (hstart : disk.entry? start ≠ none)
    (hdepth : ∀ other, start <+: other → disk.entry? other ≠ none →
      other.length < start.length + depth) : ∃ found, disk.Walk [start] found := by
  induction depth generalizing start with
  | zero => exact absurd (hdepth start List.prefix_rfl hstart) (Nat.lt_irrefl _)
  | succ depth ih =>
    cases hentry : disk.entry? start with
    | none => exact absurd hentry hstart
    | some entry =>
      cases entry with
      | file bytes =>
        exact ⟨[start], .file (by simp [file?_eq_some_iff.mpr hentry]) .done⟩
      | directory =>
        obtain ⟨children, hchildren⟩ := exists_enumerates disk start
        obtain ⟨found, hfound⟩ : ∃ found, disk.Walk children found := by
          apply exists_walk_of_forall
          intro child hchild
          obtain ⟨⟨name, rfl⟩, hthere⟩ := (hchildren.mem_iff child).mp hchild
          apply ih hthere
          intro other hunder hother
          have hlength := hdepth other ((List.prefix_append start [name]).trans hunder) hother
          rw [List.length_append, List.length_singleton]
          omega
        exact ⟨found, .directory hentry hchildren (by rwa [List.append_nil])⟩

theorem exists_length_le (places : List Location) :
    ∃ depth, ∀ place ∈ places, place.length ≤ depth := by
  induction places with
  | nil => exact ⟨0, by simp⟩
  | cons first places ih =>
    obtain ⟨depth, hdepth⟩ := ih
    refine ⟨max first.length depth, List.forall_mem_cons.mpr ⟨Nat.le_max_left _ _, ?_⟩⟩
    exact fun place hplace => (hdepth place hplace).trans (Nat.le_max_right _ _)

/-- There is a walk through whatever is there. -/
theorem exists_walk (hpending : ∀ start ∈ pending, disk.entry? start ≠ none) :
    ∃ found, disk.Walk pending found := by
  obtain ⟨depth, hdepth⟩ := exists_length_le (disk.entries.entries.map Prod.fst)
  apply exists_walk_of_forall
  intro start hstart
  apply exists_walk_of_depth (depth + 1) (hpending start hstart)
  intro other _ hother
  by_cases hnil : other = []
  · rw [hnil, List.length_nil]
    omega
  obtain ⟨entry, hentry⟩ := Option.ne_none_iff_exists'.mp hother
  unfold entry? at hentry
  rw [if_neg hnil, SortedMap.find?_eq_some_iff] at hentry
  have hlength := hdepth other (List.mem_map.mpr ⟨_, hentry, rfl⟩)
  omega

end VariantClasses.Disk
