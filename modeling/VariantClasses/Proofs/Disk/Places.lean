import VariantClasses.Disk.Files
import VariantClasses.Proofs.Path

/-! # Where paths lead

The steps of a path lead to a place whether or not something is there. Something is there
to be read when the way to the place is open (`read_eq_ok_iff`), and a file can be written
there unless a directory is in its place (`destination_eq_ok_iff`).
-/

namespace VariantClasses

theorem bind_eq_ok_iff {ε α β : Type} {x : Except ε α} {f : α → Except ε β} {b : β} :
    x.bind f = .ok b ↔ ∃ a, x = .ok a ∧ f a = .ok b := by
  cases x <;> simp [Except.bind]

theorem bind_eq_error {ε α β : Type} {x : Except ε α} {f : α → Except ε β} {e : ε}
    (h : x.bind f = .error e) : x = .error e ∨ ∃ a, x = .ok a ∧ f a = .error e := by
  cases x with
  | error found =>
    cases h
    exact .inl rfl
  | ok a => exact .inr ⟨a, rfl, h⟩

namespace Disk

variable {disk : Disk} {path : Path}

/-- Where the steps of a path lead, whether or not something is there. -/
def place (disk : Disk) (path : Path) : Location :=
  path.steps.foldl stepFrom (disk.start path)

/-- The locations that the steps of a path before the last one pass. -/
def way (disk : Disk) (path : Path) : List Location :=
  passed (disk.start path) path.steps.dropLast

/-- The bytes of the file at a location. -/
def file? (disk : Disk) (location : Location) : Option ByteArray :=
  match disk.entry? location with
  | some (.file bytes) => some bytes
  | _ => none

/-- There are directories all along a way. -/
def Open (disk : Disk) (way : List Location) : Prop :=
  ∀ location ∈ way, disk.entry? location = some .directory

instance (disk : Disk) (way : List Location) : Decidable (disk.Open way) :=
  inferInstanceAs (Decidable (∀ location ∈ way, _))

theorem file?_eq_some_iff {location : Location} {bytes : ByteArray} :
    disk.file? location = some bytes ↔ disk.entry? location = some (.file bytes) := by
  unfold file?
  split <;> simp_all

theorem directoryFault?_eq_none_iff {location : Location} :
    disk.directoryFault? location = none ↔ disk.entry? location = some .directory := by
  unfold directoryFault?
  split <;> simp_all

/-! ## Following steps -/

theorem passed_ne_nil (location : Location) (steps : List Text) : passed location steps ≠ [] := by
  cases steps <;> simp [passed]

theorem passed_append (location : Location) (front rest : List Text) :
    passed location (front ++ rest) =
      (passed location front).dropLast ++ passed (front.foldl stepFrom location) rest := by
  induction front generalizing location with
  | nil => rfl
  | cons step front ih =>
    rw [List.cons_append, passed, ih, passed, List.dropLast_cons_of_ne_nil (passed_ne_nil _ _),
      List.foldl_cons, List.cons_append]

/-- The steps pass where they lead last. -/
theorem passed_eq_concat (location : Location) (steps : List Text) :
    passed location steps =
      (passed location steps).dropLast ++ [steps.foldl stepFrom location] := by
  have h := passed_append location steps []
  rwa [List.append_nil] at h

theorem self_mem_passed (location : Location) (steps : List Text) :
    location ∈ passed location steps := by
  cases steps <;> simp [passed]

theorem mem_passed_append {location other : Location} {front rest : List Text} :
    other ∈ passed location (front ++ rest) ↔
      other ∈ passed location front ∨ other ∈ passed (front.foldl stepFrom location) rest := by
  rw [passed_append, passed_eq_concat location front, List.dropLast_concat, List.mem_append,
    List.mem_append, List.mem_singleton]
  constructor
  · exact fun h => h.imp_left .inl
  · intro h
    rcases h with (h | rfl) | h
    · exact .inl h
    · exact .inr (self_mem_passed _ _)
    · exact .inr h

theorem passed_concat (location : Location) (steps : List Text) (step : Text) :
    passed location (steps ++ [step]) =
      passed location steps ++ [stepFrom (steps.foldl stepFrom location) step] := by
  rw [passed_append, passed, passed, List.append_cons, ← passed_eq_concat]

theorem walk_eq_ok_iff {location last : Location} {steps : List Text} :
    disk.walk location steps = .ok last ↔
      last = steps.foldl stepFrom location ∧ disk.Open (passed location steps).dropLast := by
  induction steps generalizing location with
  | nil => simp [walk, passed, Open, eq_comm]
  | cons step steps ih =>
    rw [walk, passed, List.dropLast_cons_of_ne_nil (passed_ne_nil _ _), List.foldl_cons]
    cases hfault : disk.directoryFault? location with
    | none => simp [ih, Open, directoryFault?_eq_none_iff.mp hfault]
    | some fault =>
      have hclosed : disk.entry? location ≠ some .directory := by
        intro h
        simp [directoryFault?_eq_none_iff.mpr h] at hfault
      simp [Open, hclosed]

theorem open_passed_iff {location : Location} {steps : List Text} :
    disk.Open (passed location steps) ↔ disk.Open (passed location steps).dropLast ∧
      disk.entry? (steps.foldl stepFrom location) = some .directory := by
  rw [Open, Open, passed_eq_concat, List.dropLast_concat]
  simp [or_imp, forall_and]

theorem exists_fault_of_walk_eq_error {location : Location} {steps : List Text}
    {fault : DiskFault} (h : disk.walk location steps = .error fault) :
    ∃ other ∈ passed location steps, disk.directoryFault? other = some fault := by
  induction steps generalizing location with
  | nil => cases h
  | cons step steps ih =>
    rw [walk] at h
    rw [passed]
    cases hfault : disk.directoryFault? location with
    | none =>
      rw [hfault] at h
      obtain ⟨other, hother, hfault⟩ := ih h
      exact ⟨other, List.mem_cons_of_mem _ hother, hfault⟩
    | some found =>
      rw [hfault] at h
      exact ⟨location, List.mem_cons_self, hfault.trans (congrArg some (Except.error.inj h))⟩

/-! ## Places -/

theorem place_eq_stepFrom {last : Text} (h : path.steps.getLast? = some last) :
    disk.place path =
      stepFrom (path.steps.dropLast.foldl stepFrom (disk.start path)) last := by
  obtain ⟨front, hfront⟩ := List.getLast?_eq_some_iff.mp h
  simp [place, hfront]

/-- A name leads into the directory that the steps before it lead to. -/
theorem place_eq_concat {last : Text} (h : path.steps.getLast? = some last)
    (hhere : last ≠ Path.here) (hup : last ≠ Path.up) :
    disk.place path = path.steps.dropLast.foldl stepFrom (disk.start path) ++ [last] := by
  rw [place_eq_stepFrom h, stepFrom, if_neg hhere, if_neg hup]

theorem place_mem_way_of_steps_eq_nil (h : path.steps = []) : disk.place path ∈ disk.way path := by
  simp [place, way, h, passed]

theorem dropLast_passed_eq_way (h : path.steps ≠ []) :
    (passed (disk.start path) path.steps).dropLast = disk.way path := by
  obtain ⟨front, last, hfront⟩ := (List.eq_nil_or_concat path.steps).resolve_left h
  rw [way, hfront, List.concat_eq_append, passed_concat, List.dropLast_concat, List.dropLast_concat]

/-- The steps before the last one are followed when the whole way is open. -/
theorem approach_eq_ok_iff {location : Location} {last : Text} :
    disk.approach path = .ok (location, some last) ↔
      path.steps.getLast? = some last ∧
        location = path.steps.dropLast.foldl stepFrom (disk.start path) ∧
        disk.Open (disk.way path) := by
  unfold approach
  cases hsteps : path.steps.getLast? with
  | none => split <;> simp
  | some step =>
    have hne : path.text ≠ [] := Path.text_ne_nil_of_steps_ne_nil fun hnil => by
      simp [hnil] at hsteps
    rw [if_neg (by simpa using hne), way, open_passed_iff, ← directoryFault?_eq_none_iff]
    simp only [bind_eq_ok_iff, walk_eq_ok_iff]
    constructor
    · intro h
      obtain ⟨reached, ⟨rfl, hopen⟩, h⟩ := h
      split at h
      next => cases h
      next hfault =>
        cases h
        exact ⟨rfl, rfl, hopen, hfault⟩
    · intro h
      obtain ⟨hstep, rfl, hopen, hfault⟩ := h
      refine ⟨_, ⟨rfl, hopen⟩, ?_⟩
      rw [hfault, Option.some.inj hstep]

theorem step_of_approach_eq_ok {location : Location} {step : Option Text}
    (h : disk.approach path = .ok (location, step)) : step = path.steps.getLast? := by
  unfold approach at h
  split at h
  next => cases h
  next =>
    split at h
    next hnone =>
      cases h
      exact hnone.symm
    next last hlast =>
      obtain ⟨reached, -, h⟩ := bind_eq_ok_iff.mp h
      split at h
      next => cases h
      next =>
        cases h
        exact hlast.symm

/-- Where the way is not open, a location on it that is no directory says why. -/
theorem exists_fault_of_approach_eq_error {last : Text} {fault : DiskFault}
    (hlast : path.steps.getLast? = some last) (h : disk.approach path = .error fault) :
    ∃ location ∈ disk.way path, disk.directoryFault? location = some fault := by
  have hne : path.text ≠ [] := Path.text_ne_nil_of_steps_ne_nil fun hnil => by
    simp [hnil] at hlast
  rw [approach, if_neg (by simpa using hne), hlast] at h
  rcases bind_eq_error h with hwalk | ⟨reached, hwalk, h⟩
  · exact exists_fault_of_walk_eq_error hwalk
  · obtain ⟨rfl, -⟩ := walk_eq_ok_iff.mp hwalk
    split at h
    next found hfound =>
      cases h
      refine ⟨_, ?_, hfound⟩
      rw [way, passed_eq_concat]
      exact List.mem_append_right _ List.mem_cons_self
    next => cases h

/-- A path that a file can be written at: its last step is a name, and no slash follows it. -/
def NamesFile (path : Path) : Prop :=
  path.endsInSlash = false ∧ ∃ last ∈ path.steps.getLast?, last ≠ Path.here ∧ last ≠ Path.up

/-- A file can be written at the end of an open way unless a directory is there. -/
theorem destination_eq_ok_iff {location : Location} :
    disk.destination path = .ok location ↔
      NamesFile path ∧ disk.Open (disk.way path) ∧ location = disk.place path ∧
        disk.entry? (disk.place path) ≠ some .directory := by
  rw [destination, bind_eq_ok_iff]
  constructor
  · intro h
    obtain ⟨⟨reached, last⟩, happroach, h⟩ := h
    cases last with
    | none => cases h
    | some last =>
      obtain ⟨hlast, rfl, hopen⟩ := approach_eq_ok_iff.mp happroach
      dsimp only at h
      split at h
      next => cases h
      next hname =>
        simp only [not_or, Bool.not_eq_true] at hname
        rw [← place_eq_concat hlast hname.1 hname.2.1] at h
        split at h
        next => cases h
        next hfree =>
          cases h
          exact ⟨⟨hname.2.2, last, hlast, hname.1, hname.2.1⟩, hopen, rfl, hfree⟩
  · intro h
    obtain ⟨⟨hslash, last, hlast, hhere, hup⟩, hopen, rfl, hfree⟩ := h
    refine ⟨_, approach_eq_ok_iff.mpr ⟨hlast, rfl, hopen⟩, ?_⟩
    rw [place_eq_concat hlast hhere hup] at hfree ⊢
    simp [hhere, hup, hslash]

theorem locate_eq_ok_iff {location : Location} :
    disk.locate path = .ok location ↔
      path.text ≠ [] ∧ disk.Open (passed (disk.start path) path.steps).dropLast ∧
        location = disk.place path ∧ ∃ entry, disk.entry? (disk.place path) = some entry ∧
          (path.endsInSlash = true → entry = .directory) := by
  unfold locate
  split
  next hnil => simp [List.isEmpty_iff.mp hnil]
  next hne =>
    rw [bind_eq_ok_iff]
    simp only [walk_eq_ok_iff]
    constructor
    · intro h
      obtain ⟨reached, ⟨rfl, hopen⟩, h⟩ := h
      rw [← place] at h
      refine ⟨by simpa using hne, hopen, ?_⟩
      split at h
      next => cases h
      next bytes hentry =>
        split at h
        next => cases h
        next hslash =>
          cases h
          exact ⟨rfl, _, hentry, fun h => absurd h hslash⟩
      next hentry =>
        cases h
        exact ⟨rfl, _, hentry, fun _ => rfl⟩
    · intro h
      obtain ⟨-, hopen, rfl, entry, hentry, hslash⟩ := h
      refine ⟨_, ⟨rfl, hopen⟩, ?_⟩
      rw [← place, hentry]
      cases entry with
      | file bytes =>
        apply if_neg
        intro h
        cases hslash h
      | directory => rfl

/-- A file is read at the end of an open way. -/
theorem read_eq_ok_iff {bytes : ByteArray} :
    disk.read path = .ok bytes ↔
      path.endsInSlash = false ∧ disk.Open (disk.way path) ∧
        disk.file? (disk.place path) = some bytes := by
  rw [read, bind_eq_ok_iff, file?_eq_some_iff]
  constructor
  · intro h
    obtain ⟨location, hlocate, h⟩ := h
    obtain ⟨hne, hopen, rfl, entry, hentry, hslash⟩ := locate_eq_ok_iff.mp hlocate
    rw [hentry] at h
    cases entry with
    | directory => cases h
    | file other =>
      cases h
      have hslash : path.endsInSlash = false := by
        by_contra h
        cases hslash (by simpa using h)
      refine ⟨hslash, ?_, hentry⟩
      rwa [dropLast_passed_eq_way] at hopen
      -- A path that takes no step leads to the top directory, which is no file.
      intro hsteps
      simp [place, start, hsteps, Path.isAbsolute_of_steps_eq_nil hsteps hne, entry?] at hentry
  · intro h
    obtain ⟨hslash, hopen, hentry⟩ := h
    have hsteps : path.steps ≠ [] := by
      intro hsteps
      have hplace := hopen _ (place_mem_way_of_steps_eq_nil hsteps)
      rw [hentry] at hplace
      cases hplace
    refine ⟨disk.place path, locate_eq_ok_iff.mpr ⟨Path.text_ne_nil_of_steps_ne_nil hsteps, ?_, rfl,
      _, hentry, fun h => by simp [h] at hslash⟩, ?_⟩
    · rwa [dropLast_passed_eq_way hsteps]
    · rw [hentry]

/-- What is read at the end of an open way depends on what is there alone. -/
theorem read_of_open (hname : NamesFile path) (hopen : disk.Open (disk.way path)) :
    disk.read path =
      match disk.entry? (disk.place path) with
      | some (.file bytes) => .ok bytes
      | some .directory => .error .isDirectory
      | none => .error .missing := by
  obtain ⟨hslash, last, hlast, -⟩ := hname
  have hsteps : path.steps ≠ [] := by
    intro hnil
    simp [hnil] at hlast
  have hne := Path.text_ne_nil_of_steps_ne_nil hsteps
  rw [← dropLast_passed_eq_way hsteps] at hopen
  rw [read, locate, if_neg (by simpa using hne), walk_eq_ok_iff.mpr ⟨rfl, hopen⟩, ← place]
  cases hentry : disk.entry? (disk.place path) with
  | none => simp [Except.bind, hentry]
  | some entry => cases entry <;> simp [Except.bind, hentry, hslash]

/-! ## Files below a directory -/

theorem foldl_stepFrom_names {names : List Text} (location : Location)
    (h : ∀ name ∈ names, Path.IsName name) : names.foldl stepFrom location = location ++ names := by
  induction names generalizing location with
  | nil => rw [List.foldl_nil, List.append_nil]
  | cons name names ih =>
    obtain ⟨-, -, hhere, hup⟩ := h name List.mem_cons_self
    rw [List.foldl_cons, stepFrom, if_neg hhere, if_neg hup,
      ih _ fun other hother => h other (List.mem_cons_of_mem name hother), List.append_assoc,
      List.singleton_append]

theorem mem_passed_names {names : List Text} {location other : Location}
    (h : ∀ name ∈ names, Path.IsName name) :
    other ∈ passed location names ↔ ∃ front, front <+: names ∧ other = location ++ front := by
  induction names generalizing location with
  | nil => simp [passed]
  | cons name names ih =>
    obtain ⟨-, -, hhere, hup⟩ := h name List.mem_cons_self
    rw [passed, stepFrom, if_neg hhere, if_neg hup, List.mem_cons,
      ih fun other hother => h other (List.mem_cons_of_mem name hother)]
    simp only [List.prefix_cons_iff]
    constructor
    · intro hother
      rcases hother with rfl | ⟨front, hfront, rfl⟩
      · exact ⟨[], .inl rfl, (List.append_nil _).symm⟩
      · exact ⟨name :: front, .inr ⟨front, rfl, hfront⟩, by simp⟩
    · intro hother
      obtain ⟨front, rfl | ⟨front, rfl, hfront⟩, rfl⟩ := hother
      · exact .inl (List.append_nil _)
      · exact .inr ⟨front, hfront, by simp⟩

section Join

variable {base file : Path}

theorem steps_join (h : file.IsPlain) :
    (base.join file).steps = base.steps ++ file.components := by
  rw [Path.steps_join h.isAbsolute_eq, h.steps_eq]

theorem start_join (h : file.IsPlain) : disk.start (base.join file) = disk.start base := by
  rw [start, start, Path.isAbsolute_join h.isAbsolute_eq]

theorem place_join (h : file.IsPlain) :
    disk.place (base.join file) = disk.place base ++ file.components := by
  rw [place, steps_join h, start_join h, List.foldl_append, foldl_stepFrom_names _ h.isName, place]

/-- The way to a file below a directory passes what the way to the directory passes, and then
the directories below. -/
theorem mem_way_join {location : Location} (h : file.IsPlain) :
    location ∈ disk.way (base.join file) ↔
      location ∈ passed (disk.start base) base.steps ∨
        ∃ front, front <+: file.components ∧ front ≠ file.components ∧
          location = disk.place base ++ front := by
  obtain ⟨front, last, hfile⟩ := (List.eq_nil_or_concat file.components).resolve_left h.ne_nil
  rw [List.concat_eq_append] at hfile
  have hfront : ∀ name ∈ front, Path.IsName name := fun name hname =>
    h.isName name (by simp [hfile, hname])
  have hbelow (other : List Text) :
      other <+: front ↔ other <+: front ++ [last] ∧ other ≠ front ++ [last] := by
    rw [List.prefix_concat_iff]
    constructor
    · intro hother
      refine ⟨.inr hother, ?_⟩
      rintro rfl
      have hlength := hother.length_le
      rw [List.length_append, List.length_singleton] at hlength
      omega
    · exact fun hother => hother.1.resolve_left hother.2
  rw [way, steps_join h, start_join h, hfile, ← List.append_assoc, List.dropLast_concat,
    mem_passed_append, mem_passed_names hfront, ← place]
  simp only [hbelow, and_assoc]

theorem namesFile_join (h : file.IsPlain) : NamesFile (base.join file) := by
  obtain ⟨front, last, hfile⟩ := (List.eq_nil_or_concat file.components).resolve_left h.ne_nil
  rw [List.concat_eq_append] at hfile
  obtain ⟨-, -, hhere, hup⟩ := h.isName last (by simp [hfile])
  refine ⟨?_, last, ?_, hhere, hup⟩
  · rw [Path.endsInSlash_join h.isAbsolute_eq h.text_ne_nil, h.endsInSlash_eq]
  · rw [steps_join h, hfile]
    simp

end Join

end Disk

end VariantClasses
