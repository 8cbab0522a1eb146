import VariantClasses.Scan

/-! # What a scan finds

A scan passes over the places where its reader recognises nothing and stops where it
recognises something. From these two steps follow what it makes of a text put together
from stretches (`Reader.Rewrites`), and that it finds nothing exactly when there is
nothing to be found.
-/

namespace VariantClasses

/-- The text that stands for a piece once everything recognised is replaced. -/
def Piece.replaced {α : Type} (replacement : α → Text) : Piece α → Text
  | .other c => [c]
  | .found x => replacement x

/-- What stands for a recognised value, and nothing for other characters. -/
def Piece.image {α β : Type} (f : α → β) : Piece α → List β
  | .other _ => []
  | .found x => [f x]

theorem Piece.flatMap_image_other {α β : Type} (f : α → β) (text : Text) :
    (text.flatMap fun c => Piece.image f (.other c)) = [] :=
  List.flatMap_eq_nil_iff.mpr fun _ _ => rfl

theorem Piece.filterMap_found?_other {α : Type} (text : Text) :
    (text.map Piece.other).filterMap Piece.found? = ([] : List α) := by
  simp [found?]

namespace Reader

variable {α : Type} (reader : Reader α)

@[simp]
theorem cut_nil (atStart : Bool) : reader.cut atStart [] = [] := by
  rw [cut]

theorem cut_of_some {atStart : Bool} {text rest : Text} {x : α}
    (h : reader.read? atStart text = some (x, rest)) :
    reader.cut atStart text = .found x :: reader.cut false rest := by
  cases text with
  | nil => exact absurd (reader.length_lt h) (Nat.not_lt_zero _)
  | cons c after =>
    rw [cut]
    split
    next y tail hread =>
      obtain ⟨rfl, rfl⟩ := Prod.mk.inj (Option.some.inj (hread.symm.trans h))
      rfl
    next hread => simp [hread] at h

theorem cut_of_none {atStart : Bool} {c : Char} {after : Text}
    (h : reader.read? atStart (c :: after) = none) :
    reader.cut atStart (c :: after) = .other c :: reader.cut false after := by
  rw [cut]
  split
  next x rest hread => simp [hread] at h
  next => rfl

theorem replaceAll_eq_flatMap (replacement : α → Text) (text : Text) :
    reader.replaceAll replacement text =
      (reader.cut true text).flatMap (Piece.replaced replacement) :=
  rfl

theorem map_findAll {β : Type} (f : α → β) (text : Text) :
    (reader.findAll text).map f = (reader.cut true text).flatMap (Piece.image f) := by
  rw [findAll]
  induction reader.cut true text with
  | nil => rfl
  | cons piece pieces ih =>
    cases piece with
    | other c => exact ih
    | found x => exact congrArg (f x :: ·) ih

/-- What a scan finds, the reader recognised somewhere. -/
theorem exists_read_of_found_mem_cut {atStart : Bool} {text : Text} {x : α}
    (h : .found x ∈ reader.cut atStart text) :
    ∃ start front rest, reader.read? start front = some (x, rest) := by
  fun_induction reader.cut atStart text with
  | case1 => simp at h
  | case2 atStart c after y rest hread ih =>
    rcases List.mem_cons.mp h with heq | hmem
    · cases heq
      exact ⟨atStart, c :: after, rest, hread⟩
    · exact ih hmem
  | case3 atStart c after hread ih =>
    rcases List.mem_cons.mp h with heq | hmem
    · cases heq
    · exact ih hmem

theorem exists_read_of_mem_findAll {text : Text} {x : α} (h : x ∈ reader.findAll text) :
    ∃ start front rest, reader.read? start front = some (x, rest) := by
  obtain ⟨piece, hmem, hpiece⟩ := List.mem_filterMap.mp h
  cases piece with
  | other c => cases hpiece
  | found y =>
    cases hpiece
    exact reader.exists_read_of_found_mem_cut hmem

/-! ## Passing over text -/

/-- At no place of `front` is anything recognised, given that `rest` follows it. -/
def PassesOver (atStart : Bool) (front rest : Text) : Prop :=
  ∀ before c after, front = before ++ c :: after →
    reader.read? (atStart && before.isEmpty) (c :: (after ++ rest)) = none

variable {reader}

theorem passesOver_nil (atStart : Bool) (rest : Text) : reader.PassesOver atStart [] rest := by
  intro before c after h
  simp at h

theorem passesOver_cons_iff {atStart : Bool} {c : Char} {front rest : Text} :
    reader.PassesOver atStart (c :: front) rest ↔
      reader.read? atStart (c :: (front ++ rest)) = none ∧ reader.PassesOver false front rest := by
  constructor
  · intro h
    refine ⟨by simpa using h [] c front rfl, fun before d after hfront => ?_⟩
    simpa using h (c :: before) d after (by rw [hfront, List.cons_append])
  · intro h before d after hfront
    obtain ⟨hread, hrest⟩ := h
    cases before with
    | nil =>
      obtain ⟨rfl, rfl⟩ := List.cons.inj hfront
      simpa using hread
    | cons b before =>
      obtain ⟨rfl, rfl⟩ := List.cons.inj hfront
      simpa using hrest before d after rfl

theorem passesOver_append_iff {atStart : Bool} {front middle rest : Text} :
    reader.PassesOver atStart (front ++ middle) rest ↔
      reader.PassesOver atStart front (middle ++ rest) ∧
        reader.PassesOver (atStart && front.isEmpty) middle rest := by
  induction front generalizing atStart with
  | nil => simp [passesOver_nil]
  | cons c front ih =>
    rw [List.cons_append, passesOver_cons_iff, passesOver_cons_iff, ih, List.append_assoc]
    simp [and_assoc]

/-- Text that is passed over stays as it is, character by character. -/
theorem PassesOver.cut_append {atStart : Bool} {front rest : Text}
    (h : reader.PassesOver atStart front rest) :
    reader.cut atStart (front ++ rest) =
      front.map Piece.other ++ reader.cut (atStart && front.isEmpty) rest := by
  induction front generalizing atStart with
  | nil => simp
  | cons c front ih =>
    obtain ⟨hread, hfront⟩ := passesOver_cons_iff.mp h
    rw [List.cons_append, reader.cut_of_none hread, ih hfront]
    simp

/-- A scan finds nothing exactly when nothing can be recognised anywhere. -/
theorem findAll_eq_nil_iff {text : Text} :
    reader.findAll text = [] ↔ reader.PassesOver true text [] := by
  constructor
  · -- The induction follows the scan, which is at the start of a text at its first step only.
    have step (atStart : Bool) (h : (reader.cut atStart text).filterMap Piece.found? = []) :
        reader.PassesOver atStart text [] := by
      fun_induction reader.cut atStart text with
      | case1 => exact passesOver_nil _ _
      | case2 atStart c after x rest hread ih => simp [Piece.found?] at h
      | case3 atStart c after hread ih =>
        refine passesOver_cons_iff.mpr ⟨by simpa using hread, ih ?_⟩
        simpa [Piece.found?] using h
    exact step true
  · intro h
    have hcut := h.cut_append
    rw [List.append_nil] at hcut
    rw [findAll, hcut]
    simp [Piece.found?]

/-- Between two stretches that it passes over, a scan finds what stands there. -/
theorem findAll_eq_singleton {front back : Text} {x : α}
    (hfront : reader.PassesOver true front (reader.written x ++ back))
    (hread : reader.read? front.isEmpty (reader.written x ++ back) = some (x, back))
    (hback : reader.PassesOver false back []) :
    reader.findAll (front ++ (reader.written x ++ back)) = [x] := by
  have hcut := hback.cut_append
  rw [List.append_nil, cut_nil, List.append_nil] at hcut
  rw [findAll, hfront.cut_append, Bool.true_and, reader.cut_of_some hread, hcut,
    List.filterMap_append, Piece.filterMap_found?_other, List.nil_append, List.filterMap_cons,
    Piece.filterMap_found?_other]
  rfl

theorem replaceAll_eq_self {text : Text} (h : reader.findAll text = [])
    (replacement : α → Text) : reader.replaceAll replacement text = text := by
  have hcut := (findAll_eq_nil_iff.mp h).cut_append
  rw [List.append_nil, cut_nil, List.append_nil] at hcut
  rw [replaceAll_eq_flatMap, hcut, List.flatMap_map]
  exact List.flatMap_singleton' text

/-- Only what is recognised in the text matters to what it is replaced by. -/
theorem replaceAll_congr {replacement other : α → Text} {text : Text}
    (h : ∀ x ∈ reader.findAll text, replacement x = other x) :
    reader.replaceAll replacement text = reader.replaceAll other text := by
  have hpieces : (reader.cut true text).map (Piece.replaced replacement) =
      (reader.cut true text).map (Piece.replaced other) := by
    apply List.map_congr_left
    intro piece hpiece
    cases piece with
    | other c => rfl
    | found x => exact h x (List.mem_filterMap.mpr ⟨_, hpiece, rfl⟩)
  rw [replaceAll_eq_flatMap, replaceAll_eq_flatMap, List.flatMap_def, hpieces, List.flatMap_def]

/-! ## Reading stretches -/

section Yields

variable {β : Type} {value : Piece α → List β}

/-- A scan reads `result` off `stretch` and goes on with `rest` behind it. -/
def Yields (reader : Reader α) (value : Piece α → List β) (atStart : Bool)
    (stretch rest : Text) (result : List β) : Prop :=
  (reader.cut atStart (stretch ++ rest)).flatMap value =
    result ++ (reader.cut (atStart && stretch.isEmpty) rest).flatMap value

theorem PassesOver.yields {atStart : Bool} {stretch rest : Text}
    (h : reader.PassesOver atStart stretch rest) :
    reader.Yields value atStart stretch rest (stretch.flatMap fun c => value (.other c)) := by
  rw [Yields, h.cut_append, List.flatMap_append, List.flatMap_map]

/-- Nothing is recognised in what a scan passes over. -/
theorem PassesOver.yields_image {f : α → β} {atStart : Bool} {stretch rest : Text}
    (h : reader.PassesOver atStart stretch rest) :
    reader.Yields (Piece.image f) atStart stretch rest [] :=
  Piece.flatMap_image_other f stretch ▸ h.yields

theorem yields_of_read {atStart : Bool} {rest : Text} {x : α}
    (h : reader.read? atStart (reader.written x ++ rest) = some (x, rest)) :
    reader.Yields value atStart (reader.written x) rest (value (.found x)) := by
  have hne : (reader.written x).isEmpty = false := by
    simpa using reader.written_ne_nil h
  rw [Yields, reader.cut_of_some h, List.flatMap_cons, hne, Bool.and_false]

/-- Stretches next to each other are read one after the other. -/
theorem Yields.append {atStart : Bool} {first second rest : Text}
    {firstResult secondResult : List β}
    (hfirst : reader.Yields value atStart first (second ++ rest) firstResult)
    (hsecond : reader.Yields value (atStart && first.isEmpty) second rest secondResult) :
    reader.Yields value atStart (first ++ second) rest (firstResult ++ secondResult) := by
  have hempty : (first ++ second).isEmpty = (first.isEmpty && second.isEmpty) := by
    cases first <;> rfl
  rw [Yields, List.append_assoc, hfirst, hsecond, hempty, Bool.and_assoc, List.append_assoc]

theorem Yields.flatMap_cut {text : Text} {result : List β}
    (h : reader.Yields value true text [] result) :
    (reader.cut true text).flatMap value = result := by
  rwa [Yields, List.append_nil, cut_nil, List.flatMap_nil, List.append_nil] at h

end Yields

/-! ## Rewriting stretches -/

variable {replacement : α → Text}

/-- A scan turns `stretch` to `result` and goes on with `rest` behind it. -/
def Rewrites (reader : Reader α) (replacement : α → Text) (atStart : Bool)
    (stretch rest result : Text) : Prop :=
  (reader.cut atStart (stretch ++ rest)).flatMap (Piece.replaced replacement) =
    result ++
      (reader.cut (atStart && stretch.isEmpty) rest).flatMap (Piece.replaced replacement)

theorem PassesOver.rewrites {atStart : Bool} {stretch rest : Text}
    (h : reader.PassesOver atStart stretch rest) :
    reader.Rewrites replacement atStart stretch rest stretch := by
  have hyields : reader.Yields (Piece.replaced replacement) atStart stretch rest _ := h.yields
  rwa [show (stretch.flatMap fun c => Piece.replaced replacement (.other c)) = stretch from
    List.flatMap_singleton' stretch] at hyields

theorem rewrites_of_read {atStart : Bool} {rest : Text} {x : α}
    (h : reader.read? atStart (reader.written x ++ rest) = some (x, rest)) :
    reader.Rewrites replacement atStart (reader.written x) rest (replacement x) :=
  yields_of_read h

/-- Stretches next to each other are turned one after the other. -/
theorem Rewrites.append {atStart : Bool} {first second rest firstResult secondResult : Text}
    (hfirst : reader.Rewrites replacement atStart first (second ++ rest) firstResult)
    (hsecond : reader.Rewrites replacement (atStart && first.isEmpty) second rest secondResult) :
    reader.Rewrites replacement atStart (first ++ second) rest (firstResult ++ secondResult) :=
  Yields.append hfirst hsecond

end Reader

end VariantClasses
