import Mathlib.Data.List.Basic
import Mathlib.Data.List.Induction
import VariantClasses.Disk.Route
import VariantClasses.Proofs.Text.Pieces

/-! # The steps of a path

Joining paths puts their steps one after the other (`steps_join`), and the directories above
a path take its steps away from the end, one directory a step (`climb_directory`).
-/

namespace VariantClasses.Path

open Text

/-- A name that an entry of a directory can have. -/
def IsName (name : Text) : Prop :=
  name ≠ [] ∧ '/' ∉ name ∧ name ≠ here ∧ name ≠ up

instance (name : Text) : Decidable (IsName name) :=
  inferInstanceAs (Decidable (_ ∧ _ ∧ _ ∧ _))

/-! ## Pieces and steps -/

theorem pieces_ofNames {names : List Text} (hne : names ≠ [])
    (hslash : ∀ name ∈ names, '/' ∉ name) : (ofNames names).pieces = names :=
  List.splitOn_intercalate '/' hslash hne

theorem not_slash_of_mem_pieces {path : Path} {piece : Text} (h : piece ∈ path.pieces) :
    '/' ∉ piece :=
  not_mem_of_mem_splitOn h

theorem pieces_ne_nil (path : Path) : path.pieces ≠ [] :=
  List.splitOnP_ne_nil _ _

theorem mem_steps_iff {path : Path} {step : Text} :
    step ∈ path.steps ↔ step ∈ path.pieces ∧ step ≠ [] := by
  simp [steps]

theorem isName_of_mem_steps {path : Path} {step : Text} (h : step ∈ path.steps)
    (hhere : step ≠ here) (hup : step ≠ up) : IsName step := by
  obtain ⟨hpiece, hne⟩ := mem_steps_iff.mp h
  exact ⟨hne, not_slash_of_mem_pieces hpiece, hhere, hup⟩

theorem text_ne_nil_of_steps_ne_nil {path : Path} (h : path.steps ≠ []) : path.text ≠ [] := by
  intro hnil
  apply h
  simp [steps, pieces, hnil]

theorem isAbsolute_of_steps_eq_nil {path : Path} (h : path.steps = []) (hne : path.text ≠ []) :
    path.isAbsolute = true := by
  obtain ⟨c, rest, htext⟩ := List.exists_cons_of_ne_nil hne
  by_contra habsolute
  have hc : c ≠ '/' := by simpa [isAbsolute, htext] using habsolute
  obtain ⟨piece, more, hpieces⟩ := List.exists_cons_of_ne_nil
    (List.splitOnP_ne_nil (· == '/') rest)
  simp [steps, pieces, htext, List.splitOn, List.splitOnP_cons_eq_if_modifyHead, hc, hpieces] at h

/-! ## Plain names -/

/-- A path of names alone, with one slash between any two. -/
structure IsPlain (file : Path) : Prop where
  ne_nil : file.components ≠ []
  isName : ∀ name ∈ file.components, IsName name
  spelled : ofNames file.components = file

section Plain

variable {names : List Text}

theorem steps_ofNames (hne : names ≠ []) (hnames : ∀ name ∈ names, IsName name) :
    (ofNames names).steps = names := by
  rw [steps, pieces_ofNames hne fun name hname => (hnames name hname).2.1]
  apply List.filter_eq_self.mpr
  intro name hname
  simpa using (hnames name hname).1

theorem isAbsolute_ofNames (hnames : ∀ name ∈ names, IsName name) :
    (ofNames names).isAbsolute = false := by
  have hhead : (ofNames names).text.head? ≠ some '/' := by
    intro h
    obtain ⟨name, hname, hslash⟩ := head?_joinWith (fun name hname => (hnames name hname).1) h
    exact (hnames name hname).2.1 hslash
  simpa [isAbsolute] using hhead

theorem endsInSlash_ofNames (hnames : ∀ name ∈ names, IsName name) :
    (ofNames names).endsInSlash = false := by
  have hlast : (ofNames names).text.getLast? ≠ some '/' := by
    intro h
    obtain ⟨name, hname, hslash⟩ := getLast?_joinWith (fun name hname => (hnames name hname).1) h
    exact (hnames name hname).2.1 hslash
  simpa [endsInSlash] using hlast

theorem components_ofNames (hne : names ≠ []) (hnames : ∀ name ∈ names, IsName name) :
    (ofNames names).components = names := by
  have hpieces := pieces_ofNames hne fun name hname => (hnames name hname).2.1
  have hnamed : (ofNames names).namedPieces = names.zipIdx := by
    rw [namedPieces, hpieces]
    apply List.filter_eq_self.mpr
    intro piece hpiece
    have hname := hnames piece.1 (List.fst_mem_of_mem_zipIdx hpiece)
    simp [isComponent, hname.1, hname.2.2.1]
  rw [components, isAbsolute_ofNames hnames, hnamed, List.zipIdx_map_fst]
  rfl

theorem isPlain_ofNames (hne : names ≠ []) (hnames : ∀ name ∈ names, IsName name) :
    IsPlain (ofNames names) := by
  constructor <;> rw [components_ofNames hne hnames]
  · exact hne
  · exact hnames

end Plain

namespace IsPlain

variable {file : Path}

theorem steps_eq (h : file.IsPlain) : file.steps = file.components := by
  rw [← h.spelled, steps_ofNames h.ne_nil h.isName, h.spelled]

theorem isAbsolute_eq (h : file.IsPlain) : file.isAbsolute = false := by
  rw [← h.spelled, isAbsolute_ofNames h.isName]

theorem endsInSlash_eq (h : file.IsPlain) : file.endsInSlash = false := by
  rw [← h.spelled, endsInSlash_ofNames h.isName]

theorem text_ne_nil (h : file.IsPlain) : file.text ≠ [] :=
  text_ne_nil_of_steps_ne_nil (h.steps_eq ▸ h.ne_nil)

theorem eq_of_components_eq {other : Path} (h : file.IsPlain) (hother : other.IsPlain)
    (heq : file.components = other.components) : file = other := by
  rw [← h.spelled, heq, hother.spelled]

end IsPlain

/-! ## Joining -/

section Join

variable {base other : Path}

theorem isAbsolute_join (h : other.isAbsolute = false) :
    (base.join other).isAbsolute = base.isAbsolute := by
  rw [join, if_neg (by simp [h])]
  cases hbase : base.text with
  | nil => simpa [isAbsolute, hbase] using h
  | cons c rest => split <;> simp [isAbsolute, hbase]

/-- The steps of joined paths are the steps of the one and then those of the other. -/
theorem steps_join (h : other.isAbsolute = false) :
    (base.join other).steps = base.steps ++ other.steps := by
  rw [join, if_neg (by simp [h])]
  by_cases hnil : base.text = []
  · simp [steps, pieces, hnil]
  by_cases hslash : base.text.getLast? = some '/'
  · -- The slash at the end of the base is followed by an empty piece, which is no step.
    obtain ⟨front, hfront⟩ := List.getLast?_eq_some_iff.mp hslash
    simp [steps, pieces, hfront, List.splitOn, List.splitOnP_append_cons]
  · simp [steps, pieces, hnil, hslash, List.splitOn, List.splitOnP_append_cons]

theorem endsInSlash_join (h : other.isAbsolute = false) (hne : other.text ≠ []) :
    (base.join other).endsInSlash = other.endsInSlash := by
  rw [join, if_neg (by simp [h])]
  have hlast (front : Text) : (front ++ other.text).getLast? = other.text.getLast? :=
    List.getLast?_append_of_ne_nil front hne
  split
  next => rw [endsInSlash, hlast, endsInSlash]
  next => rw [endsInSlash, List.append_cons, hlast, endsInSlash]

end Join

/-! ## The directories above -/

/-- Paths of which each takes one more step than the next, dots aside, up to where all of
them start. -/
inductive Climb (absolute : Bool) : List Path → List Text → Prop
  | base : Climb absolute [⟨if absolute then top else []⟩] []
  | dot {paths : List Path} {steps : List Text} (below : Climb absolute paths steps) :
    Climb absolute paths (steps ++ [here])
  | step {path : Path} {paths : List Path} {steps : List Text} {name : Text}
    (below : Climb absolute paths steps) (start : path.isAbsolute = absolute)
    (way : path.steps = steps ++ [name]) : Climb absolute (path :: paths) (steps ++ [name])

/-- The paths that end at the components among some pieces, from the last one on, and where
they start. -/
def endings (absolute : Bool) (pieces : List Text) : List Path :=
  ((pieces.zipIdx.filter fun (piece, position) => isComponent position piece).reverse.map
    fun (_, position) => ofNames (pieces.take (position + 1))) ++
    [⟨if absolute then top else []⟩]

theorem endings_concat (absolute : Bool) (front : List Text) (piece : Text) :
    endings absolute (front ++ [piece]) =
      if isComponent front.length piece then ofNames (front ++ [piece]) :: endings absolute front
      else endings absolute front := by
  have hfront : ∀ named ∈ (front.zipIdx.filter fun (piece, position) =>
        isComponent position piece).reverse,
      (front ++ [piece]).take (named.2 + 1) = front.take (named.2 + 1) := by
    intro named hnamed
    have hlt := List.snd_lt_of_mem_zipIdx (List.mem_filter.mp (List.mem_reverse.mp hnamed)).1
    apply List.take_append_of_le_length
    omega
  have hmap := List.map_congr_left fun named hnamed => congrArg ofNames (hfront named hnamed)
  by_cases hpiece : isComponent front.length piece
  · simp [endings, List.zipIdx_append, hpiece, hmap, List.take_of_length_le]
  · simp [endings, List.zipIdx_append, hpiece, hmap]

theorem above_eq_tail_endings {path : Path} (h : path.namedPieces ≠ []) :
    path.above = (endings path.isAbsolute path.pieces).tail := by
  obtain ⟨front, last, hnamed⟩ := (List.eq_nil_or_concat path.namedPieces).resolve_left h
  rw [above, if_neg (by simpa using h), endings, ← namedPieces, hnamed]
  simp [ofNames]

theorem above_eq_endings {path : Path} {front : List Text} {last : Text}
    (hpieces : path.pieces = front ++ [last]) (hlast : isComponent front.length last = true) :
    path.above = endings path.isAbsolute front := by
  have hnamed : path.namedPieces ≠ [] := by
    simp [namedPieces, hpieces, List.zipIdx_append, hlast]
  rw [above_eq_tail_endings hnamed, hpieces, endings_concat, if_pos hlast, List.tail_cons]

/-- No path but the empty one is spelled as the directory that it lies in. -/
theorem directory_ne {path : Path} (h : path.text ≠ []) : path.directory ≠ path := by
  intro heq
  rcases List.eq_nil_or_concat path.namedPieces with hnamed | ⟨front, last, hnamed⟩
  · apply h
    rw [← heq]
    simp [directory, parent?, above, hnamed]
  rw [List.concat_eq_append] at hnamed
  rcases List.eq_nil_or_concat front with rfl | ⟨before, other, rfl⟩
  · -- The directory is where the path starts, and no component leads there.
    have hdirectory : path.directory = ⟨if path.isAbsolute then top else []⟩ := by
      simp [directory, parent?, above, hnamed]
    have hnone : path.namedPieces = [] := by
      rw [← heq, hdirectory]
      split <;> rfl
    simp [hnone] at hnamed
  · have hdirectory : path.directory = ofNames (path.pieces.take (other.2 + 1)) := by
      simp [directory, parent?, above, hnamed, ofNames]
    have hpieces : path.pieces = path.pieces.take (other.2 + 1) := by
      have hslash : ∀ piece ∈ path.pieces.take (other.2 + 1), '/' ∉ piece := fun piece hpiece =>
        not_slash_of_mem_pieces (List.mem_of_mem_take hpiece)
      rw [← pieces_ofNames (by simp [pieces_ne_nil]) hslash, ← hdirectory, heq]
    have hascending : path.namedPieces.Pairwise fun piece other => piece.2 < other.2 := by
      apply List.Pairwise.filter
      rw [← List.pairwise_map, List.zipIdx_map_snd]
      exact List.pairwise_lt_range'
    rw [hnamed] at hascending
    have hlt : other.2 < last.2 := by
      simpa using (List.pairwise_append.mp hascending).2.2 other (by simp) last (by simp)
    have hlast : last.2 < path.pieces.length := by
      have hmem : last ∈ path.namedPieces := by simp [hnamed]
      exact List.snd_lt_of_mem_zipIdx (List.mem_filter.mp hmem).1
    have hlength := congrArg List.length hpieces
    rw [List.length_take] at hlength
    omega

/-- A path is absolute when its first piece is empty and is not all of it. -/
theorem isAbsolute_iff_head?_pieces {path : Path} (hlast : path.pieces.getLast? ≠ some []) :
    path.isAbsolute = true ↔ path.pieces.head? = some [] := by
  rw [pieces] at hlast
  rw [isAbsolute, pieces]
  cases htext : path.text with
  | nil => simp [htext] at hlast
  | cons c rest =>
    by_cases hc : c = '/'
    · simp [hc, List.splitOn, List.splitOnP_cons_eq_if_modifyHead]
    · simp [hc, List.splitOn, List.splitOnP_cons_eq_if_modifyHead]

/-- Pieces without slashes of which the first one shows whether a path is absolute. -/
def Leading (absolute : Bool) (pieces : List Text) : Prop :=
  (∀ piece ∈ pieces, '/' ∉ piece) ∧ ∀ first ∈ pieces.head?, absolute = true ↔ first = []

theorem Leading.of_append {absolute : Bool} {front rest : List Text}
    (h : Leading absolute (front ++ rest)) : Leading absolute front := by
  refine ⟨fun piece hpiece => h.1 piece (List.mem_append_left rest hpiece), ?_⟩
  intro first hfirst
  exact h.2 first (List.mem_head?_append_of_mem_head? hfirst)

theorem leading_pieces {path : Path} (hlast : path.pieces.getLast? ≠ some []) :
    Leading path.isAbsolute path.pieces := by
  refine ⟨fun piece => not_slash_of_mem_pieces, ?_⟩
  intro first hfirst
  rw [isAbsolute_iff_head?_pieces hlast, hfirst, Option.some_inj]

theorem Leading.isAbsolute_ofNames {absolute : Bool} {front : List Text} {piece : Text}
    (h : Leading absolute (front ++ [piece])) (hpiece : piece ≠ []) :
    (ofNames (front ++ [piece])).isAbsolute = absolute := by
  have hpieces := pieces_ofNames (by simp) h.1
  have hlead : Leading (ofNames (front ++ [piece])).isAbsolute (front ++ [piece]) := by
    have hlast : (ofNames (front ++ [piece])).pieces.getLast? ≠ some [] := by
      simp [hpieces, hpiece]
    have hlead := leading_pieces hlast
    rwa [hpieces] at hlead
  obtain ⟨first, hfirst⟩ : ∃ first, (front ++ [piece]).head? = some first := by
    cases front <;> simp
  rw [Bool.eq_iff_iff, hlead.2 first hfirst, h.2 first hfirst]

theorem isComponent_ne_nil {position : Nat} {piece : Text}
    (h : isComponent position piece = true) : piece ≠ [] := by
  intro hnil
  simp [isComponent, hnil] at h

/-- The first of the endings has the others above it. -/
theorem exists_endings_eq {absolute : Bool} {pieces : List Text} (h : Leading absolute pieces) :
    ∃ path : Path, endings absolute pieces = path :: path.above := by
  induction pieces using List.reverseRecOn with
  | nil => exact ⟨⟨if absolute then top else []⟩, by cases absolute <;> rfl⟩
  | append_singleton front piece ih =>
    rw [endings_concat]
    by_cases hpiece : isComponent front.length piece = true
    · have hpieces := pieces_ofNames (by simp) h.1
      refine ⟨ofNames (front ++ [piece]), ?_⟩
      rw [if_pos hpiece, above_eq_endings hpieces hpiece,
        h.isAbsolute_ofNames (isComponent_ne_nil hpiece)]
    · rw [if_neg hpiece]
      exact ih h.of_append

theorem climb_endings {absolute : Bool} {pieces : List Text} (h : Leading absolute pieces) :
    Climb absolute (endings absolute pieces) (pieces.filter (!·.isEmpty)) := by
  induction pieces using List.reverseRecOn with
  | nil => exact .base
  | append_singleton front piece ih =>
    have hfront := ih h.of_append
    rw [endings_concat, List.filter_append]
    by_cases hnil : piece = []
    · simpa [isComponent, hnil] using hfront
    have hsteps : [piece].filter (!·.isEmpty) = [piece] := by simp [hnil]
    rw [hsteps]
    by_cases hpiece : isComponent front.length piece = true
    · rw [if_pos hpiece]
      refine .step hfront (h.isAbsolute_ofNames hnil) ?_
      rw [steps, pieces_ofNames (by simp) h.1, List.filter_append, hsteps]
    · -- A piece that is no component and not empty is a dot.
      have hdot : piece = here := by
        by_contra hne
        simp [isComponent, hnil, hne] at hpiece
      rw [if_neg hpiece, hdot]
      exact hfront.dot

/-- The last step is the last piece unless a slash follows it. -/
theorem exists_pieces_eq {path : Path} {last : Text} (hlast : path.steps.getLast? = some last)
    (hslash : path.endsInSlash = false) : ∃ front, path.pieces = front ++ [last] := by
  obtain ⟨front, piece, hpieces⟩ :=
    (List.eq_nil_or_concat path.pieces).resolve_left path.pieces_ne_nil
  have htext : path.text = joinWith ['/'] path.pieces := (List.intercalate_splitOn '/').symm
  rw [List.concat_eq_append] at hpieces
  have hpiece : piece ≠ [] := by
    intro hnil
    rw [hpieces, hnil] at htext
    by_cases hfront : front = []
    · -- The path would be empty and take no step.
      simp [steps, hpieces, hnil, hfront] at hlast
    · simp [endsInSlash, htext, joinWith_concat _ _ hfront] at hslash
  have heq : piece = last := by
    simpa [steps, hpieces, hpiece] using hlast
  exact ⟨front, heq ▸ hpieces⟩

/-- The directory that a path lies in, with those above it, climbs the steps before the
last. -/
theorem climb_directory {path : Path} {last : Text} (hlast : path.steps.getLast? = some last)
    (hhere : last ≠ here) (hslash : path.endsInSlash = false) :
    Climb path.isAbsolute (path.directory :: path.directory.above) path.steps.dropLast := by
  obtain ⟨front, hpieces⟩ := exists_pieces_eq hlast hslash
  have hne : last ≠ [] := (mem_steps_iff.mp (List.mem_of_getLast? hlast)).2
  have hlead : Leading path.isAbsolute (front ++ [last]) :=
    hpieces ▸ leading_pieces (by simp [hpieces, hne])
  have habove := above_eq_endings hpieces (by simp [isComponent, hne, hhere])
  have hsteps : path.steps.dropLast = front.filter (!·.isEmpty) := by
    simp [steps, hpieces, hne]
  obtain ⟨directory, hdirectory⟩ := exists_endings_eq hlead.of_append
  have heq : path.directory = directory := by
    rw [Path.directory, parent?, habove, hdirectory, List.head?_cons, Option.getD_some]
  rw [heq, ← hdirectory, hsteps]
  exact climb_endings hlead.of_append

/-- The first path of a climb takes all of its steps, dots at the end aside. -/
theorem Climb.exists_dots {absolute : Bool} {paths : List Path} {steps : List Text}
    (h : Climb absolute paths steps) :
    ∃ path above dots, paths = path :: above ∧ path.isAbsolute = absolute ∧
      steps = path.steps ++ List.replicate dots here := by
  induction h with
  | base => exact ⟨_, [], 0, rfl, by cases absolute <;> rfl, by cases absolute <;> rfl⟩
  | dot below ih =>
    obtain ⟨path, above, dots, hpaths, hstart, hsteps⟩ := ih
    refine ⟨path, above, dots + 1, hpaths, hstart, ?_⟩
    rw [hsteps, List.append_assoc, List.replicate_succ']
  | step below hstart hway ih => exact ⟨_, _, 0, rfl, hstart, by simp [hway]⟩

/-- A path that ends in a name has that as its file name. -/
theorem fileName?_eq_some {path : Path} {last : Text} (hlast : path.steps.getLast? = some last)
    (hhere : last ≠ here) (hup : last ≠ up) (hslash : path.endsInSlash = false) :
    path.fileName? = some last := by
  obtain ⟨front, hpieces⟩ := exists_pieces_eq hlast hslash
  have hne : last ≠ [] := (mem_steps_iff.mp (List.mem_of_getLast? hlast)).2
  simp [fileName?, namedPieces, hpieces, List.zipIdx_append, isComponent, hne, hhere, hup]

end VariantClasses.Path
