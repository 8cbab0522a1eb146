import VariantClasses.Artifact
import VariantClasses.Proofs.Registry.History
import VariantClasses.Text.Encoding

/-! # The order of steps on different files

A step on one file leaves what every other file contributed (`find?_apply`), so after a sequence
of steps a file has contributed what its own steps, in their order, make of its contribution
(`find?_foldl_apply`). As the contributions determine a registry, steps on different files
commute, and how the steps of different files are interleaved makes no difference.
-/

namespace VariantClasses.Registry

/-- The file that an event is a step on, by the components of its path. Clearing is a step on
none. -/
def Event.file? : Event → Option (List Text)
  | .record path _ | .forget path => some path.components
  | .clear => none

/-- What a step on a file makes of the file's contribution. -/
def Event.contributed : Event → Option ClassSet → Option ClassSet
  | .record _ classes, before => some ((before.getD ∅).insertAll classes)
  | .forget _, _ | .clear, _ => none

/-- Two sequences of steps on files in which each file has the same steps in the same order. -/
structure Interleaved (steps others : List Event) : Prop where
  onFiles : ∀ step ∈ steps ++ others, step.file?.isSome = true
  sameSteps (key : List Text) :
    steps.filter (·.file? = some key) = others.filter (·.file? = some key)

variable {registry : Registry} {key otherKey sought : List Text} {steps others : List Event}

/-! ## Contributions -/

/-- A step on a file changes the contribution of that file only. -/
theorem find?_apply {step : Event} (hfile : step.file? = some key) (sought : List Text) :
    (registry.apply step).files.find? sought =
      if sought = key then step.contributed (registry.files.find? sought)
      else registry.files.find? sought := by
  cases step with
  | record path classes =>
    obtain rfl := Option.some.inj hfile
    rw [apply, record, SortedMap.find?_insert, contribution]
    by_cases hsought : sought = path.components
    · rw [if_pos hsought, if_pos hsought, hsought]
      rfl
    · rw [if_neg hsought, if_neg hsought]
  | forget path =>
    obtain rfl := Option.some.inj hfile
    exact find?_forget sought
  | clear => cases hfile

/-- A file has contributed what its own steps make of its contribution, whatever stands between
them. -/
theorem find?_foldl_apply (honFiles : ∀ step ∈ steps, step.file?.isSome = true)
    (sought : List Text) :
    (steps.foldl apply registry).files.find? sought =
      (steps.filter (·.file? = some sought)).foldl (fun before step => step.contributed before)
        (registry.files.find? sought) := by
  induction steps generalizing registry with
  | nil => rfl
  | cons step steps ih =>
    obtain ⟨hstep, hsteps⟩ := List.forall_mem_cons.mp honFiles
    obtain ⟨key, hkey⟩ := Option.isSome_iff_exists.mp hstep
    rw [List.foldl_cons, ih hsteps, find?_apply hkey]
    by_cases hsought : sought = key
    · rw [if_pos hsought, List.filter_cons_of_pos (by simp [hkey, hsought]), List.foldl_cons]
    · rw [if_neg hsought, List.filter_cons_of_neg (by simp [hkey, Ne.symm hsought])]

theorem isUnion_foldl_apply (h : registry.IsUnion) (steps : List Event) :
    (steps.foldl apply registry).IsUnion := by
  induction steps generalizing registry with
  | nil => exact h
  | cons step steps ih => exact ih (isUnion_apply h step)

/-! ## Interleavings -/

/-- Two interleavings of the same steps make the same of a registry whose classes are the union
of the contributions. -/
theorem Interleaved.foldl_apply_eq (h : Interleaved steps others) (hunion : registry.IsUnion) :
    steps.foldl apply registry = others.foldl apply registry := by
  apply (isUnion_foldl_apply hunion steps).eq_of_find?_iff (isUnion_foldl_apply hunion others)
  intro key classes
  rw [find?_foldl_apply fun step hstep => h.onFiles step (List.mem_append_left _ hstep),
    find?_foldl_apply fun step hstep => h.onFiles step (List.mem_append_right _ hstep),
    h.sameSteps key]

/-- Two steps on different files are an interleaving of themselves in either order. -/
theorem interleaved_swap {step other : Event} (hfile : step.file? = some key)
    (hother : other.file? = some otherKey) (hne : key ≠ otherKey) :
    Interleaved [step, other] [other, step] where
  onFiles := by simp [hfile, hother]
  sameSteps sought := by
    by_cases hsought : key = sought
    · simp [hfile, hother, hsought, (hsought ▸ hne).symm]
    · simp [List.filter_cons, hfile, hsought]

/-- From every registry that a history leaves, steps on different files commute, and two
interleavings of the same steps of each file lead to the same registry and the same bytes of the
artifact. -/
theorem replay_interleaved (history : List Event) :
    (∀ step other key otherKey, step.file? = some key → other.file? = some otherKey →
      key ≠ otherKey →
      ((replay history).apply step).apply other = ((replay history).apply other).apply step) ∧
    ∀ steps others, Interleaved steps others →
      steps.foldl apply (replay history) = others.foldl apply (replay history) ∧
      (renderArtifact (steps.foldl apply (replay history)).classes).encode =
        (renderArtifact (others.foldl apply (replay history)).classes).encode := by
  have hunion := isUnion_replay history
  constructor
  · intro step other key otherKey hfile hother hne
    exact (interleaved_swap hfile hother hne).foldl_apply_eq hunion
  · intro steps others h
    have heq := h.foldl_apply_eq hunion
    exact ⟨heq, by rw [heq]⟩

/-- Two files share a class, and one of them is forgotten before or after the other is recorded. -/
theorem replay_interleaved_of_shared_class :
    let page : Path := .ofString "a.html"
    let card : Path := .ofString "b.html"
    let shared := "hover:x".toList
    let history : List Event := [.record page [shared]]
    let first : List Event := [.record card [shared], .forget page, .record page []]
    let second : List Event := [.forget page, .record page [], .record card [shared]]
    ((replay history).record card [shared]).forget page =
        ((replay history).forget page).record card [shared] ∧
      Interleaved first second ∧
      first.foldl apply (replay history) = second.foldl apply (replay history) ∧
      (renderArtifact (first.foldl apply (replay history)).classes).encode =
        (renderArtifact (second.foldl apply (replay history)).classes).encode := by
  intro page card shared history first second
  have hinterleaved : Interleaved first second := by
    refine ⟨by decide, ?_⟩
    intro key
    by_cases hpage : page.components = key
    · subst hpage
      rfl
    · simp [first, second, List.filter_cons, Event.file?, hpage]
  obtain ⟨hcommute, hsame⟩ := replay_interleaved history
  exact ⟨hcommute (.record card [shared]) (.forget page) card.components page.components rfl rfl
    (by decide), hinterleaved, hsame first second hinterleaved⟩

end VariantClasses.Registry
