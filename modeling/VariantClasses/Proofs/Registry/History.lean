import Mathlib.Data.Set.Card
import VariantClasses.Proofs.Registry.Union

/-! # What the history of a registry determines

A registry is made from an empty one by recording, forgetting and clearing. What was recorded
for a path stands until the path is forgotten or all is cleared (`Stands`), and what stands
is all that a registry tells: the recorded classes, the number of files, and whether an event
changes the classes (`replay_determined`).
-/

namespace VariantClasses.Registry

/-- What can be done to a registry. -/
inductive Event
  | record (path : Path) (classes : List Text)
  | forget (path : Path)
  | clear

/-- The registry after an event. -/
def apply (registry : Registry) : Event → Registry
  | .record path classes => registry.record path classes
  | .forget path => registry.forget path
  | .clear => empty

/-- The registry after a history that starts from an empty one. -/
def replay (history : List Event) : Registry :=
  history.foldl apply empty

/-- An event takes back what was recorded for the path with the given components. -/
def Event.Drops : Event → List Text → Prop
  | .record _ _, _ => False
  | .forget path, key => path.components = key
  | .clear, _ => True

/-- Classes were recorded for the path with the given components, and no later event took them
back. -/
def Stands (history : List Event) (key : List Text) (classes : List Text) : Prop :=
  ∃ earlier path later, history = earlier ++ .record path classes :: later ∧
    path.components = key ∧ ∀ event ∈ later, ¬event.Drops key

variable {history : List Event} {key : List Text} {class_ : Text}

theorem replay_concat (history : List Event) (event : Event) :
    replay (history ++ [event]) = (replay history).apply event := by
  rw [replay, List.foldl_append]
  rfl

theorem not_stands_nil (key classes : List Text) : ¬Stands [] key classes := by
  rintro ⟨earlier, path, later, hhistory, -⟩
  simp at hhistory

/-- What stands after one more event is what it records, and what stood and is not taken
back. -/
theorem stands_concat {event : Event} {classes : List Text} :
    Stands (history ++ [event]) key classes ↔
      (∃ path, event = .record path classes ∧ path.components = key) ∨
        Stands history key classes ∧ ¬event.Drops key := by
  constructor
  · rintro ⟨earlier, path, later, hhistory, hkey, hlater⟩
    rcases List.eq_nil_or_concat later with rfl | ⟨between, last, rfl⟩
    · obtain ⟨-, hevent⟩ := List.append_inj' hhistory rfl
      exact .inl ⟨path, List.singleton_inj.mp hevent, hkey⟩
    · rw [List.concat_eq_append, ← List.cons_append, ← List.append_assoc] at hhistory
      obtain ⟨rfl, hevent⟩ := List.append_inj' hhistory rfl
      obtain rfl := List.singleton_inj.mp hevent
      simp only [List.concat_eq_append, List.mem_append, List.mem_singleton] at hlater
      exact .inr ⟨⟨earlier, path, between, rfl, hkey,
        fun other hother => hlater other (.inl hother)⟩, hlater _ (.inr rfl)⟩
  · rintro (⟨path, rfl, hkey⟩ | ⟨⟨earlier, path, later, rfl, hkey, hlater⟩, hkept⟩)
    · exact ⟨history, path, [], rfl, hkey, by simp⟩
    · refine ⟨earlier, path, later ++ [event], by simp, hkey, ?_⟩
      intro other hother
      rcases List.mem_append.mp hother with hother | hother
      · exact hlater other hother
      · obtain rfl := List.mem_singleton.mp hother
        exact hkept

/-! ## What a history leaves -/

theorem isUnion_apply {registry : Registry} (h : registry.IsUnion) (event : Event) :
    (registry.apply event).IsUnion := by
  cases event with
  | record path classes => exact h.record path classes
  | forget path => exact h.forget path
  | clear => exact isUnion_empty

theorem isUnion_replay (history : List Event) : (replay history).IsUnion := by
  induction history using List.reverseRecOn with
  | nil => exact isUnion_empty
  | append_singleton history event ih =>
    rw [replay_concat]
    exact isUnion_apply ih event

/-- The files of a registry are the paths for which something stands, each with the classes
that stand. -/
structure Tells (history : List Event) (registry : Registry) : Prop where
  listed (key : List Text) :
    registry.files.contains key = true ↔ ∃ classes, Stands history key classes
  contributed (key : List Text) (class_ : Text) :
    class_ ∈ (registry.files.find? key).getD ∅ ↔
      ∃ classes, Stands history key classes ∧ class_ ∈ classes

theorem tells_empty : Tells [] empty where
  listed key := by simp [empty, SortedMap.contains, not_stands_nil]
  contributed key class_ := by simp [empty, not_stands_nil]

/-- One event keeps the files of a registry what the history tells. -/
theorem Tells.apply {registry : Registry} (h : Tells history registry) (event : Event) :
    Tells (history ++ [event]) (registry.apply event) := by
  have hlisted := h.listed
  simp only [SortedMap.contains] at hlisted
  cases event with
  | record path classes =>
    constructor
    · intro key
      simp only [Registry.apply, Registry.record, SortedMap.contains, SortedMap.find?_insert,
        stands_concat, Event.Drops, not_false_eq_true, and_true, exists_or, ← hlisted]
      by_cases hkey : key = path.components
      · simp [hkey]
      · simp [hkey, Ne.symm hkey]
    · intro key class_
      simp only [Registry.apply, Registry.record, SortedMap.find?_insert, stands_concat,
        Event.Drops, not_false_eq_true, and_true, or_and_right, exists_or, ← h.contributed]
      by_cases hkey : key = path.components
      · simp [hkey, contribution, or_comm]
      · simp [hkey, Ne.symm hkey]
  | forget path =>
    constructor
    · intro key
      simp only [Registry.apply, SortedMap.contains, find?_forget, stands_concat, Event.Drops,
        reduceCtorEq, false_and, exists_false, false_or, exists_and_right, ← hlisted]
      by_cases hkey : key = path.components
      · simp [hkey]
      · simp [hkey, Ne.symm hkey]
    · intro key class_
      simp only [Registry.apply, find?_forget, stands_concat, Event.Drops, reduceCtorEq, false_and,
        exists_false, false_or]
      by_cases hkey : key = path.components
      · simp [hkey]
      · simp [hkey, Ne.symm hkey, h.contributed]
  | clear =>
    constructor
    · intro key
      simp [Registry.apply, empty, SortedMap.contains, stands_concat, Event.Drops]
    · intro key class_
      simp [Registry.apply, empty, stands_concat, Event.Drops]

theorem tells_replay (history : List Event) : Tells history (replay history) := by
  induction history using List.reverseRecOn with
  | nil => exact tells_empty
  | append_singleton history event ih =>
    rw [replay_concat]
    exact ih.apply event

theorem exists_find?_iff (history : List Event) (key : List Text) (class_ : Text) :
    (∃ contributed, (replay history).files.find? key = some contributed ∧ class_ ∈ contributed) ↔
      ∃ classes, Stands history key classes ∧ class_ ∈ classes := by
  rw [← (tells_replay history).contributed]
  cases (replay history).files.find? key <;> simp

/-- The classes of a registry are those that stand for some path. -/
theorem mem_classes_replay :
    class_ ∈ (replay history).classes ↔
      ∃ key classes, Stands history key classes ∧ class_ ∈ classes := by
  rw [isUnion_replay history class_]
  exact exists_congr fun key => exists_find?_iff history key class_

theorem coe_fileCount (registry : Registry) :
    (registry.fileCount : ℕ∞) = {key | registry.files.contains key = true}.encard := by
  have hkeys : {key | registry.files.contains key = true} =
      ((registry.files.entries.map Prod.fst).toFinset : Set (List Text)) := by
    ext key
    simp [SortedMap.contains, Option.isSome_iff_exists, SortedMap.find?_eq_some_iff]
  rw [hkeys, Set.encard_coe_eq_coe_finsetCard,
    List.toFinset_card_of_nodup registry.files.ascending.nodup_map, List.length_map]
  rfl

/-- A registry tells of its history what stands, and nothing else: a class is recorded exactly
when it stands for some path, the files are the paths for which something stands, recording
grows the registry exactly when it adds a class that stands for no path, and forgetting shrinks
it exactly when a class stands for the forgotten path alone. -/
theorem replay_determined (history : List Event) :
    (∀ class_, (replay history).contains class_ = true ↔
      ∃ key classes, Stands history key classes ∧ class_ ∈ classes) ∧
    (replay history).fileCount = {key | ∃ classes, Stands history key classes}.encard ∧
    (∀ path classes, (replay history).recordGrows path classes = true ↔
      ∃ class_ ∈ classes, ∀ key recorded, Stands history key recorded → class_ ∉ recorded) ∧
    (∀ path, (replay history).forgetShrinks path = true ↔
      ∃ class_, (∃ recorded, Stands history path.components recorded ∧ class_ ∈ recorded) ∧
        ∀ key recorded, Stands history key recorded → class_ ∈ recorded →
          key = path.components) := by
  refine ⟨?_, ?_, ?_, ?_⟩
  · intro class_
    rw [contains, ClassSet.contains_eq_true_iff, mem_classes_replay]
  · rw [coe_fileCount]
    simp only [(tells_replay history).listed]
  · intro path classes
    rw [recordGrows_iff]
    simp only [mem_classes_replay, not_exists, not_and]
  · intro path
    rw [(isUnion_replay history).forgetShrinks_iff]
    apply exists_congr
    intro class_
    rw [mem_classes_replay]
    -- The class has a contributor, which can only be the forgotten path.
    have hsole : (∀ key contributed, (replay history).files.find? key = some contributed →
        class_ ∈ contributed → key = path.components) ↔
        ∀ key recorded, Stands history key recorded → class_ ∈ recorded →
          key = path.components := by
      apply forall_congr'
      intro key
      have hiff := exists_find?_iff history key class_
      constructor
      · intro h recorded hstands hmem
        obtain ⟨contributed, hfind, hclass⟩ := hiff.mpr ⟨recorded, hstands, hmem⟩
        exact h contributed hfind hclass
      · intro h contributed hfind hmem
        obtain ⟨recorded, hstands, hclass⟩ := hiff.mp ⟨contributed, hfind, hmem⟩
        exact h recorded hstands hclass
    rw [hsole]
    constructor
    · rintro ⟨⟨key, recorded, hstands, hmem⟩, honly⟩
      obtain rfl := honly key recorded hstands hmem
      exact ⟨⟨recorded, hstands, hmem⟩, honly⟩
    · rintro ⟨⟨recorded, hstands, hmem⟩, honly⟩
      exact ⟨⟨path.components, recorded, hstands, hmem⟩, honly⟩

end VariantClasses.Registry
