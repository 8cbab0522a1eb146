import Mathlib.Data.List.Perm.Subperm
import VariantClasses.Proofs.Ascending
import VariantClasses.Registry

/-! # The recorded classes are the union of the contributions

A registry keeps the recorded classes beside what each file contributed. Recording and
forgetting keep the one the union of the other (`IsUnion`), so what they report about the size
is about members: recording grows a registry by a class that is new to it
(`recordGrows_iff`), and forgetting takes back a class that no other file contributed
(`IsUnion.forgetShrinks_iff`).
-/

namespace VariantClasses

/-- A set of the same size as a set around it is that set. -/
theorem ClassSet.size_eq_iff {classes others : ClassSet} (h : ∀ class_ ∈ classes, class_ ∈ others) :
    classes.size = others.size ↔ classes = others := by
  constructor
  · intro hsize
    have hnodup : classes.toList.Nodup := classes.ascending.nodup
    have hperm : classes.toList.Perm others.toList :=
      (hnodup.subperm h).perm_of_length_le (Nat.le_of_eq hsize.symm)
    ext class_
    exact hperm.mem_iff
  · intro heq
    rw [heq]

theorem ClassSet.contains_eq_true_iff {classes : ClassSet} {class_ : Text} :
    classes.contains class_ = true ↔ class_ ∈ classes :=
  decide_eq_true_iff

namespace Registry

variable {registry : Registry} {path : Path} {classes : List Text}

/-- The recorded classes are those that the files contributed. -/
def IsUnion (registry : Registry) : Prop :=
  ∀ class_, class_ ∈ registry.classes ↔
    ∃ key classes, registry.files.find? key = some classes ∧ class_ ∈ classes

theorem isUnion_empty : empty.IsUnion := by
  intro class_
  simp [empty]

/-- What the files contributed determines a registry. -/
theorem IsUnion.eq_of_find?_iff {other : Registry} (h : registry.IsUnion) (hother : other.IsUnion)
    (hfind : ∀ key classes, registry.files.find? key = some classes ↔
      other.files.find? key = some classes) : registry = other := by
  have hclasses : registry.classes = other.classes := by
    ext class_
    rw [h class_, hother class_]
    simp only [hfind]
  obtain ⟨classes, files⟩ := registry
  obtain ⟨others, more⟩ := other
  obtain rfl : classes = others := hclasses
  obtain rfl : files = more := SortedMap.eq_of_find?_iff hfind
  rfl

/-! ## Recording -/

theorem mem_classes_record {class_ : Text} :
    class_ ∈ (registry.record path classes).classes ↔
      class_ ∈ registry.classes ∨ class_ ∈ classes :=
  ClassSet.mem_insertAll

theorem IsUnion.record (h : registry.IsUnion) (path : Path) (classes : List Text) :
    (registry.record path classes).IsUnion := by
  intro class_
  simp only [Registry.record, ClassSet.mem_insertAll, h class_, SortedMap.find?_insert]
  constructor
  · rintro (⟨key, contributed, hfind, hmem⟩ | hmem)
    · by_cases hkey : key = path.components
      · refine ⟨key, _, if_pos hkey, ?_⟩
        rw [ClassSet.mem_insertAll, contribution, ← hkey, hfind]
        exact .inl hmem
      · exact ⟨key, contributed, (if_neg hkey).trans hfind, hmem⟩
    · exact ⟨path.components, _, if_pos rfl, ClassSet.mem_insertAll.mpr (.inr hmem)⟩
  · rintro ⟨key, contributed, hfind, hmem⟩
    by_cases hkey : key = path.components
    · rw [if_pos hkey] at hfind
      obtain rfl := Option.some.inj hfind
      apply (ClassSet.mem_insertAll.mp hmem).imp_left
      intro hbefore
      rw [contribution] at hbefore
      cases hfound : registry.files.find? path.components with
      | none => simp [hfound] at hbefore
      | some found =>
        rw [hfound] at hbefore
        exact ⟨_, found, hfound, hbefore⟩
    · rw [if_neg hkey] at hfind
      exact .inl ⟨key, contributed, hfind, hmem⟩

/-- Recording that adds no class leaves the size as it is, and the other way round. -/
theorem size_record_eq_iff :
    (registry.record path classes).size = registry.size ↔
      (registry.record path classes).classes = registry.classes := by
  have hsubset : ∀ class_ ∈ registry.classes,
      class_ ∈ (registry.record path classes).classes :=
    fun class_ hclass => mem_classes_record.mpr (.inl hclass)
  rw [size, size, eq_comm, ClassSet.size_eq_iff hsubset, eq_comm]

/-- Recording grows a registry exactly when one of the classes is new to it. -/
theorem recordGrows_iff :
    registry.recordGrows path classes = true ↔ ∃ class_ ∈ classes, class_ ∉ registry.classes := by
  rw [recordGrows, bne_iff_ne, Ne, size_record_eq_iff]
  constructor
  · intro hne
    by_contra hold
    apply hne
    ext class_
    rw [mem_classes_record]
    constructor
    · intro hmem
      rcases hmem with hmem | hmem
      · exact hmem
      · by_contra hnew
        exact hold ⟨class_, hmem, hnew⟩
    · exact .inl
  · rintro ⟨class_, hmem, hnew⟩ heq
    exact hnew (heq ▸ mem_classes_record.mpr (.inr hmem))

/-! ## Forgetting -/

theorem find?_forget (key : List Text) :
    (registry.forget path).files.find? key =
      if key = path.components then none else registry.files.find? key := by
  rw [forget]
  split
  next => exact SortedMap.find?_erase _ _ _
  next hnone =>
    rw [SortedMap.contains, Option.not_isSome_iff_eq_none] at hnone
    by_cases hkey : key = path.components
    · rw [if_pos hkey, hkey, hnone]
    · rw [if_neg hkey]

theorem IsUnion.forget (h : registry.IsUnion) (path : Path) : (registry.forget path).IsUnion := by
  rw [Registry.forget]
  split
  next =>
    intro class_
    rw [ClassSet.mem_ofList, List.mem_flatMap]
    simp only [SortedMap.values, List.mem_map, SortedMap.find?_eq_some_iff, ClassSet.mem_def]
    constructor
    · rintro ⟨_, ⟨⟨key, contributed⟩, hmem, rfl⟩, hclass⟩
      exact ⟨key, contributed, hmem, hclass⟩
    · rintro ⟨key, contributed, hmem, hclass⟩
      exact ⟨contributed, ⟨(key, contributed), hmem, rfl⟩, hclass⟩
  next => exact h

/-- Forgetting a file shrinks a registry exactly when no other file contributed one of its
classes. -/
theorem IsUnion.forgetShrinks_iff (h : registry.IsUnion) :
    registry.forgetShrinks path = true ↔
      ∃ class_ ∈ registry.classes, ∀ key contributed,
        registry.files.find? key = some contributed → class_ ∈ contributed →
          key = path.components := by
  have hforget (class_ : Text) : class_ ∈ (registry.forget path).classes ↔
      ∃ key contributed, registry.files.find? key = some contributed ∧ class_ ∈ contributed ∧
        key ≠ path.components := by
    rw [h.forget path class_]
    apply exists_congr
    intro key
    rw [find?_forget]
    by_cases hkey : key = path.components <;> simp [hkey]
  have hsubset : ∀ class_ ∈ (registry.forget path).classes, class_ ∈ registry.classes := by
    intro class_ hclass
    obtain ⟨key, contributed, hfind, hmem, -⟩ := (hforget class_).mp hclass
    exact (h class_).mpr ⟨key, contributed, hfind, hmem⟩
  rw [forgetShrinks, bne_iff_ne, Ne, size, size, ClassSet.size_eq_iff hsubset]
  constructor
  · intro hne
    by_contra hshared
    apply hne
    ext class_
    refine ⟨hsubset class_, ?_⟩
    intro hclass
    by_contra hgone
    apply hshared
    refine ⟨class_, hclass, ?_⟩
    intro key contributed hfind hmem
    by_contra hkey
    exact hgone ((hforget class_).mpr ⟨key, contributed, hfind, hmem, hkey⟩)
  · rintro ⟨class_, hclass, hsole⟩ heq
    obtain ⟨key, contributed, hfind, hmem, hkey⟩ := (hforget class_).mp (heq ▸ hclass)
    exact hkey (hsole key contributed hfind hmem)

end Registry

end VariantClasses
