import VariantClasses.Text
import VariantClasses.Ascending.Merge

/-! # Sets of classes

A set of classes lists its members in code point order, each once, so two sets
with the same members are equal.
-/

namespace VariantClasses

/-- A finite set of classes. -/
structure ClassSet where
  /-- The members in code point order. -/
  toList : List Text
  ascending : Ascending id toList
  deriving DecidableEq

namespace ClassSet

instance : Membership Text ClassSet :=
  ⟨fun classes class_ => class_ ∈ classes.toList⟩

instance (class_ : Text) (classes : ClassSet) : Decidable (class_ ∈ classes) :=
  inferInstanceAs (Decidable (class_ ∈ classes.toList))

instance : EmptyCollection ClassSet :=
  ⟨⟨[], List.Pairwise.nil⟩⟩

instance : Inhabited ClassSet := ⟨∅⟩

def ofList (classes : List Text) : ClassSet :=
  ⟨sortByKey id classes, ascending_sortByKey id classes⟩

def union (classes others : ClassSet) : ClassSet :=
  ⟨mergeByKey id classes.toList others.toList,
    ascending_mergeByKey classes.ascending others.ascending⟩

def insertAll (classes : ClassSet) (added : List Text) : ClassSet :=
  classes.union (ofList added)

def size (classes : ClassSet) : Nat :=
  classes.toList.length

def isEmpty (classes : ClassSet) : Bool :=
  classes.toList.isEmpty

def contains (classes : ClassSet) (class_ : Text) : Bool :=
  decide (class_ ∈ classes)

theorem mem_def {class_ : Text} {classes : ClassSet} :
    class_ ∈ classes ↔ class_ ∈ classes.toList :=
  Iff.rfl

@[simp]
theorem not_mem_empty (class_ : Text) : class_ ∉ (∅ : ClassSet) :=
  List.not_mem_nil

/-- Two sets with the same members are equal. -/
@[ext]
theorem ext {classes others : ClassSet} (h : ∀ class_, class_ ∈ classes ↔ class_ ∈ others) :
    classes = others := by
  obtain ⟨members, hmembers⟩ := classes
  obtain ⟨others, hothers⟩ := others
  simpa using hmembers.eq_of_mem_iff hothers h

@[simp]
theorem mem_ofList {class_ : Text} {classes : List Text} :
    class_ ∈ ofList classes ↔ class_ ∈ classes :=
  mem_sortByKey_id

@[simp]
theorem mem_union {class_ : Text} {classes others : ClassSet} :
    class_ ∈ classes.union others ↔ class_ ∈ classes ∨ class_ ∈ others := by
  simp only [mem_def, union, mem_mergeByKey classes.ascending others.ascending, id]
  grind

@[simp]
theorem mem_insertAll {class_ : Text} {classes : ClassSet} {added : List Text} :
    class_ ∈ classes.insertAll added ↔ class_ ∈ classes ∨ class_ ∈ added := by
  simp [insertAll]

end ClassSet

end VariantClasses
