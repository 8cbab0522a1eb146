import VariantClasses.Ascending.Merge

/-! # Finite maps in key order

A finite map lists its entries in strictly ascending order of their keys, so two
maps with the same entries are equal.
-/

namespace VariantClasses

/-- A finite map from `κ` to `ν`. -/
structure SortedMap (κ ν : Type) [LT κ] where
  /-- The entries in key order. -/
  entries : List (κ × ν)
  ascending : Ascending Prod.fst entries
  deriving DecidableEq

namespace SortedMap

variable {κ ν : Type} [LT κ]

instance : EmptyCollection (SortedMap κ ν) :=
  ⟨⟨[], List.Pairwise.nil⟩⟩

instance : Inhabited (SortedMap κ ν) := ⟨∅⟩

def size (map : SortedMap κ ν) : Nat :=
  map.entries.length

def values (map : SortedMap κ ν) : List ν :=
  map.entries.map Prod.snd

section

variable [DecidableEq κ]

def find? (map : SortedMap κ ν) (key : κ) : Option ν :=
  (map.entries.find? (·.1 == key)).map Prod.snd

def contains (map : SortedMap κ ν) (key : κ) : Bool :=
  (map.find? key).isSome

def erase (map : SortedMap κ ν) (key : κ) : SortedMap κ ν :=
  ⟨map.entries.filter (·.1 != key), map.ascending.filter _⟩

end

/-- The map with `key` sent to `value`. -/
def insert [DecidableLT κ] [StrictTotal κ]
    (map : SortedMap κ ν) (key : κ) (value : ν) : SortedMap κ ν :=
  ⟨putByKey Prod.fst (key, value) map.entries, ascending_putByKey (key, value) map.ascending⟩

@[simp]
theorem find?_empty [DecidableEq κ] (key : κ) : (∅ : SortedMap κ ν).find? key = none :=
  rfl

theorem find?_insert [DecidableLT κ] [StrictTotal κ]
    [DecidableEq κ] (map : SortedMap κ ν) (key sought : κ) (value : ν) :
    (map.insert key value).find? sought =
      if sought = key then some value else map.find? sought := by
  rw [find?, insert, find?_putByKey _ map.ascending]
  by_cases h : sought = key
  · simp [h]
  · simp [h, Ne.symm h, find?]

theorem find?_erase [DecidableEq κ] (map : SortedMap κ ν) (key sought : κ) :
    (map.erase key).find? sought = if sought = key then none else map.find? sought := by
  obtain ⟨entries, ascending⟩ := map
  simp only [find?, erase]
  clear ascending
  induction entries with
  | nil => simp
  | cons entry rest ih => grind

theorem find?_eq_some_iff [StrictTotal κ] [DecidableEq κ] {map : SortedMap κ ν} {key : κ}
    {value : ν} : map.find? key = some value ↔ (key, value) ∈ map.entries := by
  simp only [find?, Option.map_eq_some_iff, map.ascending.find?_eq_some_iff]
  constructor
  · intro h
    obtain ⟨entry, ⟨hmem, rfl⟩, rfl⟩ := h
    exact hmem
  · exact fun h => ⟨_, ⟨h, rfl⟩, rfl⟩

/-- Two maps that find the same values are equal. -/
theorem eq_of_find?_iff [StrictTotal κ] [DecidableEq κ] {map other : SortedMap κ ν}
    (h : ∀ key value, map.find? key = some value ↔ other.find? key = some value) : map = other := by
  simp only [find?_eq_some_iff] at h
  obtain ⟨entries, hentries⟩ := map
  obtain ⟨others, hothers⟩ := other
  simpa using hentries.eq_of_mem_iff hothers fun entry => h entry.1 entry.2

/-- The entries whose key and value satisfy `keep`. -/
def filter (map : SortedMap κ ν) (keep : κ → ν → Bool) : SortedMap κ ν :=
  ⟨map.entries.filter fun entry => keep entry.1 entry.2, map.ascending.filter _⟩

end SortedMap

end VariantClasses
