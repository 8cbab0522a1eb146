import VariantClasses.Ascending.Merge

/-! # The distinct members of a list

Every member of a list once, in the order in which the members first stand there. Those
are the members (`mem_distinct`), and the order is that of their first places
(`ascending_distinct`).
-/

namespace VariantClasses

variable {κ : Type} [LT κ] [DecidableLT κ]

/-- The members of a list, each once, in the order in which they first stand there. -/
def distinct (members : List κ) : List κ :=
  (sortByKey Prod.snd (sortByKey Prod.fst members.zipIdx)).map Prod.fst

variable [StrictTotal κ] [DecidableEq κ]

/-- The members that stand first, with their places, are those sorting keeps. -/
theorem mem_sortByKey_zipIdx {members : List κ} {x : κ} {i : Nat} :
    (x, i) ∈ sortByKey Prod.fst members.zipIdx ↔ x ∈ members ∧ members.idxOf x = i := by
  rw [mem_sortByKey]
  have step (start : Nat) : (members.zipIdx start).find? (fun entry => entry.1 == x) =
      if x ∈ members then some (x, members.idxOf x + start) else none := by
    induction members generalizing start with
    | nil => rfl
    | cons y rest ih =>
      by_cases hy : y = x
      · simp [hy]
      · have hx : x ≠ y := fun h => hy h.symm
        rw [List.zipIdx_cons, List.find?_cons_of_neg (by simpa using hy), ih]
        simp [hx, List.idxOf_cons, beq_false_of_ne hy, Nat.add_comm, Nat.add_left_comm]
  rw [step 0]
  by_cases hx : x ∈ members <;> simp [hx]

/-- Sorting by place keeps all of them. -/
theorem mem_sortByKey_sortByKey_zipIdx {members : List κ} {x : κ} {i : Nat} :
    (x, i) ∈ sortByKey Prod.snd (sortByKey Prod.fst members.zipIdx) ↔
      x ∈ members ∧ members.idxOf x = i := by
  rw [mem_sortByKey, ← mem_sortByKey_zipIdx]
  constructor
  · exact List.mem_of_find?_eq_some
  · intro h
    obtain ⟨⟨y, j⟩, hfound⟩ := Option.isSome_iff_exists.mp
      (List.find?_isSome.mpr ⟨(x, i), h, beq_self_eq_true _⟩ :
        ((sortByKey Prod.fst members.zipIdx).find? (Prod.snd · == i)).isSome)
    have hj : j = i := by simpa using List.find?_some hfound
    have hy := mem_sortByKey_zipIdx.mp (List.mem_of_find?_eq_some hfound)
    have hx := mem_sortByKey_zipIdx.mp h
    have heq : y = x := by
      have hidx : members.idxOf y = members.idxOf x := hy.2.trans (hj.trans hx.2.symm)
      rw [← List.getElem_idxOf (List.idxOf_lt_length_of_mem hy.1),
        ← List.getElem_idxOf (List.idxOf_lt_length_of_mem hx.1)]
      simp only [hidx]
    rw [hfound, heq, hj]

@[simp]
theorem mem_distinct {members : List κ} {x : κ} : x ∈ distinct members ↔ x ∈ members := by
  simp [distinct, mem_sortByKey_sortByKey_zipIdx]

/-- The distinct members stand in the order of their first places. -/
theorem ascending_distinct (members : List κ) : Ascending members.idxOf (distinct members) := by
  apply List.pairwise_map.mpr
  apply (ascending_sortByKey Prod.snd _).imp_of_mem
  intro entry other h hother hlt
  change members.idxOf entry.1 < members.idxOf other.1
  rw [(mem_sortByKey_sortByKey_zipIdx.mp h).2, (mem_sortByKey_sortByKey_zipIdx.mp hother).2]
  exact hlt

end VariantClasses
