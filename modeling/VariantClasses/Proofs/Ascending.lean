import VariantClasses.Ascending.Distinct

/-! # Distinct members by erasing repetitions

An ascending list has no two entries of one key. Sorting twice by place keeps what erasing
every repetition of an earlier member keeps.
-/

namespace VariantClasses

section Nodup

variable {α κ : Type} [LT κ] [StrictTotal κ] {key : α → κ} {entries : List α}

/-- No two entries of an ascending list have the same key. -/
theorem Ascending.nodup_map (h : Ascending key entries) : (entries.map key).Nodup := by
  apply List.pairwise_map.mpr
  apply List.Pairwise.imp _ h
  intro x y hlt heq
  rw [heq] at hlt
  exact StrictTotal.irrefl _ hlt

theorem Ascending.nodup (h : Ascending key entries) : entries.Nodup :=
  List.Pairwise.of_map key (fun _ _ hkey heq => hkey (congrArg key heq)) h.nodup_map

end Nodup

variable {κ : Type} [DecidableEq κ]

/-- The first place of `x`, by the equality that is decided. -/
abbrev placeOf (members : List κ) (x : κ) : Nat :=
  @List.idxOf κ instBEqOfDecidableEq x members

theorem placeOf_append {front rest : List κ} {x : κ} :
    placeOf (front ++ rest) x =
      if x ∈ front then placeOf front x else placeOf rest x + front.length :=
  List.idxOf_append

theorem placeOf_lt_length {members : List κ} {x : κ} (h : x ∈ members) :
    placeOf members x < members.length :=
  List.idxOf_lt_length_of_mem h

variable [BEq κ] [LawfulBEq κ]

/-- What stays when repetitions are erased stands in the order of its first places. -/
theorem ascending_eraseDups (members : List κ) :
    Ascending (placeOf members) members.eraseDups := by
  induction hlength : members.length generalizing members with
  | zero =>
    rw [List.length_eq_zero_iff.mp hlength]
    exact List.Pairwise.nil
  | succ length ih =>
    rcases List.eq_nil_or_concat members with rfl | ⟨front, last, hmembers⟩
    · cases hlength
    rw [List.concat_eq_append] at hmembers
    subst hmembers
    rw [List.length_append, List.length_singleton, Nat.add_right_cancel_iff] at hlength
    -- The last member stays when it is new, and then its place is behind all others.
    rw [List.eraseDups_append]
    refine List.pairwise_append.mpr ⟨?_, ?_, fun x hx y hy => ?_⟩
    · apply (ih front hlength).imp_of_mem
      intro x y hx hy hlt
      rw [placeOf_append, if_pos (List.mem_eraseDups.mp hx), placeOf_append,
        if_pos (List.mem_eraseDups.mp hy)]
      exact hlt
    · by_cases hmem : last ∈ front <;> simp [List.removeAll, hmem, List.eraseDups_cons]
    · obtain ⟨hlast, hy⟩ : y = last ∧ y ∉ front := by
        simpa [List.removeAll] using List.mem_eraseDups.mp hy
      have hx := List.mem_eraseDups.mp hx
      rw [placeOf_append, if_pos hx, placeOf_append, if_neg hy]
      exact Nat.lt_of_lt_of_le (placeOf_lt_length hx) (Nat.le_add_left _ _)

theorem distinct_eq_eraseDups [LT κ] [DecidableLT κ] [StrictTotal κ] (members : List κ) :
    distinct members = members.eraseDups :=
  (ascending_distinct members).eq_of_mem_iff (ascending_eraseDups members) fun x => by
    rw [mem_distinct, List.mem_eraseDups]

end VariantClasses
