import VariantClasses.Ascending

/-! # Merging and sorting by a key

Two ascending lists are merged in one pass, and any list is sorted by merging runs of
doubling length. Of entries with the same key the first stays: a key finds in the result
what it finds first in the lists (`find?_mergeByKey`, `find?_sortByKey`).
-/

namespace VariantClasses

variable {α κ : Type} [LT κ] [DecidableLT κ]

/-- Merges `x` and what follows it with a list, given what the entries behind `x` are
merged to. -/
def mergeFrom (key : α → κ) (x : α) (mergeRest : List α → List α) : List α → List α
  | [] => x :: mergeRest []
  | y :: more =>
    if key x < key y then x :: mergeRest (y :: more)
    else if key y < key x then y :: mergeFrom key x mergeRest more
    else x :: mergeRest more

/-- Merges two ascending lists. Of two entries with the same key the one of the first
list stays. -/
def mergeByKey (key : α → κ) : List α → List α → List α
  | [] => id
  | x :: rest => mergeFrom key x (mergeByKey key rest)

@[simp]
theorem mergeByKey_nil (key : α → κ) (others : List α) : mergeByKey key [] others = others :=
  rfl

@[simp]
theorem mergeByKey_nil_right (key : α → κ) (entries : List α) :
    mergeByKey key entries [] = entries := by
  induction entries with
  | nil => rfl
  | cons x rest ih => exact congrArg (x :: ·) ih

theorem mergeByKey_cons_cons (key : α → κ) (x y : α) (rest more : List α) :
    mergeByKey key (x :: rest) (y :: more) =
      if key x < key y then x :: mergeByKey key rest (y :: more)
      else if key y < key x then y :: mergeByKey key (x :: rest) more
      else x :: mergeByKey key rest more :=
  rfl

theorem mem_or_mem_of_mem_mergeByKey {key : α → κ} {entries others : List α} {z : α}
    (h : z ∈ mergeByKey key entries others) : z ∈ entries ∨ z ∈ others := by
  induction entries generalizing others with
  | nil => exact .inr h
  | cons x rest ih =>
    induction others with
    | nil => simpa using h
    | cons y more ihmore =>
      rw [mergeByKey_cons_cons] at h
      grind

theorem ascending_mergeByKey [StrictTotal κ] {key : α → κ} {entries others : List α}
    (h : Ascending key entries) (hothers : Ascending key others) :
    Ascending key (mergeByKey key entries others) := by
  induction entries generalizing others with
  | nil => exact hothers
  | cons x rest ih =>
    obtain ⟨hx, hrest⟩ := List.pairwise_cons.mp h
    induction others with
    | nil => simpa using h
    | cons y more ihmore =>
      obtain ⟨hy, hmore⟩ := List.pairwise_cons.mp hothers
      rw [mergeByKey_cons_cons]
      split
      next hlt =>
        refine List.pairwise_cons.mpr ⟨fun z hz => ?_, ih hrest hothers⟩
        rcases mem_or_mem_of_mem_mergeByKey hz with hz | hz
        · exact hx z hz
        · rcases List.mem_cons.mp hz with rfl | hz
          · exact hlt
          · exact StrictTotal.trans hlt (hy z hz)
      next hge =>
        split
        next hlt =>
          refine List.pairwise_cons.mpr ⟨fun z hz => ?_, ihmore hmore⟩
          rcases mem_or_mem_of_mem_mergeByKey hz with hz | hz
          · rcases List.mem_cons.mp hz with rfl | hz
            · exact hlt
            · exact StrictTotal.trans hlt (hx z hz)
          · exact hy z hz
        next hle =>
          have hkey : key x = key y := StrictTotal.eq_of_not_lt hge hle
          refine List.pairwise_cons.mpr ⟨fun z hz => ?_, ih hrest hmore⟩
          rcases mem_or_mem_of_mem_mergeByKey hz with hz | hz
          · exact hx z hz
          · exact hkey ▸ hy z hz

theorem find?_mergeByKey [StrictTotal κ] [DecidableEq κ] {key : α → κ} {entries others : List α}
    (h : Ascending key entries) (hothers : Ascending key others) (k : κ) :
    (mergeByKey key entries others).find? (key · == k) =
      (entries.find? (key · == k)).or (others.find? (key · == k)) := by
  induction entries generalizing others with
  | nil => rfl
  | cons x rest ih =>
    obtain ⟨hx, hrest⟩ := List.pairwise_cons.mp h
    induction others with
    | nil => simp
    | cons y more ihmore =>
      obtain ⟨hy, hmore⟩ := List.pairwise_cons.mp hothers
      have ih' := ih hrest hothers
      have ihmore' := ihmore hmore
      rw [mergeByKey_cons_cons]
      split
      next hlt => by_cases hk : key x = k <;> simp [hk, ih']
      next hge =>
        split
        next hlt =>
          by_cases hk : key y = k
          · have hnone : (x :: rest).find? (key · == k) = none := by
              apply List.find?_eq_none.mpr
              intro z hz heq
              have hkey : key z = key y := (beq_iff_eq.mp heq).trans hk.symm
              rcases List.mem_cons.mp hz with rfl | hz
              · exact StrictTotal.irrefl _ (hkey ▸ hlt)
              · exact StrictTotal.irrefl _ (hkey ▸ StrictTotal.trans hlt (hx z hz))
            rw [hnone]
            simp [hk]
          · rw [List.find?_cons_of_neg (by simpa using hk), ihmore',
              List.find?_cons_of_neg (a := y) (by simpa using hk)]
        next hle =>
          have hkey : key x = key y := StrictTotal.eq_of_not_lt hge hle
          have ih' := ih hrest hmore
          by_cases hk : key x = k
          · simp [hk]
          · have hk' : key y ≠ k := hkey ▸ hk
            simp [hk, hk', ih']

/-- The merged entries are those of the first list, and those of the second with other
keys. -/
theorem mem_mergeByKey [StrictTotal κ] [DecidableEq κ] {key : α → κ} {entries others : List α}
    (h : Ascending key entries) (hothers : Ascending key others) {z : α} :
    z ∈ mergeByKey key entries others ↔
      z ∈ entries ∨ (z ∈ others ∧ ∀ x ∈ entries, key x ≠ key z) := by
  have hmem := (ascending_mergeByKey h hothers).find?_eq_some_iff (k := key z) (x := z)
  rw [find?_mergeByKey h hothers, Option.or_eq_some_iff, h.find?_eq_some_iff,
    hothers.find?_eq_some_iff] at hmem
  simpa [and_comm] using hmem.symm

/-- Puts `x` where its key belongs; an entry with the same key gives way to it. -/
def putByKey (key : α → κ) (x : α) (entries : List α) : List α :=
  mergeByKey key [x] entries

theorem ascending_putByKey [StrictTotal κ] {key : α → κ} (x : α) {entries : List α}
    (h : Ascending key entries) : Ascending key (putByKey key x entries) :=
  ascending_mergeByKey (List.pairwise_singleton _ _) h

theorem find?_putByKey [StrictTotal κ] [DecidableEq κ] {key : α → κ} (x : α) {entries : List α}
    (h : Ascending key entries) (k : κ) :
    (putByKey key x entries).find? (key · == k) =
      if key x = k then some x else entries.find? (key · == k) := by
  rw [putByKey, find?_mergeByKey (List.pairwise_singleton _ _) h]
  by_cases hk : key x = k <;> simp [hk]

/-- Adds an ascending list to runs, of which each but the first is empty or twice as long
as the one before; the later runs come from earlier entries. -/
def addRun (key : α → κ) (run : List α) : List (List α) → List (List α)
  | [] => [run]
  | [] :: more => run :: more
  | earlier :: more => [] :: addRun key (mergeByKey key earlier run) more

/-- Merges runs to one list. -/
def mergeRuns (key : α → κ) : List (List α) → List α
  | [] => []
  | run :: more => mergeByKey key (mergeRuns key more) run

/-- The entries in ascending order of their keys. Of those with the same key the first
stays. -/
def sortByKey (key : α → κ) (entries : List α) : List α :=
  mergeRuns key (entries.foldl (fun runs x => addRun key [x] runs) [])

theorem ascending_addRun [StrictTotal κ] {key : α → κ} {run : List α} {runs : List (List α)}
    (hrun : Ascending key run) (h : ∀ other ∈ runs, Ascending key other) :
    ∀ other ∈ addRun key run runs, Ascending key other := by
  induction runs generalizing run with
  | nil => simpa [addRun] using hrun
  | cons first more ih =>
    obtain ⟨hfirst, hmore⟩ := List.forall_mem_cons.mp h
    cases first with
    | nil => exact List.forall_mem_cons.mpr ⟨hrun, hmore⟩
    | cons x rest =>
      exact List.forall_mem_cons.mpr
        ⟨List.Pairwise.nil, ih (ascending_mergeByKey hfirst hrun) hmore⟩

theorem ascending_mergeRuns [StrictTotal κ] {key : α → κ} {runs : List (List α)}
    (h : ∀ run ∈ runs, Ascending key run) : Ascending key (mergeRuns key runs) := by
  induction runs with
  | nil => exact List.Pairwise.nil
  | cons run more ih =>
    obtain ⟨hrun, hmore⟩ := List.forall_mem_cons.mp h
    exact ascending_mergeByKey (ih hmore) hrun

theorem find?_mergeRuns_addRun [StrictTotal κ] [DecidableEq κ] {key : α → κ} {run : List α}
    {runs : List (List α)} (hrun : Ascending key run) (h : ∀ other ∈ runs, Ascending key other)
    (k : κ) :
    (mergeRuns key (addRun key run runs)).find? (key · == k) =
      ((mergeRuns key runs).find? (key · == k)).or (run.find? (key · == k)) := by
  induction runs generalizing run with
  | nil => simp [addRun, mergeRuns]
  | cons first more ih =>
    obtain ⟨hfirst, hmore⟩ := List.forall_mem_cons.mp h
    cases first with
    | nil => simp [addRun, mergeRuns, find?_mergeByKey (ascending_mergeRuns hmore) hrun]
    | cons x rest =>
      simp only [addRun, mergeRuns, mergeByKey_nil_right]
      rw [ih (ascending_mergeByKey hfirst hrun) hmore, find?_mergeByKey hfirst hrun,
        find?_mergeByKey (ascending_mergeRuns hmore) hfirst, Option.or_assoc]

theorem ascending_foldl_addRun [StrictTotal κ] {key : α → κ} {entries : List α}
    {runs : List (List α)} (h : ∀ run ∈ runs, Ascending key run) :
    ∀ run ∈ entries.foldl (fun runs x => addRun key [x] runs) runs, Ascending key run := by
  induction entries generalizing runs with
  | nil => exact h
  | cons x rest ih => exact ih (ascending_addRun (List.pairwise_singleton _ _) h)

theorem find?_mergeRuns_foldl [StrictTotal κ] [DecidableEq κ] {key : α → κ} {entries : List α}
    {runs : List (List α)} (h : ∀ run ∈ runs, Ascending key run) (k : κ) :
    (mergeRuns key (entries.foldl (fun runs x => addRun key [x] runs) runs)).find? (key · == k) =
      ((mergeRuns key runs).find? (key · == k)).or (entries.find? (key · == k)) := by
  induction entries generalizing runs with
  | nil => simp
  | cons x rest ih =>
    rw [List.foldl_cons, ih (ascending_addRun (List.pairwise_singleton _ _) h),
      find?_mergeRuns_addRun (List.pairwise_singleton _ _) h, Option.or_assoc]
    by_cases hk : key x = k <;> simp [hk]

theorem ascending_sortByKey [StrictTotal κ] (key : α → κ) (entries : List α) :
    Ascending key (sortByKey key entries) :=
  ascending_mergeRuns (ascending_foldl_addRun (by simp))

theorem find?_sortByKey [StrictTotal κ] [DecidableEq κ] (key : α → κ) (entries : List α) (k : κ) :
    (sortByKey key entries).find? (key · == k) = entries.find? (key · == k) := by
  rw [sortByKey, find?_mergeRuns_foldl (by simp)]
  rfl

/-- The sorted entries are those that come first with their keys. -/
theorem mem_sortByKey [StrictTotal κ] [DecidableEq κ] {key : α → κ} {entries : List α} {x : α} :
    x ∈ sortByKey key entries ↔ entries.find? (key · == key x) = some x := by
  rw [← find?_sortByKey, (ascending_sortByKey key entries).find?_eq_some_iff]
  simp

/-- Sorting by the entries themselves keeps all of them. -/
theorem mem_sortByKey_id [StrictTotal κ] [DecidableEq κ] {entries : List κ} {x : κ} :
    x ∈ sortByKey id entries ↔ x ∈ entries := by
  rw [mem_sortByKey]
  refine ⟨List.mem_of_find?_eq_some, fun h => ?_⟩
  obtain ⟨found, hfound⟩ := Option.isSome_iff_exists.mp
    (List.find?_isSome.mpr ⟨x, h, beq_self_eq_true x⟩ : (entries.find? (id · == id x)).isSome)
  have heq : found = x := by simpa using List.find?_some hfound
  rw [hfound, heq]

end VariantClasses
