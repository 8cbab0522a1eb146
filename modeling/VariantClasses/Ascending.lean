import VariantClasses.Text

/-! # Lists in ascending order of a key

Sets and finite maps are kept as lists in strictly ascending order of a key, so
that two of them with the same entries are equal (`Ascending.eq_of_mem_iff`), and a
key finds the one entry that has it (`Ascending.find?_eq_some_iff`).
-/

namespace VariantClasses

variable {α κ : Type}

/-- A strict order in which any two different keys are comparable. -/
class StrictTotal (κ : Type) [LT κ] : Prop where
  irrefl (k : κ) : ¬k < k
  trans {k l m : κ} : k < l → l < m → k < m
  eq_of_not_lt {k l : κ} : ¬k < l → ¬l < k → k = l

/-- Characters ascend by their codes. -/
instance : StrictTotal Char where
  irrefl := Char.lt_irrefl
  trans := Char.lt_trans
  eq_of_not_lt h h' := Char.le_antisymm (Char.not_lt.mp h') (Char.not_lt.mp h)

/-- Natural numbers ascend as they are counted. -/
instance : StrictTotal Nat where
  irrefl := Nat.lt_irrefl
  trans := Nat.lt_trans
  eq_of_not_lt h h' := Nat.le_antisymm (Nat.not_lt.mp h') (Nat.not_lt.mp h)

/-- Lists ascend by their first difference, and a list before its extensions. -/
instance [LT κ] [StrictTotal κ] : StrictTotal (List κ) where
  irrefl :=
    haveI : Std.Irrefl fun k l : κ => k < l := ⟨StrictTotal.irrefl⟩
    List.lt_irrefl
  trans :=
    haveI : Trans (fun k l : κ => k < l) (fun k l : κ => k < l) (fun k l : κ => k < l) :=
      ⟨StrictTotal.trans⟩
    List.lt_trans
  eq_of_not_lt h h' :=
    haveI : Std.Trichotomous fun k l : κ => k < l := ⟨fun _ _ => StrictTotal.eq_of_not_lt⟩
    List.le_antisymm (List.not_lt.mp h') (List.not_lt.mp h)

/-- A shortcut for keys that are lists of texts. -/
instance : StrictTotal (List Text) := inferInstance

/-- The keys of the entries ascend strictly. -/
def Ascending [LT κ] (key : α → κ) (entries : List α) : Prop :=
  entries.Pairwise fun x y => key x < key y

variable [LT κ]

theorem Ascending.filter {key : α → κ} {entries : List α} (keep : α → Bool)
    (h : Ascending key entries) : Ascending key (entries.filter keep) :=
  List.Pairwise.filter keep h

theorem Ascending.eq_of_mem_iff [StrictTotal κ] {key : α → κ}
    {entries others : List α} (h : Ascending key entries) (hothers : Ascending key others)
    (hmem : ∀ x, x ∈ entries ↔ x ∈ others) : entries = others := by
  induction entries generalizing others with
  | nil => exact (List.eq_nil_iff_forall_not_mem.mpr fun x hx => by simpa using (hmem x).2 hx).symm
  | cons x rest ih =>
    obtain ⟨hx, hrest⟩ := List.pairwise_cons.mp h
    cases others with
    | nil => simpa using (hmem x).1 List.mem_cons_self
    | cons y more =>
      obtain ⟨hy, hmore⟩ := List.pairwise_cons.mp hothers
      have heq : x = y := by
        rcases List.mem_cons.mp ((hmem x).1 List.mem_cons_self) with heq | hxmore
        · exact heq
        · rcases List.mem_cons.mp ((hmem y).2 List.mem_cons_self) with heq | hyrest
          · exact heq.symm
          · exact absurd (StrictTotal.trans (hx y hyrest) (hy x hxmore)) (StrictTotal.irrefl _)
      subst heq
      refine congrArg (x :: ·) (ih hrest hmore fun z => ?_)
      constructor
      · intro hz
        rcases List.mem_cons.mp ((hmem z).1 (List.mem_cons_of_mem _ hz)) with rfl | hz'
        · exact absurd (hx z hz) (StrictTotal.irrefl _)
        · exact hz'
      · intro hz
        rcases List.mem_cons.mp ((hmem z).2 (List.mem_cons_of_mem _ hz)) with rfl | hz'
        · exact absurd (hy z hz) (StrictTotal.irrefl _)
        · exact hz'

theorem Ascending.find?_eq_some_iff [StrictTotal κ] [DecidableEq κ] {key : α → κ}
    {entries : List α} (h : Ascending key entries) {k : κ} {x : α} :
    entries.find? (key · == k) = some x ↔ x ∈ entries ∧ key x = k := by
  induction entries with
  | nil => simp
  | cons y rest ih =>
    obtain ⟨hy, hrest⟩ := List.pairwise_cons.mp h
    have ih := ih hrest
    by_cases hk : key y = k
    · have hne : ∀ z ∈ rest, key z ≠ k := fun z hz heq =>
        StrictTotal.irrefl _ (heq ▸ hk ▸ hy z hz)
      grind
    · grind

instance [DecidableLT κ] (key : α → κ) (entries : List α) : Decidable (Ascending key entries) :=
  inferInstanceAs (Decidable (entries.Pairwise _))

end VariantClasses
