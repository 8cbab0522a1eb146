/-! # Double precision

A finite number of double precision has 53 binary digits that count. Natural numbers are
rounded to the nearest one, and of two equally near to the even one
(`two_mul_nearestDouble_le`, `le_two_mul_nearestDouble`, `nearestDouble_tie_even`).
-/

namespace VariantClasses.Json

/-- The value of the last binary digit that counts when a natural number is rounded. -/
def lastPlace (n : Nat) : Nat :=
  Nat.pow 2 (n.log2 + 1 - 53)

/-- The number of double precision nearest to a natural number, as if there were no
largest one. -/
def nearestDouble (n : Nat) : Nat :=
  let place := lastPlace n
  let down := n / place
  let up := place < 2 * (n % place) || (2 * (n % place) == place && down % 2 == 1)
  (if up then down + 1 else down) * place

/-- The least natural number that is rounded past the largest finite number: it lies
halfway between that number and the next power of two, which is even. -/
def doubleLimit : Nat := Nat.pow 2 1024 - Nat.pow 2 970

/-- Rounding up adds at most half of the last place. -/
theorem two_mul_nearestDouble_le (n : Nat) : 2 * nearestDouble n ≤ 2 * n + lastPlace n := by
  have hn := Nat.div_add_mod n (lastPlace n)
  simp only [nearestDouble, Bool.or_eq_true, Bool.and_eq_true, decide_eq_true_eq, beq_iff_eq]
  split
  next => rw [Nat.add_mul, Nat.mul_comm (n / _)]; omega
  next => rw [Nat.mul_comm (n / _)]; omega

/-- Rounding down takes at most half of the last place. -/
theorem le_two_mul_nearestDouble (n : Nat) : 2 * n ≤ 2 * nearestDouble n + lastPlace n := by
  have hn := Nat.div_add_mod n (lastPlace n)
  have hmod := Nat.mod_lt n (Nat.two_pow_pos (n.log2 + 1 - 53))
  change n % lastPlace n < lastPlace n at hmod
  simp only [nearestDouble, Bool.or_eq_true, Bool.and_eq_true, decide_eq_true_eq, beq_iff_eq]
  split
  next => rw [Nat.add_mul, Nat.mul_comm (n / _)]; omega
  next => rw [Nat.mul_comm (n / _)]; omega

/-- Halfway between two numbers of double precision, the even one is taken. -/
theorem nearestDouble_tie_even {n : Nat} (h : 2 * (n % lastPlace n) = lastPlace n) :
    nearestDouble n / lastPlace n % 2 = 0 := by
  have hpos : 0 < lastPlace n := Nat.two_pow_pos _
  simp only [nearestDouble, Bool.or_eq_true, Bool.and_eq_true, decide_eq_true_eq, beq_iff_eq]
  rw [Nat.mul_div_cancel _ hpos]
  split <;> omega

end VariantClasses.Json
