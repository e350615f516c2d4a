/-! # Rounding to doubles

A double has a significand of 53 bits. A natural number is rounded to the nearest one that such a
significand can hold, and of two equally near ones to the one with the even significand. The size of
the result is not limited here: the doubles end before `doubleLimit`.
-/

namespace Understudy.Json

def significandBits : Nat := 53

/-- The least power of two that is beyond every double. -/
def doubleLimit : Nat := Nat.pow 2 1024

/-- The distance between the numbers near `n` that a significand can hold. -/
def spacing (n : Nat) : Nat := Nat.pow 2 (n.log2 + 1 - significandBits)

def roundToDouble (n : Nat) : Nat :=
  let kept := n / spacing n
  let dropped := n % spacing n
  if spacing n < 2 * dropped || (spacing n = 2 * dropped && kept % 2 = 1) then
    (kept + 1) * spacing n
  else kept * spacing n

/-- Rounding at most doubles a number. -/
theorem roundToDouble_le_two_mul (n : Nat) : roundToDouble n ≤ 2 * n := by
  have split : n / spacing n * spacing n + n % spacing n = n := by
    rw [Nat.mul_comm]
    exact Nat.div_add_mod n (spacing n)
  simp only [roundToDouble]
  split
  case isTrue up =>
    simp only [Bool.or_eq_true, Bool.and_eq_true, decide_eq_true_eq] at up
    rw [Nat.succ_mul]
    omega
  case isFalse => omega

end Understudy.Json
