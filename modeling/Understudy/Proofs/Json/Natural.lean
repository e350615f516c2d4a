import Mathlib.Data.Nat.Digits.Defs
import Understudy.Proofs.Json.Token

/-! # Natural numbers

A natural number is written with its decimal digits and no leading zero. Read as a number these are
its whole part and nothing else, and below `2 ^ 64` no digit is left out when the number is taken
for a double.
-/

namespace Understudy.Json

namespace Numeral

theorem value_toDigits (n : Nat) : value (Nat.toDigits 10 n) = n :=
  Nat.ofDigitChars_toDigits (by decide) (by decide)

/-- Only zero begins with a zero. -/
theorem head?_toDigits {n : Nat} (h : (Nat.toDigits 10 n).head? = some '0') :
    Nat.toDigits 10 n = ['0'] := by
  induction n using Nat.strong_induction_on with
  | _ n ih =>
      by_cases hsmall : n < 10
      · rw [Nat.toDigits_of_lt_base hsmall] at h ⊢
        exact congrArg (· :: []) (Option.some.inj h)
      · rw [Nat.toDigits_of_base_le (by decide) (by omega)] at h
        rw [List.head?_append, Option.or_of_isSome (by simp [Nat.toDigits_ne_nil])] at h
        have hzero := ih (n / 10) (by omega) h
        have hvalue := value_toDigits (n / 10)
        rw [hzero] at hvalue
        have : n / 10 = 0 := hvalue.symm
        omega

/-- The digits of a natural number are read as its whole part. -/
theorem parse?_toDigits (n : Nat) :
    parse? (Nat.toDigits 10 n) = some { isNegative := false, whole := Nat.toDigits 10 n } := by
  have hdigit : ∀ c ∈ Nat.toDigits 10 n, c.isDigit = true :=
    fun c => Nat.isDigit_of_mem_toDigits (by decide) (by decide)
  have htake : (Nat.toDigits 10 n).takeWhile Char.isDigit = Nat.toDigits 10 n :=
    List.takeWhile_eq_self_iff.mpr hdigit
  have hdrop : (Nat.toDigits 10 n).dropWhile Char.isDigit = [] :=
    List.dropWhile_eq_nil_iff.mpr hdigit
  have hwhole : whole? (Nat.toDigits 10 n) = some (Nat.toDigits 10 n, []) := by
    have hdigits : digits? (Nat.toDigits 10 n) = some (Nat.toDigits 10 n, []) := by
      rw [digits?, htake, hdrop]
      simp [Nat.toDigits_ne_nil]
    rw [whole?, hdigits]
    simp only [Option.bind_eq_bind, Option.bind_some]
    rw [if_neg]
    simp only [Bool.and_eq_true, decide_eq_true_eq, not_and, not_not]
    intro hhead
    rw [head?_toDigits hhead]
    rfl
  unfold parse?
  split
  next isNegative unsigned hsign =>
    split at hsign
    next negative hnegative =>
      have hminus : '-'.isDigit = true :=
        hdigit '-' (by rw [hnegative]; exact List.mem_cons_self)
      cases hminus
    next =>
      cases hsign
      simp only [hwhole, Option.bind_eq_bind, Option.bind_some]
      rfl

/-- Digits that are appended do not make a number less. -/
theorem le_foldl (significand : Nat) (digits : List Char) :
    significand ≤ digits.foldl (fun n digit => 10 * n + digitValue digit) significand := by
  induction digits generalizing significand with
  | nil => exact Nat.le_refl _
  | cons digit digits ih =>
      have hlonger : significand ≤ 10 * significand + digitValue digit := by omega
      exact hlonger.trans (ih _)

/-- No digit is left out of a number below `2 ^ 64`. -/
theorem gather_eq {significand : Nat} {digits : List Char}
    (h : digits.foldl (fun n digit => 10 * n + digitValue digit) significand < UInt64.size) :
    gather significand digits =
      (digits.foldl (fun n digit => 10 * n + digitValue digit) significand, 0) := by
  induction digits generalizing significand with
  | nil => rfl
  | cons digit digits ih =>
      rw [gather, if_pos ((le_foldl _ digits).trans_lt h), ih h]
      rfl

theorem fitsDouble_of_lt {digits : List Char} (h : value digits < UInt64.size) :
    fitsDouble { isNegative := false, whole := digits } = true := by
  have hscaled : scaled { isNegative := false, whole := digits } = ⟨value digits, 0⟩ := by
    have hgather : gather 0 digits = (value digits, 0) := gather_eq h
    simp only [scaled, Option.getD_none, List.append_nil, hgather]
    rfl
  have hone : roundToDouble (Nat.pow 10 0) = 1 := by decide
  have hlimit : 4 * UInt64.size < doubleLimit := by decide +kernel
  have hbound : roundToDouble (roundToDouble (value digits) * 1) < doubleLimit := by
    have hround := roundToDouble_le_two_mul (value digits)
    have hproduct := roundToDouble_le_two_mul (roundToDouble (value digits) * 1)
    omega
  simp only [fitsDouble, hscaled]
  change (_ || (_ && decide (roundToDouble (_ * roundToDouble (Nat.pow 10 0)) < _))) = true
  rw [hone, decide_eq_true hbound]
  simp

end Numeral

/-- A natural number is read back. -/
theorem natural?_ofNat (n : Nat) : (ofNat n).natural? = some n := by
  rw [ofNat, natural?, Nat.toString_eq_ofList_toDigits, String.toList_ofList,
    Numeral.parse?_toDigits, Option.bind_some, Numeral.natural?, Numeral.value_toDigits]
  rfl

theorem isSound_ofNat {n : Nat} (h : n < UInt64.size) : (ofNat n).isSound = true := by
  rw [ofNat, isSound, Nat.toString_eq_ofList_toDigits, String.toList_ofList,
    Numeral.parse?_toDigits, Option.any_some]
  exact Numeral.fitsDouble_of_lt (by rwa [Numeral.value_toDigits])

end Understudy.Json
