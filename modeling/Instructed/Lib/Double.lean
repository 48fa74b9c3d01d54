import Mathlib.Data.Nat.Log
import Mathlib.Tactic.Linarith

/-!
# Integers as doubles

A double holds every integer below `2 ^ 53`, and from there on those whose binary digits but the first 53
are zeros. Other integers are rounded to the next double. Infinity, which comes from `2 ^ 1024` on, is
left out.

* `roundNat`, `number`: the double next to an integer;
* `roundNat_of_lt`, `le_roundNat`: what is below `2 ^ 53` is exact, and the rest stays above;
* `number_number`: a double is next to itself;
* `DoubleInt`: the integers that are doubles, with their sums and differences.
-/

namespace Double

/-! ## Rounding -/

/-- The double next to `n`; of two that are equally near, the even one. -/
def roundNat (n : ℕ) : ℕ :=
  let unit := 2 ^ (n.log2 - 52)
  let q := n / unit
  let r := n % unit
  if unit < 2 * r ∨ 2 * r = unit ∧ q % 2 = 1 then (q + 1) * unit else q * unit

/-- The double next to an integer. -/
def number (n : ℤ) : ℤ := if n < 0 then -(roundNat n.natAbs : ℤ) else roundNat n.natAbs

/-- A multiple of the unit is exact. -/
theorem roundNat_of_dvd {n : ℕ} (h : 2 ^ (n.log2 - 52) ∣ n) : roundNat n = n := by
  have hrest : n % 2 ^ (n.log2 - 52) = 0 := Nat.mod_eq_zero_of_dvd h
  have hpos : 0 < 2 ^ (n.log2 - 52) := Nat.two_pow_pos _
  unfold roundNat
  dsimp only
  rw [hrest, if_neg (by omega)]
  exact Nat.div_mul_cancel h

theorem roundNat_of_lt {n : ℕ} (h : n < 2 ^ 53) : roundNat n = n := by
  have hlog : n.log2 - 52 = 0 := by
    rcases Nat.eq_zero_or_pos n with rfl | hpos
    · rfl
    · have hlt := (Nat.log2_lt (by omega)).mpr h
      omega
  apply roundNat_of_dvd
  rw [hlog]
  exact one_dvd n

theorem le_roundNat {n : ℕ} (h : 2 ^ 53 ≤ n) : 2 ^ 53 ≤ roundNat n := by
  have hlog : 53 ≤ n.log2 := (Nat.le_log2 (by omega)).mpr h
  have hself : 2 ^ n.log2 ≤ n := Nat.log2_self_le (by omega)
  have hunit : 2 ^ n.log2 = 2 ^ 52 * 2 ^ (n.log2 - 52) := by
    rw [← Nat.pow_add]
    congr 1
    omega
  have hq : 2 ^ 52 ≤ n / 2 ^ (n.log2 - 52) := by
    rw [Nat.le_div_iff_mul_le (Nat.two_pow_pos _), ← hunit]
    exact hself
  have htwo : 2 ≤ 2 ^ (n.log2 - 52) := by
    calc 2 = 2 ^ 1 := rfl
      _ ≤ 2 ^ (n.log2 - 52) := Nat.pow_le_pow_right (by decide) (by omega)
  have hmul : 2 ^ 53 ≤ n / 2 ^ (n.log2 - 52) * 2 ^ (n.log2 - 52) :=
    calc 2 ^ 53 = 2 ^ 52 * 2 := rfl
      _ ≤ _ := Nat.mul_le_mul hq htwo
  unfold roundNat
  dsimp only
  split_ifs
  · exact hmul.trans (Nat.mul_le_mul_right _ (Nat.le_succ _))
  · exact hmul

theorem roundNat_pos {n : ℕ} (h : 0 < n) : 0 < roundNat n := by
  rcases Nat.lt_or_ge n (2 ^ 53) with hlt | hge
  · rwa [roundNat_of_lt hlt]
  · have hle := le_roundNat hge
    omega

/-- A number of at most 53 binary digits, and zeros. -/
theorem roundNat_mul_pow {q k : ℕ} (h : q ≤ 2 ^ 53) : roundNat (q * 2 ^ k) = q * 2 ^ k := by
  apply roundNat_of_dvd
  rcases Nat.eq_zero_or_pos q with rfl | hpos
  · simp
  have hne : q * 2 ^ k ≠ 0 := Nat.mul_ne_zero (by omega) (Nat.two_pow_pos k).ne'
  rcases Nat.lt_or_eq_of_le h with hlt | rfl
  · have hlog : (q * 2 ^ k).log2 < 53 + k := by
      rw [Nat.log2_lt hne, Nat.pow_add]
      exact Nat.mul_lt_mul_of_pos_right hlt (Nat.two_pow_pos k)
    exact Dvd.dvd.mul_left (Nat.pow_dvd_pow 2 (by omega)) q
  · rw [← Nat.pow_add, Nat.log2_two_pow]
    exact Nat.pow_dvd_pow 2 (by omega)

/-- What was rounded has at most 53 binary digits before its zeros. -/
theorem roundNat_eq_mul_pow (n : ℕ) : ∃ q k, q ≤ 2 ^ 53 ∧ roundNat n = q * 2 ^ k := by
  have hq : n / 2 ^ (n.log2 - 52) < 2 ^ 53 := by
    rw [Nat.div_lt_iff_lt_mul (Nat.two_pow_pos _), ← Nat.pow_add]
    calc n < 2 ^ (n.log2 + 1) := Nat.lt_log2_self
      _ ≤ 2 ^ (53 + (n.log2 - 52)) := Nat.pow_le_pow_right (by decide) (by omega)
  unfold roundNat
  dsimp only
  split_ifs
  · exact ⟨_, _, hq, rfl⟩
  · exact ⟨_, _, hq.le, rfl⟩

theorem roundNat_roundNat (n : ℕ) : roundNat (roundNat n) = roundNat n := by
  obtain ⟨q, k, hq, heq⟩ := roundNat_eq_mul_pow n
  rw [heq]
  exact roundNat_mul_pow hq

theorem natAbs_number (n : ℤ) : (number n).natAbs = roundNat n.natAbs := by
  unfold number
  split_ifs <;> simp

/-- A double is next to itself. -/
theorem number_number (n : ℤ) : number (number n) = number n := by
  have habs := natAbs_number n
  rw [number, habs, roundNat_roundNat]
  by_cases hneg : n < 0
  · have hpos : 0 < roundNat n.natAbs := roundNat_pos (by omega)
    have heq : number n = -(roundNat n.natAbs : ℤ) := if_pos hneg
    rw [if_pos (by omega), heq]
  · have heq : number n = roundNat n.natAbs := if_neg hneg
    rw [if_neg (by omega), heq]

theorem number_of_natAbs_lt {n : ℤ} (h : n.natAbs < 2 ^ 53) : number n = n := by
  rw [number, roundNat_of_lt h]
  split_ifs <;> omega

theorem number_of_lt {n : ℤ} (h0 : 0 ≤ n) (h : n < 2 ^ 53) : number n = n :=
  number_of_natAbs_lt (by omega)

/-- A number that is next to a double below `2 ^ 53` is that double. -/
theorem number_eq_self {n : ℤ} (h : (number n).natAbs < 2 ^ 53) : number n = n := by
  rw [natAbs_number] at h
  apply number_of_natAbs_lt
  by_contra hge
  have hle := le_roundNat (Nat.not_lt.mp hge)
  omega

/-- Below `2 ^ 53` no other integer becomes the same number. -/
theorem number_eq_iff {a b : ℤ} (ha : 0 ≤ a) (hb : b < 2 ^ 53) : number a = number b ↔ a = b := by
  refine ⟨fun h => ?_, fun h => h ▸ rfl⟩
  have hnonneg : 0 ≤ number a := by
    rw [number, if_neg (by omega)]
    exact Int.natCast_nonneg _
  have hb0 : 0 ≤ b := by
    by_contra hneg
    have hpos : 0 < roundNat b.natAbs := roundNat_pos (by omega)
    rw [h, number, if_pos (by omega)] at hnonneg
    omega
  rw [number_of_lt hb0 hb] at h
  rw [← h]
  exact (number_eq_self (by omega)).symm

/-- No count is rounded to zero. -/
theorem number_eq_zero_iff {n : ℕ} : number n = 0 ↔ n = 0 := by
  constructor
  · intro h
    by_contra hne
    have hpos : 0 < roundNat n := roundNat_pos (by omega)
    rw [number, if_neg (by omega), Int.natAbs_natCast] at h
    omega
  · rintro rfl
    exact number_of_lt (by omega) (by omega)

/-! ## Integers that are doubles -/

/-- An integer that is a double. -/
structure DoubleInt where
  val : ℤ
  exact : number val = val
  deriving DecidableEq

namespace DoubleInt

/-- The double next to an integer. -/
def ofInt (n : ℤ) : DoubleInt := ⟨number n, number_number n⟩

instance : Add DoubleInt := ⟨fun a b => ofInt (a.val + b.val)⟩

instance : Sub DoubleInt := ⟨fun a b => ofInt (a.val - b.val)⟩

theorem ofInt_val (a : DoubleInt) : ofInt a.val = a := by
  obtain ⟨n, h⟩ := a
  simp only [ofInt, h]

@[simp] theorem val_ofInt (n : ℤ) : (ofInt n).val = number n := rfl

/-- A sum below `2 ^ 53` is exact. -/
theorem val_add {a b : DoubleInt} (h : (a.val + b.val).natAbs < 2 ^ 53) :
    (a + b).val = a.val + b.val := number_of_natAbs_lt h

/-- A difference below `2 ^ 53` is exact. -/
theorem val_sub {a b : DoubleInt} (h : (a.val - b.val).natAbs < 2 ^ 53) :
    (a - b).val = a.val - b.val := number_of_natAbs_lt h

end DoubleInt

end Double
