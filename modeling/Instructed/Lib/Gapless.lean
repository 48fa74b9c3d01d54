import Instructed.Lib.Consecutive
import Mathlib

/-!
# Distinct integers without a gap

How many distinct integers there are, the least and the greatest of them decide whether they are
`1, …, N`.

* `gapless_iff`: **`N` distinct integers from `1` to `N` leave no gap**;
* `Consecutive.of_gapless`: sorted by such numbers, a list is numbered consecutively.
-/

namespace Numbering

variable {xs : List ℤ}

/-- The distinct integers from `1` to their number. -/
theorem toFinset_eq_Icc (hnodup : xs.Nodup) (hlo : ∀ x ∈ xs, 1 ≤ x)
    (hhi : ∀ x ∈ xs, x ≤ xs.length) : xs.toFinset = Finset.Icc 1 (xs.length : ℤ) := by
  apply Finset.eq_of_subset_of_card_le
  · intro x hx
    have hmem := List.mem_toFinset.mp hx
    exact Finset.mem_Icc.mpr ⟨hlo x hmem, hhi x hmem⟩
  · rw [List.toFinset_card_of_nodup hnodup, Int.card_Icc]
    omega

theorem length_of_toFinset_eq {n : ℕ} (hnodup : xs.Nodup)
    (h : xs.toFinset = Finset.Icc 1 (n : ℤ)) : xs.length = n := by
  rw [← List.toFinset_card_of_nodup hnodup, h, Int.card_Icc]
  omega

/-- **`N` distinct integers, of which `1` is the least and `N` the greatest, leave no gap.** -/
theorem gapless_iff {lo hi : ℤ} (hnodup : xs.Nodup) (hmin : xs.min? = some lo)
    (hmax : xs.max? = some hi) :
    (xs.length : ℤ) = hi ∧ lo = 1 ↔ ∃ n : ℕ, xs.toFinset = Finset.Icc 1 (n : ℤ) := by
  obtain ⟨hlo, hle⟩ := List.min?_eq_some_iff.mp hmin
  obtain ⟨hhi, hge⟩ := List.max?_eq_some_iff.mp hmax
  constructor
  · rintro ⟨hlength, rfl⟩
    exact ⟨xs.length, toFinset_eq_Icc hnodup hle fun x hx => hlength ▸ hge x hx⟩
  · rintro ⟨n, hn⟩
    have hmem : ∀ x, x ∈ xs ↔ 1 ≤ x ∧ x ≤ (n : ℤ) := fun x => by
      rw [← List.mem_toFinset, hn, Finset.mem_Icc]
    have hlength := length_of_toFinset_eq hnodup hn
    have hlo' := (hmem lo).mp hlo
    have hhi' := (hmem hi).mp hhi
    have hone := hle 1 ((hmem 1).mpr (by omega))
    have hlast := hge n ((hmem n).mpr (by omega))
    omega

/-- Sorted by numbers `1, …, N`, a list is numbered consecutively. -/
theorem Consecutive.of_gapless {α : Type} {pos : α → ℕ} {ys : List α} {n : ℕ}
    (hsorted : ys.Pairwise fun a b => pos a ≤ pos b) (hnodup : (ys.map pos).Nodup)
    (hmem : ∀ k, k ∈ ys.map pos ↔ 1 ≤ k ∧ k ≤ n) :
    Consecutive pos 1 ys ∧ ys.length = n := by
  have hlt : (ys.map pos).Pairwise fun a b => a < b := by
    have hle : (ys.map pos).Pairwise fun a b => a ≤ b := List.pairwise_map.mpr hsorted
    exact (hle.and hnodup).imp fun h => lt_of_le_of_ne h.1 h.2
  have hrange : ys.map pos = List.range' 1 n := by
    apply eq_of_pairwise_lt (f := id) hlt (List.pairwise_lt_range' 1)
    intro k
    rw [hmem, List.mem_range'_1]
    omega
  exact ⟨.of_map_eq hrange, length_eq_of_map_eq hrange⟩

end Numbering
