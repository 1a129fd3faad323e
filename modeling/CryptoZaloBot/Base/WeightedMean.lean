import Mathlib.Algebra.BigOperators.Ring.List
import Mathlib.Algebra.Order.BigOperators.Group.List
import Mathlib.Algebra.Order.Field.Basic
import Mathlib.Data.Set.Finite.Lemmas
import Mathlib.Data.Set.Finite.List

/-!
# Weighted means

The mean of some values, each with the weight of the thing it belongs to. Where no weight is
negative and their sum is positive, the mean lies between the least and the greatest value
(`CryptoZaloBot.exists_weightedMean_between`), whatever the weights.
-/

namespace CryptoZaloBot

section WeightedMean

variable {ι K : Type*} [Field K] {l : List ι} {weight value : ι → K} {bound : K}

/-- **The mean of the values**, by weight. -/
def weightedMean (l : List ι) (weight value : ι → K) : K :=
  (l.map fun i => weight i * value i).sum / (l.map weight).sum

variable [LinearOrder K] [IsStrictOrderedRing K]

theorem weightedMean_le (hweight : ∀ i ∈ l, 0 ≤ weight i) (hpos : 0 < (l.map weight).sum)
    (h : ∀ i ∈ l, value i ≤ bound) : weightedMean l weight value ≤ bound := by
  rw [weightedMean, div_le_iff₀ hpos, ← List.sum_map_mul_left]
  refine List.sum_le_sum fun i hi => ?_
  rw [mul_comm]
  exact mul_le_mul_of_nonneg_right (h i hi) (hweight i hi)

theorem le_weightedMean (hweight : ∀ i ∈ l, 0 ≤ weight i) (hpos : 0 < (l.map weight).sum)
    (h : ∀ i ∈ l, bound ≤ value i) : bound ≤ weightedMean l weight value := by
  rw [weightedMean, le_div_iff₀ hpos, ← List.sum_map_mul_left]
  refine List.sum_le_sum fun i hi => ?_
  rw [mul_comm]
  exact mul_le_mul_of_nonneg_left (h i hi) (hweight i hi)

/-- **The mean lies between the least and the greatest value.** -/
theorem exists_weightedMean_between (hweight : ∀ i ∈ l, 0 ≤ weight i)
    (hpos : 0 < (l.map weight).sum) :
    ∃ i ∈ l, ∃ j ∈ l, (∀ k ∈ l, value i ≤ value k ∧ value k ≤ value j) ∧
      value i ≤ weightedMean l weight value ∧ weightedMean l weight value ≤ value j := by
  have hne : l ≠ [] := by
    rintro rfl
    exact absurd hpos (lt_irrefl _)
  obtain ⟨k, hk⟩ := List.exists_mem_of_ne_nil l hne
  obtain ⟨i, hi, hmin⟩ := Set.exists_min_image {i | i ∈ l} value (List.finite_toSet l) ⟨k, hk⟩
  obtain ⟨j, hj, hmax⟩ := Set.exists_max_image {i | i ∈ l} value (List.finite_toSet l) ⟨k, hk⟩
  exact ⟨i, hi, j, hj, fun k hk => ⟨hmin k hk, hmax k hk⟩, le_weightedMean hweight hpos hmin,
    weightedMean_le hweight hpos hmax⟩

end WeightedMean

end CryptoZaloBot
