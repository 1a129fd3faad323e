import Mathlib.Algebra.Order.Field.Basic
import Mathlib.Data.List.Basic
import Mathlib.Tactic.NormNum
import CryptoZaloBot.Signals.Evaluator

/-!
# Other units, another clock

A result does not depend on the unit of the prices, nor on where the clock starts: all
prices may be multiplied by one positive number and all times shifted by one amount
(`CryptoZaloBot.Signals.evaluateSignal_rescale`). Only the three fields that are prices
themselves change, by the same factor.

So coins of any price are treated alike, and end-of-day prices may be laid on a grid of days
that starts at time 0.
-/

namespace CryptoZaloBot

namespace JsNumber

/-- Multiplied by a positive number: what is not finite stays what it is. -/
def scale (k : ℚ) : JsNumber → JsNumber
  | finite q => finite (k * q)
  | posInfinity => posInfinity
  | negInfinity => negInfinity
  | nan => nan

theorem positive?_scale {k : ℚ} (hk : 0 < k) (x : JsNumber) :
    (x.scale k).positive? = x.positive?.map (k * ·) := by
  cases x with
  | finite q =>
    simp only [scale, positive?, mul_pos_iff_of_pos_left hk]
    split <;> rfl
  | posInfinity => rfl
  | negInfinity => rfl
  | nan => rfl

end JsNumber

namespace Signals

/-- The point with its price in another unit, on another clock. -/
def PricePoint.rescale (k : ℚ) (shift : ℤ) (point : PricePoint) : PricePoint where
  t := point.t + shift
  p := point.p.scale k

/-- The result with its prices in another unit. -/
def SignalResult.scale (k : ℚ) (result : SignalResult) : SignalResult where
  insufficientData := result.insufficientData
  change24hPct := result.change24hPct
  change72hPct := result.change72hPct
  strong := result.strong
  direction := result.direction
  movePct := result.movePct
  window := result.window
  rangeLow := result.rangeLow.map (k * ·)
  rangeHigh := result.rangeHigh.map (k * ·)
  positionPct := result.positionPct
  verdict := result.verdict
  priceUsd := result.priceUsd.scale k

section Rescaling

variable {k : ℚ} {shift : ℤ}

/-! ### Reference prices -/

/-- The best point so far, in the other units. -/
def rescaleBest (k : ℚ) (shift : ℤ) (best : ℤ × ℚ) : ℤ × ℚ := (best.1 + shift, k * best.2)

theorem gap_shift (t targetMs shift : ℤ) : |t + shift - (targetMs + shift)| = |t - targetMs| := by
  rw [add_sub_add_right_eq_sub]

theorem keepNearer_rescale (hk : 0 < k) (targetMs : ℤ) (best : Option (ℤ × ℚ))
    (point : PricePoint) :
    keepNearer (targetMs + shift) (best.map (rescaleBest k shift)) (point.rescale k shift) =
      (keepNearer targetMs best point).map (rescaleBest k shift) := by
  unfold keepNearer
  simp only [PricePoint.rescale, JsNumber.positive?_scale hk, gap_shift]
  cases point.p.positive? with
  | none => rfl
  | some price =>
    simp only [Option.map_some]
    split_ifs
    · rfl
    · cases best with
      | none => rfl
      | some b =>
        simp only [Option.map_some, rescaleBest, gap_shift]
        split_ifs <;> rfl

/-- **The reference price** is the same one, in the other unit. -/
theorem priceNear_rescale (hk : 0 < k) (points : List PricePoint) (now ago : ℤ) :
    priceNear (points.map (PricePoint.rescale k shift)) (now + shift - ago) =
      (priceNear points (now - ago)).map (k * ·) := by
  have hfold : (points.map (PricePoint.rescale k shift)).foldl (keepNearer (now - ago + shift))
      (Option.map (rescaleBest k shift) none) =
        (points.foldl (keepNearer (now - ago)) none).map (rescaleBest k shift) := by
    rw [List.foldl_map]
    exact List.foldl_hom _ fun best point => keepNearer_rescale hk (now - ago) best point
  rw [priceNear, priceNear, add_sub_right_comm, ← Option.map_none (rescaleBest k shift), hfold,
    Option.map_map, Option.map_map]
  rfl

theorem changePct_scale (hk : 0 < k) (reference : Option ℚ) (price : ℚ) :
    changePct (reference.map (k * ·)) (k * price) = changePct reference price := by
  cases reference with
  | none => rfl
  | some r =>
    have hsign : k * r ≤ 0 ↔ r ≤ 0 := by
      rw [← not_lt, ← not_lt, mul_pos_iff_of_pos_left hk]
    simp only [changePct, Option.map_some, hsign]
    split_ifs
    · rfl
    · rw [← mul_sub, mul_div_mul_left _ _ hk.ne']

/-! ### Coverage and range -/

theorem oldest_rescale (points : List PricePoint) :
    oldest (points.map (PricePoint.rescale k shift)) = (oldest points).map (· + shift) := by
  rw [oldest, oldest, ← Option.map_none (· + shift), List.foldl_map]
  refine List.foldl_hom _ fun low point => ?_
  cases low with
  | none => rfl
  | some t =>
    simp only [Option.map_some, PricePoint.rescale, add_lt_add_iff_right]
    split_ifs <;> rfl

theorem covered_rescale (points : List PricePoint) (now : ℤ) :
    covered (points.map (PricePoint.rescale k shift)) (now + shift) = covered points now := by
  rw [covered, covered, oldest_rescale]
  cases oldest points with
  | none => rfl
  | some t =>
    simp only [Option.map_some]
    congr 1
    rw [eq_iff_iff]
    constructor <;> intro h <;> omega

theorem rangePrices_rescale (hk : 0 < k) (points : List PricePoint) (now : ℤ) :
    rangePrices (points.map (PricePoint.rescale k shift)) (now + shift) =
      (rangePrices points now).map (k * ·) := by
  rw [rangePrices, rangePrices, List.filterMap_map, List.map_filterMap]
  refine List.filterMap_congr fun point _ => ?_
  simp only [Function.comp_apply, PricePoint.rescale, JsNumber.positive?_scale hk,
    add_sub_right_comm, add_le_add_iff_right]
  split_ifs <;> rfl

theorem lowestOf_scale (hk : 0 < k) (price : ℚ) (prices : List ℚ) :
    lowestOf (k * price) (prices.map (k * ·)) = k * lowestOf price prices := by
  refine List.foldl_map_hom fun low p => ?_
  simp only [mul_lt_mul_iff_right₀ hk]
  split_ifs <;> rfl

theorem highestOf_scale (hk : 0 < k) (price : ℚ) (prices : List ℚ) :
    highestOf (k * price) (prices.map (k * ·)) = k * highestOf price prices := by
  refine List.foldl_map_hom fun high p => ?_
  simp only [mul_lt_mul_iff_right₀ hk]
  split_ifs <;> rfl

theorem positionIn_scale (hk : 0 < k) (low high price : ℚ) :
    positionIn (k * low) (k * high) (k * price) = positionIn low high price := by
  simp only [positionIn, mul_lt_mul_iff_right₀ hk]
  rw [← mul_sub, ← mul_sub, mul_div_mul_left _ _ hk.ne']

end Rescaling

/-! ### Results -/

/-- **Prices in another unit and times on another clock** give the same result, with its own
prices in the other unit. -/
theorem evaluateSignal_rescale {k : ℚ} (hk : 0 < k) (shift : ℤ) (points : List PricePoint)
    (nowPrice : JsNumber) (now : ℤ) (thresholds : SignalThresholds) :
    evaluateSignal (points.map (PricePoint.rescale k shift)) (nowPrice.scale k) (now + shift)
        thresholds =
      (evaluateSignal points nowPrice now thresholds).scale k := by
  unfold evaluateSignal
  rw [JsNumber.positive?_scale hk]
  cases nowPrice.positive? with
  | none => rfl
  | some price =>
    simp only [Option.map_some, priceNear_rescale hk, changePct_scale hk, covered_rescale,
      rangePrices_rescale hk, lowestOf_scale hk, highestOf_scale hk, positionIn_scale hk]
    split_ifs <;> rfl

/-- Half of what it was three days ago, in cents and a day later. -/
theorem evaluateSignal_rescale_cents :
    evaluateSignal ([⟨0, .finite 100⟩, ⟨5 * dayMs, .finite 100⟩].map
        (PricePoint.rescale 100 dayMs)) (.finite 5000) (9 * dayMs) defaultThresholds =
      (evaluateSignal [⟨0, .finite 100⟩, ⟨5 * dayMs, .finite 100⟩] (.finite 50) (8 * dayMs)
        defaultThresholds).scale 100 := by
  have hprice : (JsNumber.finite 50).scale 100 = .finite 5000 := by decide +kernel
  rw [← hprice]
  exact evaluateSignal_rescale (k := 100) (by norm_num) dayMs _ _ (8 * dayMs) defaultThresholds

end Signals

end CryptoZaloBot
