import CryptoZaloBot.Base.FixedPoint

/-!
# What a check does with one alert

`price-alert-evaluator.ts` and the data of an alert. An `armed` alert waits for the
price to reach its threshold; once its chat was told it is `fired`, until the price is
back past the threshold by half a percent.

Half a percent is what doubles make of it: `1 - 0.005` and `1 + 0.005` are rounded, and so is
their product with the threshold (`CryptoZaloBot.PriceAlerts.rearmLevel`). An alert below 200
is armed again at 200.99999999999997, one last bit before 201.

Times are epoch milliseconds. A timestamp that is absent, `null` or no date is `none`:
it is in no window.
-/

namespace CryptoZaloBot

namespace PriceAlerts

open Binary64

/-! ### Constants -/

/-- A minute, in milliseconds. -/
def minutes (n : ℤ) : ℤ := n * 60000

/-- A fired alert only re-arms once the price has moved back this far past the
threshold: the double `0.005`. -/
def rearmBufferRatio : ℚ := roundToDouble (5 / 1000)

/-- At most one message per alert within this window, even across re-arms. -/
def alertCooldownMs : ℤ := minutes 15

/-- After this many failures in a row an alert backs off. -/
def alertFailuresBeforeBackoff : ℕ := 3

def alertRetryBackoffMs : ℤ := minutes 5

/-- No new sends are started once a run's send phase has been going this long. -/
def runSendBudgetMs : ℤ := 6000

/-! ### Alerts -/

inductive AlertDirection where
  | above
  | below
  deriving DecidableEq

/-- `armed`: waiting for the price to cross; `fired`: already notified, waiting to
re-arm. -/
inductive AlertState where
  | armed
  | fired
  deriving DecidableEq

structure PriceAlert where
  id : ℕ
  chatId : String
  symbol : String
  direction : AlertDirection
  /-- USD price level. -/
  threshold : ℚ
  state : AlertState
  /-- The last successful notification. -/
  lastFiredAt : Option ℤ
  /-- The last failed send attempt; cleared on success. -/
  lastFailedAt : Option ℤ
  /-- Failed send attempts in a row. Absent on older records. -/
  consecutiveFailures : Option ℕ
  createdAt : ℤ
  deriving DecidableEq

inductive AlertAction where
  | fire
  | rearm
  | none
  deriving DecidableEq

/-! ### Conditions -/

/-- **The alert condition**: `≥` for "above", `≤` for "below". -/
def isConditionMet (direction : AlertDirection) (threshold priceUsd : ℚ) : Prop :=
  match direction with
  | .above => threshold ≤ priceUsd
  | .below => priceUsd ≤ threshold

instance (direction : AlertDirection) (threshold priceUsd : ℚ) :
    Decidable (isConditionMet direction threshold priceUsd) := by
  cases direction <;> exact inferInstanceAs (Decidable (_ ≤ _))

/-- The factor of the threshold, `1 - REARM_BUFFER_RATIO` or `1 + REARM_BUFFER_RATIO`. -/
def rearmFactor : AlertDirection → ℚ
  | .above => roundToDouble (1 - rearmBufferRatio)
  | .below => roundToDouble (1 + rearmBufferRatio)

/-- **The price that re-arms a fired alert**: the product, rounded to a double. -/
def rearmLevel (direction : AlertDirection) (threshold : ℚ) : ℚ :=
  roundToDouble (threshold * rearmFactor direction)

/-- What the factor would be without rounding. -/
def exactFactor : AlertDirection → ℚ
  | .above => 1 - 5 / 1000
  | .below => 1 + 5 / 1000

/-- **The price is back past the threshold by the buffer.** -/
def isBackPast (direction : AlertDirection) (threshold priceUsd : ℚ) : Prop :=
  match direction with
  | .above => priceUsd ≤ rearmLevel .above threshold
  | .below => rearmLevel .below threshold ≤ priceUsd

instance (direction : AlertDirection) (threshold priceUsd : ℚ) :
    Decidable (isBackPast direction threshold priceUsd) := by
  cases direction <;> exact inferInstanceAs (Decidable (_ ≤ _))

/-! ### Half a percent -/

/-- The factors are doubles next to the exact ones. -/
theorem rearmFactor_near (direction : AlertDirection) :
    1 / 2 ≤ rearmFactor direction ∧
      rearmFactor direction / 2 ^ 53 + |rearmFactor direction - exactFactor direction| ≤
        1 / 2 ^ 52 := by
  cases direction <;> decide +kernel

/-- **The level is half a percent past the threshold**, up to a part in `2 ^ 52` of it. -/
theorem rearmLevel_near (direction : AlertDirection) {threshold : ℚ}
    (h : 2 ^ (-1020 : ℤ) ≤ threshold) :
    |rearmLevel direction threshold - threshold * exactFactor direction| ≤ threshold / 2 ^ 52 := by
  obtain ⟨hhalf, hnear⟩ := rearmFactor_near direction
  have hpos : 0 < threshold := lt_of_lt_of_le (ulp_pos _) h
  have hproduct : (2 : ℚ) ^ (-1021 : ℤ) ≤ threshold * rearmFactor direction := by
    have hsplit : (2 : ℚ) ^ (-1021 : ℤ) = 2 ^ (-1020 : ℤ) * (1 / 2) := by
      rw [show (-1021 : ℤ) = -1020 + -1 by norm_num, zpow_add₀ (by norm_num), zpow_neg_one,
        one_div]
    rw [hsplit]
    exact mul_le_mul h hhalf (by norm_num) hpos.le
  have hround := abs_sub_roundToDouble_le_div hproduct
  rw [abs_sub_comm] at hround
  calc |rearmLevel direction threshold - threshold * exactFactor direction|
      ≤ |rearmLevel direction threshold - threshold * rearmFactor direction| +
          |threshold * rearmFactor direction - threshold * exactFactor direction| :=
        abs_sub_le _ _ _
    _ ≤ threshold * rearmFactor direction / 2 ^ 53 +
          threshold * |rearmFactor direction - exactFactor direction| := by
        rw [← mul_sub, abs_mul, abs_of_pos hpos]
        exact add_le_add_left hround _
    _ = threshold * (rearmFactor direction / 2 ^ 53 +
          |rearmFactor direction - exactFactor direction|) := by ring
    _ ≤ threshold / 2 ^ 52 := by
        rw [div_eq_mul_one_div threshold]
        exact mul_le_mul_of_nonneg_left hnear hpos.le

/-! ### The evaluation -/

/-- A timestamp less than `windowMs` ago. -/
def withinWindow (timestamp : Option ℤ) (now windowMs : ℤ) : Prop :=
  ∃ t ∈ timestamp, now - t < windowMs

instance (timestamp : Option ℤ) (now windowMs : ℤ) :
    Decidable (withinWindow timestamp now windowMs) := by
  unfold withinWindow
  infer_instance

/-- **What one check should do with one alert**, given the current price. -/
def evaluateAlert (alert : PriceAlert) (priceUsd : ℚ) (now : ℤ) : AlertAction :=
  match alert.state with
  | .armed =>
    if ¬isConditionMet alert.direction alert.threshold priceUsd then .none
    else if withinWindow alert.lastFiredAt now alertCooldownMs ∨
        (alertFailuresBeforeBackoff ≤ alert.consecutiveFailures.getD 0 ∧
          withinWindow alert.lastFailedAt now alertRetryBackoffMs) then .none
    else .fire
  | .fired => if isBackPast alert.direction alert.threshold priceUsd then .rearm else .none

theorem evaluateAlert_eq_rearm {alert : PriceAlert} {priceUsd : ℚ} {now : ℤ}
    (h : evaluateAlert alert priceUsd now = .rearm) :
    alert.state = .fired ∧ isBackPast alert.direction alert.threshold priceUsd := by
  rw [evaluateAlert] at h
  cases hs : alert.state with
  | armed =>
    simp only [hs] at h
    split_ifs at h
  | fired =>
    simp only [hs] at h
    split_ifs at h with hback
    exact ⟨rfl, hback⟩

theorem not_withinWindow_iff {timestamp : Option ℤ} {now windowMs : ℤ} :
    ¬withinWindow timestamp now windowMs ↔ ∀ t ∈ timestamp, t + windowMs ≤ now := by
  constructor
  · intro h t ht
    have hnot : ¬now - t < windowMs := fun hlt => h ⟨t, ht, hlt⟩
    omega
  · rintro h ⟨t, ht, hlt⟩
    have := h t ht
    omega

/-- **When a message is due**: the alert is armed, its condition is met, its cooldown is
over, and it is not waiting out a backoff. -/
theorem evaluateAlert_eq_fire_iff {alert : PriceAlert} {priceUsd : ℚ} {now : ℤ} :
    evaluateAlert alert priceUsd now = .fire ↔
      alert.state = .armed ∧ isConditionMet alert.direction alert.threshold priceUsd ∧
        (∀ t ∈ alert.lastFiredAt, t + alertCooldownMs ≤ now) ∧
        (alertFailuresBeforeBackoff ≤ alert.consecutiveFailures.getD 0 →
          ∀ t ∈ alert.lastFailedAt, t + alertRetryBackoffMs ≤ now) := by
  rw [evaluateAlert, ← not_withinWindow_iff, ← not_withinWindow_iff]
  cases hs : alert.state with
  | armed =>
    dsimp only
    by_cases hmet : isConditionMet alert.direction alert.threshold priceUsd
    · rw [if_neg (not_not.mpr hmet)]
      split_ifs with hwindow
      · simp only [hmet, true_and, false_iff, not_and, Classical.not_imp, not_not]
        intro hcooled
        exact hwindow.resolve_left hcooled
      · obtain ⟨hcooled, hbackoff⟩ := not_or.mp hwindow
        exact ⟨fun _ => ⟨rfl, hmet, hcooled, fun h hw => hbackoff ⟨h, hw⟩⟩, fun _ => rfl⟩
    · simp [hmet]
  | fired =>
    dsimp only
    split_ifs <;> simp

/-- A message is due only for an armed alert, at a price that meets its condition, and
outside the cooldown. -/
theorem evaluateAlert_eq_fire {alert : PriceAlert} {priceUsd : ℚ} {now : ℤ}
    (h : evaluateAlert alert priceUsd now = .fire) :
    alert.state = .armed ∧ isConditionMet alert.direction alert.threshold priceUsd ∧
      ∀ t ∈ alert.lastFiredAt, t + alertCooldownMs ≤ now := by
  obtain ⟨state, met, cooled, -⟩ := evaluateAlert_eq_fire_iff.mp h
  exact ⟨state, met, cooled⟩

end PriceAlerts

end CryptoZaloBot
