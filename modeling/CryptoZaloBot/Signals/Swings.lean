import Mathlib.Tactic.Linarith
import Mathlib.Tactic.Positivity
import Mathlib.Tactic.FieldSimp
import CryptoZaloBot.Signals.Deliveries

/-!
# What a result holds together

The parts of a `CryptoZaloBot.Signals.SignalResult` are computed apart: two changes against
two reference prices, a range of seven days, a position in it. This module says how they
fit: a move that is told met its own threshold, its reference price lies in the range, so
the range of a strong swing is never flat (`CryptoZaloBot.Signals.evaluateSignal_coherent`).

The second half is about stored points without a price. The references and the range leave
them out, the coverage of the history does not
(`CryptoZaloBot.Signals.evaluateSignal_pricedPoints_iff`).
-/

namespace CryptoZaloBot

namespace JsNumber

theorem positive?_eq_some {x : JsNumber} {q : ℚ} : x.positive? = some q ↔ x = finite q ∧ 0 < q := by
  cases x with
  | finite p =>
    rw [positive?]
    split <;> rename_i hp
    · simp only [Option.some.injEq, finite.injEq]
      exact ⟨fun h => ⟨h, h ▸ hp⟩, fun h => h.1⟩
    · simp only [reduceCtorEq, finite.injEq, false_iff, not_and]
      exact fun h => h ▸ hp
  | posInfinity => simp [positive?]
  | negInfinity => simp [positive?]
  | nan => simp [positive?]

end JsNumber

namespace Signals

/-! ### Reference prices -/

/-- The best point so far is one of the points seen, with its price, within the
tolerance. -/
theorem mem_of_keepNearer {targetMs : ℤ} {points : List PricePoint} {best : Option (ℤ × ℚ)}
    {t : ℤ} {price : ℚ} (h : points.foldl (keepNearer targetMs) best = some (t, price)) :
    best = some (t, price) ∨ ∃ point ∈ points, point.t = t ∧ point.p.positive? = some price ∧
      |t - targetMs| ≤ referenceToleranceMs := by
  induction points generalizing best with
  | nil => exact .inl h
  | cons point rest ih =>
    rcases ih h with hbest | ⟨other, hmem, hother⟩
    · rw [keepNearer] at hbest
      split at hbest
      · exact .inl hbest
      · rename_i q hq
        dsimp only at hbest
        split at hbest
        · exact .inl hbest
        · rename_i hgap
          have hthis : some (point.t, q) = some (t, price) → ∃ other ∈ point :: rest,
              other.t = t ∧ other.p.positive? = some price ∧
                |t - targetMs| ≤ referenceToleranceMs := by
            intro heq
            obtain ⟨rfl, rfl⟩ := Prod.mk.inj (Option.some.inj heq)
            exact ⟨point, List.mem_cons_self, rfl, hq, not_lt.mp hgap⟩
          split at hbest
          · exact .inr (hthis hbest)
          · split at hbest
            · exact .inr (hthis hbest)
            · exact .inl hbest
    · exact .inr ⟨other, List.mem_cons_of_mem _ hmem, hother⟩

/-- **A reference price is the price of a stored point** close to the time asked for. -/
theorem priceNear_eq_some {points : List PricePoint} {targetMs : ℤ} {price : ℚ}
    (h : priceNear points targetMs = some price) :
    ∃ point ∈ points, point.p.positive? = some price ∧
      |point.t - targetMs| ≤ referenceToleranceMs := by
  obtain ⟨⟨t, q⟩, hfold, rfl⟩ := Option.map_eq_some_iff.mp h
  obtain hnone | ⟨point, hmem, rfl, hp, hgap⟩ := mem_of_keepNearer hfold
  · cases hnone
  · exact ⟨point, hmem, hp, hgap⟩

theorem changePct_eq_some {reference : Option ℚ} {price change : ℚ}
    (h : changePct reference price = some change) :
    ∃ r, reference = some r ∧ 0 < r ∧ change = (price - r) / r * 100 := by
  cases reference with
  | none => cases h
  | some r =>
    simp only [changePct] at h
    split at h
    · cases h
    · rename_i hr
      exact ⟨r, rfl, not_le.mp hr, (Option.some.inj h).symm⟩

theorem exceeds_iff {change : Option ℚ} {threshold : ℚ} :
    exceeds change threshold = true ↔
      ∃ c, change = some c ∧ threshold - compareEpsilon ≤ |c| := by
  cases change with
  | none => simp [exceeds]
  | some c => simp [exceeds]

/-! ### The range -/

theorem lowestOf_le (price : ℚ) (prices : List ℚ) :
    lowestOf price prices ≤ price ∧ ∀ p ∈ prices, lowestOf price prices ≤ p := by
  induction prices generalizing price with
  | nil => exact ⟨le_refl _, by simp⟩
  | cons q rest ih =>
    obtain ⟨hfirst, hrest⟩ := ih (if q < price then q else price)
    have hle : (if q < price then q else price) ≤ price ∧
        (if q < price then q else price) ≤ q := by
      split <;> rename_i hq
      · exact ⟨hq.le, le_refl q⟩
      · exact ⟨le_refl price, not_lt.mp hq⟩
    refine ⟨hfirst.trans hle.1, fun p hp => ?_⟩
    rcases List.mem_cons.mp hp with rfl | hmem
    · exact hfirst.trans hle.2
    · exact hrest p hmem

theorem le_highestOf (price : ℚ) (prices : List ℚ) :
    price ≤ highestOf price prices ∧ ∀ p ∈ prices, p ≤ highestOf price prices := by
  induction prices generalizing price with
  | nil => exact ⟨le_refl _, by simp⟩
  | cons q rest ih =>
    obtain ⟨hfirst, hrest⟩ := ih (if price < q then q else price)
    have hle : price ≤ (if price < q then q else price) ∧
        q ≤ (if price < q then q else price) := by
      split <;> rename_i hq
      · exact ⟨hq.le, le_refl q⟩
      · exact ⟨le_refl price, not_lt.mp hq⟩
    refine ⟨hle.1.trans hfirst, fun p hp => ?_⟩
    rcases List.mem_cons.mp hp with rfl | hmem
    · exact hle.2.trans hfirst
    · exact hrest p hmem

theorem positionIn_bounds {low high price : ℚ} (hlow : low ≤ price) (hhigh : price ≤ high) :
    0 ≤ positionIn low high price ∧ positionIn low high price ≤ 100 := by
  rw [positionIn]
  split <;> rename_i hlt
  · have hpos : 0 < high - low := sub_pos.mpr hlt
    have hnum : 0 ≤ price - low := sub_nonneg.mpr hlow
    have hle : (price - low) / (high - low) ≤ 1 := by
      rw [div_le_one hpos]
      linarith
    have hge : 0 ≤ (price - low) / (high - low) := div_nonneg hnum hpos.le
    constructor <;> linarith
  · norm_num

/-- **The reference price lies in the range**: 72 hours and the tolerance are less than
seven days. -/
theorem mem_rangePrices_of_priceNear {points : List PricePoint} {now back : ℤ} {price : ℚ}
    (hback : back ≤ 72 * hourMs) (h : priceNear points (now - back) = some price) :
    price ∈ rangePrices points now := by
  obtain ⟨point, hmem, hp, hgap⟩ := priceNear_eq_some h
  refine List.mem_filterMap.mpr ⟨point, hmem, ?_⟩
  have hafter : now - rangeDays * dayMs ≤ point.t := by
    have hlow := (abs_le.mp hgap).1
    simp only [rangeDays, dayMs, referenceToleranceMs, hourMs] at *
    omega
  rw [if_pos hafter, hp]

/-! ### Thresholds and windows -/

/-- The thresholds the configuration admits. -/
structure SignalThresholds.Admitted (thresholds : SignalThresholds) : Prop where
  swing24hPct : compareEpsilon < thresholds.swing24hPct
  swing72hPct : compareEpsilon < thresholds.swing72hPct
  bandPct : 0 < thresholds.bandPct ∧ thresholds.bandPct ≤ 50

def SignalThresholds.swingPct (thresholds : SignalThresholds) : SwingWindow → ℚ
  | .h24 => thresholds.swing24hPct
  | .h72 => thresholds.swing72hPct

/-- How far back the reference price of a window is. -/
def SwingWindow.backMs : SwingWindow → ℤ
  | .h24 => 24 * hourMs
  | .h72 => 72 * hourMs

/-- The change of a window. -/
def SignalResult.changeOf (r : SignalResult) : SwingWindow → Option ℚ
  | .h24 => r.change24hPct
  | .h72 => r.change72hPct

theorem SignalResult.changeOf_eq {r : SignalResult} (changeOf : SwingWindow → Option ℚ)
    (h24 : r.change24hPct = changeOf .h24) (h72 : r.change72hPct = changeOf .h72) :
    r.changeOf = changeOf := by
  funext window
  cases window with
  | h24 => exact h24
  | h72 => exact h72

theorem SwingWindow.backMs_le (window : SwingWindow) : window.backMs ≤ 72 * hourMs := by
  cases window <;> simp [backMs, hourMs]

theorem SignalThresholds.Admitted.epsilon_lt {thresholds : SignalThresholds}
    (h : thresholds.Admitted) (window : SwingWindow) :
    compareEpsilon < thresholds.swingPct window := by
  cases window with
  | h24 => exact h.swing24hPct
  | h72 => exact h.swing72hPct

/-- **The change that is told meets its own threshold**, and no other change that meets
its threshold is larger. -/
def IsTold (changeOf : SwingWindow → Option ℚ) (thresholds : SignalThresholds)
    (window : SwingWindow) (move : ℚ) : Prop :=
  changeOf window = some move ∧
    thresholds.swingPct window - compareEpsilon ≤ |move| ∧
      ∀ other change, changeOf other = some change →
        thresholds.swingPct other - compareEpsilon ≤ |change| → |change| ≤ |move|

theorem dominant_told (thresholds : SignalThresholds) (changeOf : SwingWindow → Option ℚ)
    (hstrong : (exceeds (changeOf .h24) thresholds.swing24hPct ||
      exceeds (changeOf .h72) thresholds.swing72hPct) = true) :
    ∃ window move, IsTold changeOf thresholds window move ∧
      dominant (changeOf .h24) (changeOf .h72)
        (exceeds (changeOf .h24) thresholds.swing24hPct)
        (exceeds (changeOf .h72) thresholds.swing72hPct) = some (window, some move) := by
  have hunmet : ∀ {window change}, changeOf window = some change →
      thresholds.swingPct window - compareEpsilon ≤ |change| →
        exceeds (changeOf window) (thresholds.swingPct window) = true :=
    fun hc hle => exceeds_iff.mpr ⟨_, hc, hle⟩
  cases h24 : exceeds (changeOf .h24) thresholds.swing24hPct with
  | false =>
    rw [h24, Bool.false_or] at hstrong
    obtain ⟨move, hmove, hle⟩ := exceeds_iff.mp hstrong
    refine ⟨.h72, move, ⟨hmove, hle, fun other change hc hother => ?_⟩, ?_⟩
    · cases other with
      | h24 =>
        have htrue := hunmet hc hother
        rw [SignalThresholds.swingPct, h24] at htrue
        cases htrue
      | h72 => rw [Option.some.inj (hc.symm.trans hmove)]
    · rw [hmove] at hstrong ⊢
      simp [dominant, hstrong]
  | true =>
    obtain ⟨move24, hmove24, hle24⟩ := exceeds_iff.mp h24
    cases h72 : exceeds (changeOf .h72) thresholds.swing72hPct with
    | false =>
      refine ⟨.h24, move24, ⟨hmove24, hle24, fun other change hc hother => ?_⟩, ?_⟩
      · cases other with
        | h24 => rw [Option.some.inj (hc.symm.trans hmove24)]
        | h72 =>
          have htrue := hunmet hc hother
          rw [SignalThresholds.swingPct, h72] at htrue
          cases htrue
      · simp [dominant, hmove24]
    | true =>
      obtain ⟨move72, hmove72, hle72⟩ := exceeds_iff.mp h72
      -- Both triggered: the larger one is told, the 24 hours on a tie.
      by_cases hlarger : |move72| ≤ |move24|
      · refine ⟨.h24, move24, ⟨hmove24, hle24, fun other change hc _ => ?_⟩, ?_⟩
        · cases other with
          | h24 => rw [Option.some.inj (hc.symm.trans hmove24)]
          | h72 => rwa [Option.some.inj (hc.symm.trans hmove72)]
        · simp [dominant, hmove24, hmove72, hlarger]
      · refine ⟨.h72, move72, ⟨hmove72, hle72, fun other change hc _ => ?_⟩, ?_⟩
        · cases other with
          | h24 =>
            rw [Option.some.inj (hc.symm.trans hmove24)]
            exact (not_le.mp hlarger).le
          | h72 => rw [Option.some.inj (hc.symm.trans hmove72)]
        · simp [dominant, hmove24, hmove72, hlarger]

/-! ### What a result holds -/

/-- **How the parts of a result fit together.** -/
structure Coherent (points : List PricePoint) (now : ℤ) (thresholds : SignalThresholds)
    (r : SignalResult) : Prop where
  /-- All parts of a strong swing, or none. -/
  together :
    (r.strong = true ∧ r.direction.isSome = true ∧ r.movePct.isSome = true ∧
      r.window.isSome = true ∧ r.verdict.isSome = true) ∨
    (r.strong = false ∧ r.direction = none ∧ r.movePct = none ∧ r.window = none ∧
      r.verdict = none)
  move : ∀ window move, r.window = some window → r.movePct = some move →
    IsTold r.changeOf thresholds window move ∧ r.direction = some (directionOf move)
  /-- The range is reported as a whole, around the price. -/
  range :
    (r.rangeLow = none ∧ r.rangeHigh = none ∧ r.positionPct = none) ∨
    ∃ low high position price, r.rangeLow = some low ∧ r.rangeHigh = some high ∧
      r.positionPct = some position ∧ r.priceUsd = .finite price ∧
        low ≤ price ∧ price ≤ high ∧ 0 ≤ position ∧ position ≤ 100
  /-- The reference price of a strong swing is in its range, which is not flat. -/
  reference : r.strong = true → ∃ window reference low high price,
    r.window = some window ∧ priceNear points (now - window.backMs) = some reference ∧
      r.rangeLow = some low ∧ r.rangeHigh = some high ∧ low ≤ reference ∧ reference ≤ high ∧
        low < high ∧ r.priceUsd = .finite price ∧
          r.positionPct = some ((price - low) / (high - low) * 100)
  verdict : r.strong = true → ∃ position, r.positionPct = some position ∧
    (r.verdict = some .buy ↔ position ≤ thresholds.bandPct + compareEpsilon) ∧
    (r.verdict = some .sell ↔ thresholds.bandPct + compareEpsilon < position ∧
      100 - thresholds.bandPct - compareEpsilon ≤ position) ∧
    (r.verdict = some .watch ↔ thresholds.bandPct + compareEpsilon < position ∧
      position < 100 - thresholds.bandPct - compareEpsilon)
  lacking : r.insufficientData = true → r.strong = false ∧ r.verdict = none

/-- A result that says nothing but the changes. -/
theorem coherent_empty (points : List PricePoint) (now : ℤ) (thresholds : SignalThresholds)
    (nowPrice : JsNumber) (change24hPct change72hPct : Option ℚ) :
    Coherent points now thresholds { emptyResult nowPrice with change24hPct, change72hPct } where
  together := .inr ⟨rfl, rfl, rfl, rfl, rfl⟩
  move _ _ h := nomatch h
  range := .inl ⟨rfl, rfl, rfl⟩
  reference h := nomatch h
  verdict h := nomatch h
  lacking _ := ⟨rfl, rfl⟩

theorem verdictAt_iff (position bandPct : ℚ) :
    (verdictAt position bandPct = .buy ↔ position ≤ bandPct + compareEpsilon) ∧
    (verdictAt position bandPct = .sell ↔ bandPct + compareEpsilon < position ∧
      100 - bandPct - compareEpsilon ≤ position) ∧
    (verdictAt position bandPct = .watch ↔ bandPct + compareEpsilon < position ∧
      position < 100 - bandPct - compareEpsilon) := by
  rw [verdictAt]
  split <;> rename_i hbuy
  · simp [hbuy, not_lt.mpr hbuy]
  · split <;> rename_i hsell
    · simp [hbuy, not_le.mp hbuy, hsell, not_lt.mpr hsell]
    · simp [hbuy, not_le.mp hbuy, hsell, not_le.mp hsell]

/-- **A change that meets a threshold is one from another price**: the range from the
reference to the price is not flat. -/
theorem lt_of_told {thresholds : SignalThresholds} (hadmitted : thresholds.Admitted)
    {changeOf : SwingWindow → Option ℚ} {window : SwingWindow} {move price reference low high : ℚ}
    (htold : IsTold changeOf thresholds window move)
    (hmove : move = (price - reference) / reference * 100)
    (hlow : low ≤ price ∧ low ≤ reference) (hhigh : price ≤ high ∧ reference ≤ high) :
    low < high := by
  have hpos : 0 < |move| := lt_of_lt_of_le
    (sub_pos.mpr (hadmitted.epsilon_lt window)) htold.2.1
  have hne : price ≠ reference := by
    intro heq
    rw [hmove, heq, sub_self, zero_div, zero_mul, abs_zero] at hpos
    exact lt_irrefl _ hpos
  rcases lt_or_gt_of_ne hne with hlt | hlt
  · exact lt_of_le_of_lt hlow.1 (lt_of_lt_of_le hlt hhigh.2)
  · exact lt_of_le_of_lt hlow.2 (lt_of_lt_of_le hlt hhigh.1)

/-- **Every result is coherent.** -/
theorem coherent_evaluateSignal (points : List PricePoint) (nowPrice : JsNumber) (now : ℤ)
    {thresholds : SignalThresholds} (hadmitted : thresholds.Admitted) :
    Coherent points now thresholds (evaluateSignal points nowPrice now thresholds) := by
  rw [evaluateSignal]
  cases hprice : nowPrice.positive? with
  | none => exact coherent_empty points now thresholds nowPrice none none
  | some price =>
    obtain ⟨rfl, -⟩ := JsNumber.positive?_eq_some.mp hprice
    dsimp only
    split
    · exact coherent_empty points now thresholds _ _ _
    · -- The two changes, by window.
      obtain ⟨changeOf, hchangeOf⟩ : ∃ changeOf : SwingWindow → Option ℚ, ∀ window,
          changeOf window = changePct (priceNear points (now - window.backMs)) price :=
        ⟨_, fun _ => rfl⟩
      have h24 : changePct (priceNear points (now - 24 * hourMs)) price = changeOf .h24 :=
        (hchangeOf .h24).symm
      have h72 : changePct (priceNear points (now - 72 * hourMs)) price = changeOf .h72 :=
        (hchangeOf .h72).symm
      rw [h24, h72]
      obtain ⟨hlow, hlowMem⟩ := lowestOf_le price (rangePrices points now)
      obtain ⟨hhigh, hhighMem⟩ := le_highestOf price (rangePrices points now)
      obtain ⟨hpos, hpos'⟩ := positionIn_bounds hlow hhigh
      cases hstrong : exceeds (changeOf .h24) thresholds.swing24hPct ||
          exceeds (changeOf .h72) thresholds.swing72hPct with
      | false =>
        have hnone : dominant (changeOf .h24) (changeOf .h72)
            (exceeds (changeOf .h24) thresholds.swing24hPct)
            (exceeds (changeOf .h72) thresholds.swing72hPct) = none := by
          rw [dominant, hstrong]
          rfl
        rw [hnone]
        exact {
          together := .inr ⟨rfl, rfl, rfl, rfl, rfl⟩
          move := fun _ _ h => absurd h (Option.some_ne_none _).symm
          range := .inr ⟨_, _, _, _, rfl, rfl, rfl, rfl, hlow, hhigh, hpos, hpos'⟩
          reference := fun h => absurd h Bool.false_ne_true
          verdict := fun h => absurd h Bool.false_ne_true
          lacking := fun h => absurd h Bool.false_ne_true }
      | true =>
        obtain ⟨window, move, htold, heq⟩ := dominant_told thresholds changeOf hstrong
        rw [heq]
        have hmove := htold.1
        rw [hchangeOf] at hmove
        obtain ⟨reference, hnear, -, hchange⟩ := changePct_eq_some hmove
        have hmem := mem_rangePrices_of_priceNear window.backMs_le hnear
        have hlt := lt_of_told hadmitted htold hchange
          ⟨hlow, hlowMem _ hmem⟩ ⟨hhigh, hhighMem _ hmem⟩
        have hverdict := verdictAt_iff
          (positionIn (lowestOf price (rangePrices points now))
            (highestOf price (rangePrices points now)) price) thresholds.bandPct
        exact {
          together := .inl ⟨rfl, rfl, rfl, rfl, rfl⟩
          move := by
            intro w m hw hm
            obtain rfl := Option.some.inj hw
            obtain rfl := Option.some.inj hm
            refine ⟨?_, rfl⟩
            rw [SignalResult.changeOf_eq changeOf]
            · exact htold
            · rfl
            · rfl
          range := .inr ⟨_, _, _, _, rfl, rfl, rfl, rfl, hlow, hhigh, hpos, hpos'⟩
          reference := fun _ => ⟨window, reference, _, _, price, rfl, hnear, rfl, rfl,
            hlowMem _ hmem, hhighMem _ hmem, hlt, rfl, by rw [positionIn, if_pos hlt]⟩
          verdict := fun _ => ⟨_, rfl, by simpa using hverdict⟩
          lacking := fun h => absurd h Bool.false_ne_true }

/-! ### Coins to report -/

/-- What the line of a coin shows: the direction, the verdict, the move with its window,
the price in its range. Of the two changes, the one of that window. -/
structure SignalResult.Renders (r : SignalResult) : Prop where
  direction : r.direction.isSome = true
  verdict : r.verdict.isSome = true
  move : ∃ window move, r.window = some window ∧ r.movePct = some move ∧
    r.changeOf window = some move
  priceUsd : ∃ price, r.priceUsd = .finite price
  range : r.rangeLow.isSome = true ∧ r.rangeHigh.isSome = true ∧ r.positionPct.isSome = true

theorem Coherent.renders {points : List PricePoint} {now : ℤ} {thresholds : SignalThresholds}
    {r : SignalResult} (h : Coherent points now thresholds r) (hstrong : r.strong = true) :
    r.Renders := by
  rcases h.together with ⟨-, hdirection, hmove, hwindow, hverdict⟩ | ⟨hfalse, -⟩
  · obtain ⟨move, hmove⟩ := Option.isSome_iff_exists.mp hmove
    obtain ⟨window, hwindow⟩ := Option.isSome_iff_exists.mp hwindow
    obtain ⟨-, -, low, high, price, -, -, hlow, hhigh, -, -, -, hprice, hposition⟩ :=
      h.reference hstrong
    exact {
      direction := hdirection
      verdict := hverdict
      move := ⟨window, move, hwindow, hmove, (h.move window move hwindow hmove).1.1⟩
      priceUsd := ⟨price, hprice⟩
      range := by simp [hlow, hhigh, hposition] }
  · rw [hstrong] at hfalse
    cases hfalse

/-- **Every result is coherent, and every coin picked has what its line shows.** -/
theorem evaluateSignal_coherent (thresholds : SignalThresholds)
    (hadmitted : thresholds.Admitted) :
    (∀ points nowPrice now,
      Coherent points now thresholds (evaluateSignal points nowPrice now thresholds)) ∧
    ∀ signals state now,
      (∀ signal ∈ signals, ∃ points nowPrice at',
        signal.result = evaluateSignal points nowPrice at' thresholds) →
      ∀ signal ∈ selectCoinsToAlert signals state now,
        carriesVerdict signal = true ∧ signal.result.Renders := by
  refine ⟨fun points nowPrice now => coherent_evaluateSignal points nowPrice now hadmitted,
    fun signals state now hsignals signal hmem => ?_⟩
  obtain ⟨-, hsignal, hnews⟩ := mem_selectCoinsToAlert.mp hmem
  obtain ⟨points, nowPrice, at', heq⟩ := hsignals signal hsignal
  have hcoherent := coherent_evaluateSignal points nowPrice at' hadmitted
  rw [← heq] at hcoherent
  have hstrong := (Bool.and_eq_true_iff.mp hnews).1
  rw [isStrong, Bool.and_eq_true, Bool.and_eq_true] at hstrong
  have hrenders := hcoherent.renders hstrong.1.1
  exact ⟨by rw [carriesVerdict, hstrong.1.1, hstrong.1.2, hrenders.verdict]; rfl, hrenders⟩

theorem defaultThresholds_admitted : defaultThresholds.Admitted where
  swing24hPct := by norm_num [defaultThresholds, compareEpsilon]
  swing72hPct := by norm_num [defaultThresholds, compareEpsilon]
  bandPct := by norm_num [defaultThresholds]

/-- A coin that lost half within three days, without a price from a day ago. -/
def halved : CoinSignal where
  symbol := "btc"
  result := evaluateSignal [⟨0, .finite 100⟩, ⟨5 * dayMs, .finite 100⟩] (.finite 50) (8 * dayMs)
    defaultThresholds

theorem halved_evaluated : ∃ points nowPrice now,
    halved.result = evaluateSignal points nowPrice now defaultThresholds :=
  ⟨[⟨0, .finite 100⟩, ⟨5 * dayMs, .finite 100⟩], .finite 50, 8 * dayMs, rfl⟩

theorem evaluateSignal_coherent_halved :
    selectCoinsToAlert [halved] freshState (8 * dayMs) = [halved] ∧
      ∀ signal ∈ selectCoinsToAlert [halved] freshState (8 * dayMs),
        carriesVerdict signal = true ∧ signal.result.Renders :=
  ⟨by decide +kernel,
    (evaluateSignal_coherent defaultThresholds defaultThresholds_admitted).2 _ _ _
      fun _ hmem => List.mem_singleton.mp hmem ▸ halved_evaluated⟩

/-- **The other change may be missing**: that coin is picked, and its line says "N/A" where
the change of a day stands. -/
theorem picked_without_change24h :
    defaultThresholds.Admitted ∧ halved ∈ selectCoinsToAlert [halved] freshState (8 * dayMs) ∧
      halved.result.change24hPct = none :=
  ⟨defaultThresholds_admitted, by decide +kernel, by decide +kernel⟩

/-! ### Points without a price -/

/-- The points whose price is a finite positive number. -/
def pricedPoints (points : List PricePoint) : List PricePoint :=
  points.filter fun point => point.p.positive?.isSome

theorem mem_pricedPoints {points : List PricePoint} {point : PricePoint} :
    point ∈ pricedPoints points ↔ point ∈ points ∧ point.p.positive?.isSome = true :=
  List.mem_filter

/-- The time before which a point covers the history. -/
def coverageEnd (now : ℤ) : ℤ := now - minHistoryDays * dayMs + referenceToleranceMs

theorem priceNear_pricedPoints (points : List PricePoint) (targetMs : ℤ) :
    priceNear (pricedPoints points) targetMs = priceNear points targetMs := by
  rw [priceNear, priceNear, pricedPoints, List.foldl_filter]
  congr 2
  funext best point
  cases hp : point.p.positive? with
  | none => simp [keepNearer, hp]
  | some price => rfl

theorem rangePrices_pricedPoints (points : List PricePoint) (now : ℤ) :
    rangePrices (pricedPoints points) now = rangePrices points now := by
  rw [rangePrices, rangePrices, pricedPoints, List.filterMap_filter]
  congr 1
  funext point
  cases hp : point.p.positive? with
  | none => simp
  | some price => rfl

theorem oldest_cons (first : PricePoint) (rest : List PricePoint) (bound : ℤ) :
    ∃ low, oldest (first :: rest) = some low ∧
      (low ≤ bound ↔ ∃ point ∈ first :: rest, point.t ≤ bound) := by
  induction rest generalizing first with
  | nil => exact ⟨first.t, rfl, by simp⟩
  | cons point rest ih =>
    -- The two first points count as one, at the earlier time.
    obtain ⟨low, hlow, hiff⟩ := ih ⟨if point.t < first.t then point.t else first.t, first.p⟩
    refine ⟨low, hlow, ?_⟩
    have hmin : (if point.t < first.t then point.t else first.t) ≤ bound ↔
        first.t ≤ bound ∨ point.t ≤ bound := by
      split <;> omega
    rw [hiff, List.exists_mem_cons_iff, List.exists_mem_cons_iff, List.exists_mem_cons_iff,
      hmin, or_assoc]

/-- **Any point, priced or not, covers the history** if it is old enough. -/
theorem covered_iff {points : List PricePoint} {now : ℤ} :
    covered points now = true ↔ ∃ point ∈ points, point.t ≤ coverageEnd now := by
  cases points with
  | nil => simp [covered, oldest]
  | cons first rest =>
    obtain ⟨low, hlow, hiff⟩ := oldest_cons first rest (coverageEnd now)
    rw [covered, hlow, ← hiff]
    exact decide_eq_true_iff

theorem foldl_keepNearer_isSome (points : List PricePoint) (targetMs : ℤ)
    (best : Option (ℤ × ℚ)) :
    (points.foldl (keepNearer targetMs) best).isSome = true ↔
      best.isSome = true ∨ ∃ point ∈ pricedPoints points,
        |point.t - targetMs| ≤ referenceToleranceMs := by
  induction points generalizing best with
  | nil => simp [pricedPoints]
  | cons point rest ih =>
    rw [List.foldl_cons, ih, keepNearer]
    cases hp : point.p.positive? with
    | none =>
      have hskip : pricedPoints (point :: rest) = pricedPoints rest := by
        simp [pricedPoints, hp]
      rw [hskip]
    | some price =>
      have hkeep : pricedPoints (point :: rest) = point :: pricedPoints rest := by
        simp [pricedPoints, hp]
      rw [hkeep, List.exists_mem_cons_iff, ← or_assoc]
      refine or_congr ?_ Iff.rfl
      dsimp only
      split <;> rename_i hgap
      · simp [not_le.mpr hgap]
      · have hle := not_lt.mp hgap
        cases best with
        | none => simp [hle]
        | some b =>
          dsimp only
          split <;> simp [hle]

/-- Some priced point is close enough to the time. -/
theorem priceNear_isSome {points : List PricePoint} {targetMs : ℤ} :
    (priceNear points targetMs).isSome = true ↔
      ∃ point ∈ pricedPoints points, |point.t - targetMs| ≤ referenceToleranceMs := by
  rw [priceNear, Option.isSome_map, foldl_keepNearer_isSome]
  simp

/-- A reference price is positive, so its change is not missing. -/
theorem changePct_priceNear_isNone {points : List PricePoint} {targetMs : ℤ} {price : ℚ} :
    (changePct (priceNear points targetMs) price).isNone = true ↔
      ∀ point ∈ pricedPoints points, referenceToleranceMs < |point.t - targetMs| := by
  have hnear : (priceNear points targetMs).isSome = true ↔ _ := priceNear_isSome
  cases heq : priceNear points targetMs with
  | none =>
    rw [heq] at hnear
    simpa [changePct] using hnear
  | some reference =>
    obtain ⟨_, -, hp, -⟩ := priceNear_eq_some heq
    have hpos := (JsNumber.positive?_eq_some.mp hp).2
    rw [heq] at hnear
    obtain ⟨point, hmem, hle⟩ := hnear.mp rfl
    simp only [changePct, if_neg (not_le.mpr hpos), Option.isNone_some, Bool.false_eq_true,
      false_iff, not_forall]
    exact ⟨point, hmem, not_lt.mpr hle⟩

/-- Every point that covers the history has a priced one beside it. -/
def PricedCoverage (points : List PricePoint) (now : ℤ) : Prop :=
  (∃ point ∈ points, point.t ≤ coverageEnd now) →
    ∃ point ∈ pricedPoints points, point.t ≤ coverageEnd now

theorem covered_pricedPoints_iff {points : List PricePoint} {now : ℤ} :
    covered (pricedPoints points) now = covered points now ↔ PricedCoverage points now := by
  rw [Bool.eq_iff_iff, covered_iff, covered_iff]
  refine ⟨fun h => h.mpr, fun h => ⟨fun ⟨point, hmem, hle⟩ => ?_, h⟩⟩
  exact ⟨point, (mem_pricedPoints.mp hmem).1, hle⟩

/-- No priced point is close to a reference time. -/
def NoReference (points : List PricePoint) (now : ℤ) : Prop :=
  ∀ window : SwingWindow, ∀ point ∈ pricedPoints points,
    referenceToleranceMs < |point.t - (now - window.backMs)|

theorem noReference_iff {points : List PricePoint} {now : ℤ} {price : ℚ} :
    NoReference points now ↔
      ((changePct (priceNear points (now - 24 * hourMs)) price).isNone &&
        (changePct (priceNear points (now - 72 * hourMs)) price).isNone) = true := by
  rw [Bool.and_eq_true, changePct_priceNear_isNone, changePct_priceNear_isNone]
  refine ⟨fun h => ⟨h .h24, h .h72⟩, fun h window => ?_⟩
  cases window with
  | h24 => exact h.1
  | h72 => exact h.2

/-- **When points without a price change nothing**: the price now is none either, or there
is no reference price, or the history is covered by priced points as well. -/
theorem evaluateSignal_pricedPoints_iff (points : List PricePoint) (nowPrice : JsNumber)
    (now : ℤ) (thresholds : SignalThresholds) :
    evaluateSignal (pricedPoints points) nowPrice now thresholds =
        evaluateSignal points nowPrice now thresholds ↔
      nowPrice.positive? = none ∨ NoReference points now ∨ PricedCoverage points now := by
  rw [← covered_pricedPoints_iff, evaluateSignal, evaluateSignal, rangePrices_pricedPoints]
  simp only [priceNear_pricedPoints]
  cases nowPrice.positive? with
  | none => simp
  | some price =>
    rw [noReference_iff]
    cases hnone : (changePct (priceNear points (now - 24 * hourMs)) price).isNone &&
        (changePct (priceNear points (now - 72 * hourMs)) price).isNone with
    | true => simp [hnone]
    | false =>
      simp only [hnone, Bool.or_false, reduceCtorEq, Bool.false_eq_true, false_or]
      refine ⟨fun h => ?_, fun h => by rw [h]⟩
      -- With a reference price, coverage is what decides whether there is enough data.
      have hdata := congrArg SignalResult.insufficientData h
      cases hpriced : covered (pricedPoints points) now <;> cases hall : covered points now <;>
        simp [hpriced, hall, emptyResult] at hdata ⊢

/-- A price of 0 from eight days ago covers the history of a coin known for a day. -/
theorem unpriced_point_covers :
    evaluateSignal [⟨0, .finite 0⟩, ⟨7 * dayMs, .finite 100⟩] (.finite 80) (8 * dayMs)
        defaultThresholds ≠
      evaluateSignal (pricedPoints [⟨0, .finite 0⟩, ⟨7 * dayMs, .finite 100⟩]) (.finite 80)
        (8 * dayMs) defaultThresholds ∧
    (evaluateSignal [⟨0, .finite 0⟩, ⟨7 * dayMs, .finite 100⟩] (.finite 80) (8 * dayMs)
      defaultThresholds).verdict = some .buy := by
  decide +kernel

end Signals

end CryptoZaloBot
