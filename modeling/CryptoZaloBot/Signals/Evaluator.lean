import Mathlib.Algebra.Order.Ring.Rat
import CryptoZaloBot.Base.JsNumber

/-!
# Which coins swing strongly

`signal-evaluator.ts`: from the stored prices of a coin and its price now, whether it is
swinging strongly and what to tell about it. The commands, the daily digest and the
periodic check all use `CryptoZaloBot.Signals.evaluateSignal`.

A stored point may hold any number; only finite positive ones count as prices. Percents
and positions are exact.
-/

namespace CryptoZaloBot

namespace Signals

/-! ### Constants -/

def hourMs : ℤ := 60 * 60000

def dayMs : ℤ := 24 * hourMs

/-- Length of the range the verdict looks at. -/
def rangeDays : ℤ := 7

/-- Minimum history needed before a verdict is given. -/
def minHistoryDays : ℤ := 7

/-- How far from "24h ago" or "72h ago" a stored point may be and still count as that
reference price. -/
def referenceToleranceMs : ℤ := 90 * 60000

/-- Float slack: a change of exactly the threshold counts as strong. -/
def compareEpsilon : ℚ := 1 / 1000000000

/-! ### Signals -/

/-- One stored price sample: epoch milliseconds and USD price. -/
structure PricePoint where
  t : ℤ
  p : JsNumber
  deriving DecidableEq

inductive Verdict where
  | buy
  | sell
  | watch
  deriving DecidableEq

inductive SwingDirection where
  | up
  | down
  deriving DecidableEq

/-- Which change triggered. -/
inductive SwingWindow where
  | h24
  | h72
  deriving DecidableEq

structure SignalThresholds where
  swing24hPct : ℚ
  swing72hPct : ℚ
  bandPct : ℚ

def defaultThresholds : SignalThresholds where
  swing24hPct := 8
  swing72hPct := 15
  bandPct := 25

structure SignalResult where
  /-- The history does not cover `minHistoryDays`; no verdict is given. -/
  insufficientData : Bool
  /-- Signed percent change vs 24h ago; `none` when no stored point is close enough. -/
  change24hPct : Option ℚ
  change72hPct : Option ℚ
  strong : Bool
  /-- Direction of the dominant triggered change. -/
  direction : Option SwingDirection
  /-- Signed percent of the dominant triggered change. -/
  movePct : Option ℚ
  window : Option SwingWindow
  rangeLow : Option ℚ
  rangeHigh : Option ℚ
  /-- Position of the current price in the range, 0 (low) to 100 (high). -/
  positionPct : Option ℚ
  /-- For strong swings only. -/
  verdict : Option Verdict
  priceUsd : JsNumber
  deriving DecidableEq

structure CoinSignal where
  symbol : String
  result : SignalResult
  deriving DecidableEq

/-! ### The evaluation -/

/-- One turn of the loop of `priceNear`: the point with its price, if it is the closest
so far. -/
def keepNearer (targetMs : ℤ) (best : Option (ℤ × ℚ)) (point : PricePoint) : Option (ℤ × ℚ) :=
  match point.p.positive? with
  | none => best
  | some price =>
    let gap := |point.t - targetMs|
    if referenceToleranceMs < gap then best
    else
      match best with
      | none => some (point.t, price)
      | some b => if gap < |b.1 - targetMs| then some (point.t, price) else best

/-- **`priceNear`**: the price of the stored point closest to `targetMs`, within the
tolerance; of two equally close ones, the first. -/
def priceNear (points : List PricePoint) (targetMs : ℤ) : Option ℚ :=
  (points.foldl (keepNearer targetMs) none).map Prod.snd

def changePct (reference : Option ℚ) (price : ℚ) : Option ℚ :=
  match reference with
  | none => none
  | some r => if r ≤ 0 then none else some ((price - r) / r * 100)

def exceeds (change : Option ℚ) (threshold : ℚ) : Bool :=
  match change with
  | none => false
  | some c => threshold - compareEpsilon ≤ |c|

/-- The time of the oldest point, priced or not. -/
def oldest (points : List PricePoint) : Option ℤ :=
  points.foldl (fun low point =>
    match low with
    | none => some point.t
    | some t => some (if point.t < t then point.t else t)) none

/-- The history reaches back far enough. -/
def covered (points : List PricePoint) (now : ℤ) : Bool :=
  match oldest points with
  | none => false
  | some t => t ≤ now - minHistoryDays * dayMs + referenceToleranceMs

/-- The stored prices of the 7-day range. -/
def rangePrices (points : List PricePoint) (now : ℤ) : List ℚ :=
  points.filterMap fun point =>
    if now - rangeDays * dayMs ≤ point.t then point.p.positive? else none

/-- `Math.min` of the current price and others. -/
def lowestOf (price : ℚ) (prices : List ℚ) : ℚ :=
  prices.foldl (fun low p => if p < low then p else low) price

/-- `Math.max` of the current price and others. -/
def highestOf (price : ℚ) (prices : List ℚ) : ℚ :=
  prices.foldl (fun high p => if high < p then p else high) price

def positionIn (low high price : ℚ) : ℚ :=
  if low < high then (price - low) / (high - low) * 100 else 50

/-- The verdict for a strong swing, by where the price stands in its range. -/
def verdictAt (position bandPct : ℚ) : Verdict :=
  if position ≤ bandPct + compareEpsilon then .buy
  else if 100 - bandPct - compareEpsilon ≤ position then .sell
  else .watch

/-- The change that is told, with its window: the larger one when both triggered. -/
def dominant (change24h change72h : Option ℚ) (strong24h strong72h : Bool) :
    Option (SwingWindow × Option ℚ) :=
  if strong24h || strong72h then
    if strong24h && (!strong72h || decide (|change72h.getD 0| ≤ |change24h.getD 0|)) then
      some (.h24, change24h)
    else some (.h72, change72h)
  else none

def directionOf (move : ℚ) : SwingDirection :=
  if 0 ≤ move then .up else .down

/-- What is said about a coin without enough data. -/
def emptyResult (nowPrice : JsNumber) : SignalResult where
  insufficientData := true
  change24hPct := none
  change72hPct := none
  strong := false
  direction := none
  movePct := none
  window := none
  rangeLow := none
  rangeHigh := none
  positionPct := none
  verdict := none
  priceUsd := nowPrice

/-- **`evaluateSignal`.** -/
def evaluateSignal (points : List PricePoint) (nowPrice : JsNumber) (now : ℤ)
    (thresholds : SignalThresholds) : SignalResult :=
  match nowPrice.positive? with
  -- A price of 0 would read as a swing of -100 percent and a "buy".
  | none => emptyResult nowPrice
  | some price =>
    let change24hPct := changePct (priceNear points (now - 24 * hourMs)) price
    let change72hPct := changePct (priceNear points (now - 72 * hourMs)) price
    if !covered points now || (change24hPct.isNone && change72hPct.isNone) then
      { emptyResult nowPrice with change24hPct, change72hPct }
    else
      let strong24h := exceeds change24hPct thresholds.swing24hPct
      let strong72h := exceeds change72hPct thresholds.swing72hPct
      let strong := strong24h || strong72h
      let rangeLow := lowestOf price (rangePrices points now)
      let rangeHigh := highestOf price (rangePrices points now)
      let positionPct := positionIn rangeLow rangeHigh price
      let told := dominant change24hPct change72hPct strong24h strong72h
      let movePct := told.bind Prod.snd
      { insufficientData := false
        change24hPct
        change72hPct
        strong
        direction := movePct.map directionOf
        movePct
        window := told.map Prod.fst
        rangeLow := some rangeLow
        rangeHigh := some rangeHigh
        positionPct := some positionPct
        verdict := if strong then some (verdictAt positionPct thresholds.bandPct) else none
        priceUsd := nowPrice }

/-! ### What a result tells -/

/-- **A verdict is only given on a strong swing**, with enough data, at a price. -/
theorem strong_of_verdict {points : List PricePoint} {nowPrice : JsNumber} {now : ℤ}
    {thresholds : SignalThresholds} {v : Verdict}
    (h : (evaluateSignal points nowPrice now thresholds).verdict = some v) :
    (evaluateSignal points nowPrice now thresholds).strong = true ∧
      (evaluateSignal points nowPrice now thresholds).insufficientData = false := by
  revert h
  rw [evaluateSignal]
  split
  · intro h
    cases h
  · dsimp only
    split
    · intro h
      cases h
    · intro h
      refine ⟨?_, rfl⟩
      by_contra hs
      rw [if_neg hs] at h
      cases h

end Signals

end CryptoZaloBot
