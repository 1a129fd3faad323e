import CryptoZaloBot.Base.Blocks
import CryptoZaloBot.Signals.Scorecard

/-!
# The backtest

`runBacktest` of `signal-backtest.ts` replays the verdict rules over end-of-day prices, laid
on an exact grid of days. A verdict that stays for several days counts once, on its first
day, and is scored by the close three days later.

So the tallies count blocks of days with one verdict
(`CryptoZaloBot.Signals.runBacktest_counts_blocks`). The verdict of a day does not look
ahead, and a close that is added scores one block more at most.
-/

namespace CryptoZaloBot

namespace Signals

/-- A shorter history is refused. -/
def backtestMinDays : ℕ := 14

def horizonDays : ℕ := (horizonMs / dayMs).toNat

/-! ### Days -/

section Days

variable (dailyCloses : List JsNumber) (thresholds : SignalThresholds)

/-- The closes on an exact grid of days. -/
def gridPoints : List PricePoint := dailyCloses.mapIdx fun index p => ⟨index * dayMs, p⟩

def closeAt (i : ℕ) : JsNumber := dailyCloses.getD i .nan

/-- The buy or sell verdict of a day, from the closes up to that day. -/
def dayVerdict (i : ℕ) : Option RecordedVerdict :=
  (evaluateSignal ((gridPoints dailyCloses).take (i + 1)) (closeAt dailyCloses i) (i * dayMs)
    thresholds).verdict.bind Verdict.recorded?

/-- The close that scores a day is there. -/
def HasHorizon (i : ℕ) : Prop := i + horizonDays ≤ dailyCloses.length - 1

instance : DecidablePred (HasHorizon dailyCloses) := fun _ =>
  inferInstanceAs (Decidable (_ ≤ _))

/-- Whether a verdict of a day turned out right. -/
def calledRight (verdict : RecordedVerdict) (i : ℕ) : Bool :=
  isCorrect verdict (closeAt dailyCloses i) (closeAt dailyCloses (i + horizonDays))

end Days

/-! ### The replay -/

/-- The tally of one verdict. -/
def BacktestResult.tally (result : BacktestResult) : RecordedVerdict → VerdictTally
  | .buy => result.buy
  | .sell => result.sell

/-- Counts one signal. -/
def BacktestResult.count (result : BacktestResult) (verdict : RecordedVerdict) (right : Bool) :
    BacktestResult :=
  match verdict with
  | .buy => { result with buy := result.buy.add right }
  | .sell => { result with sell := result.sell.add right }

/-- One turn of the loop, with the verdict of the day before. -/
def backtestDay (dailyCloses : List JsNumber) (thresholds : SignalThresholds)
    (state : Option RecordedVerdict × BacktestResult) (i : ℕ) :
    Option RecordedVerdict × BacktestResult :=
  match dayVerdict dailyCloses thresholds i with
  | none => (none, state.2)
  | some verdict =>
    if state.1 = some verdict then (some verdict, state.2)
    else if HasHorizon dailyCloses i then
      (some verdict, state.2.count verdict (calledRight dailyCloses verdict i))
    else (some verdict, state.2)

/-- **`runBacktest`.** -/
def runBacktest (dailyCloses : List JsNumber) (thresholds : SignalThresholds) : BacktestResult :=
  let result : BacktestResult :=
    { insufficient := dailyCloses.length < backtestMinDays
      days := dailyCloses.length
      buy := emptyTally
      sell := emptyTally }
  if result.insufficient then result
  else ((List.range dailyCloses.length).foldl (backtestDay dailyCloses thresholds) (none, result)).2

/-! ### What a day adds -/

section Replay

variable {dailyCloses : List JsNumber} {thresholds : SignalThresholds}
  {state : Option RecordedVerdict × BacktestResult}

theorem BacktestResult.tally_count (result : BacktestResult) (counted verdict : RecordedVerdict)
    (right : Bool) :
    (result.count counted right).tally verdict =
      if counted = verdict then (result.tally verdict).add right else result.tally verdict := by
  cases counted <;> cases verdict <;> rfl

theorem fst_backtestDay (i : ℕ) :
    (backtestDay dailyCloses thresholds state i).1 = dayVerdict dailyCloses thresholds i := by
  rw [backtestDay]
  split <;> rename_i hverdict
  · exact hverdict.symm
  · split_ifs <;> exact hverdict.symm

/-- **A day counts where a block starts**, if it can be scored. -/
theorem tally_backtestDay {i : ℕ} (verdict : RecordedVerdict)
    (hbefore : state.1 = colorBefore (dayVerdict dailyCloses thresholds) i) :
    (backtestDay dailyCloses thresholds state i).2.tally verdict =
      if BlockStarts (dayVerdict dailyCloses thresholds) verdict i ∧ HasHorizon dailyCloses i then
        (state.2.tally verdict).add (calledRight dailyCloses verdict i)
      else state.2.tally verdict := by
  by_cases hcounted : BlockStarts (dayVerdict dailyCloses thresholds) verdict i ∧
      HasHorizon dailyCloses i
  · rw [if_pos hcounted]
    obtain ⟨hstarts, hhorizon⟩ := hcounted
    obtain ⟨hverdict, hne⟩ := blockStarts_iff.mp hstarts
    rw [backtestDay, hverdict]
    simp only [hbefore, if_neg hne, if_pos hhorizon, BacktestResult.tally_count, if_true]
  · rw [if_neg hcounted, backtestDay]
    cases hverdict : dayVerdict dailyCloses thresholds i with
    | none => rfl
    | some current =>
      dsimp only
      split_ifs with hsame hhorizon
      · rfl
      · rw [BacktestResult.tally_count, if_neg]
        rintro rfl
        exact hcounted ⟨blockStarts_iff.mpr ⟨hverdict, hbefore ▸ hsame⟩, hhorizon⟩
      · rfl

/-- **After some days**: the verdict of the last one is remembered, and the blocks that
started are counted. -/
theorem foldl_backtestDay (result : BacktestResult) (hempty : ∀ v, result.tally v = emptyTally)
    (m : ℕ) :
    ((List.range m).foldl (backtestDay dailyCloses thresholds) (none, result)).1 =
        colorBefore (dayVerdict dailyCloses thresholds) m ∧
      ∀ v, ((List.range m).foldl (backtestDay dailyCloses thresholds) (none, result)).2.tally v =
        { scored := Nat.count (fun i => BlockStarts (dayVerdict dailyCloses thresholds) v i ∧
            HasHorizon dailyCloses i) m
          correct := Nat.count (fun i => BlockStarts (dayVerdict dailyCloses thresholds) v i ∧
            HasHorizon dailyCloses i ∧ calledRight dailyCloses v i = true) m } := by
  induction m with
  | zero => exact ⟨rfl, hempty⟩
  | succ m ih =>
    obtain ⟨hbefore, htally⟩ := ih
    rw [List.range_succ, List.foldl_concat]
    refine ⟨fst_backtestDay m, fun v => ?_⟩
    rw [tally_backtestDay v hbefore, htally, Nat.count_succ, Nat.count_succ]
    by_cases hcounted : BlockStarts (dayVerdict dailyCloses thresholds) v m ∧
        HasHorizon dailyCloses m
    · rw [if_pos hcounted, if_pos hcounted, VerdictTally.add]
      cases hright : calledRight dailyCloses v m with
      | true => rw [if_pos rfl, if_pos ⟨hcounted.1, hcounted.2, rfl⟩]
      | false =>
        rw [if_neg Bool.false_ne_true, if_neg fun h => Bool.false_ne_true h.2.2]
        rfl
    · rw [if_neg hcounted, if_neg hcounted, if_neg fun h => hcounted ⟨h.1, h.2.1⟩]
      rfl

/-! ### No look-ahead -/

theorem take_gridPoints (dailyCloses : List JsNumber) (m : ℕ) :
    (gridPoints dailyCloses).take m = gridPoints (dailyCloses.take m) := by
  refine List.ext_getElem? fun i => ?_
  simp only [gridPoints, List.getElem?_take, List.getElem?_mapIdx]
  split_ifs <;> rfl

/-- **A day's verdict is told from the closes up to that day.** -/
theorem dayVerdict_take (dailyCloses : List JsNumber) (thresholds : SignalThresholds) (i : ℕ) :
    dayVerdict (dailyCloses.take (i + 1)) thresholds i = dayVerdict dailyCloses thresholds i := by
  have hclose : closeAt (dailyCloses.take (i + 1)) i = closeAt dailyCloses i := by
    simp only [closeAt, List.getD_eq_getElem?_getD, List.getElem?_take_of_lt (Nat.lt_succ_self i)]
  rw [dayVerdict, dayVerdict, hclose, take_gridPoints, take_gridPoints, List.take_take, min_self]

theorem dayVerdict_congr {dailyCloses dailyCloses' : List JsNumber} {i : ℕ}
    (h : dailyCloses'.take (i + 1) = dailyCloses.take (i + 1)) (thresholds : SignalThresholds) :
    dayVerdict dailyCloses' thresholds i = dayVerdict dailyCloses thresholds i := by
  rw [← dayVerdict_take, h, dayVerdict_take]

end Replay

/-! ### Blocks and signals -/

section Signals

variable (dailyCloses : List JsNumber) (thresholds : SignalThresholds)

/-- **The blocks of days with a verdict** whose first day can be scored. -/
def scoredBlocks (verdict : RecordedVerdict) : Finset (ℕ × ℕ) :=
  (blocks (dayVerdict dailyCloses thresholds) dailyCloses.length verdict).filter fun block =>
    HasHorizon dailyCloses block.1

/-- A scored signal of a backtest. -/
structure BacktestSignal where
  day : ℕ
  verdict : RecordedVerdict
  right : Bool
  deriving DecidableEq

/-- The signals of a verdict, one for each block. -/
def signalsFor (verdict : RecordedVerdict) : Finset BacktestSignal :=
  (scoredBlocks dailyCloses thresholds verdict).image fun block =>
    ⟨block.1, verdict, calledRight dailyCloses verdict block.1⟩

/-- **All signals that are scored.** -/
def scoredSignals : Finset BacktestSignal :=
  signalsFor dailyCloses thresholds .buy ∪ signalsFor dailyCloses thresholds .sell

variable {dailyCloses thresholds}

theorem mem_signalsFor {verdict : RecordedVerdict} {signal : BacktestSignal} :
    signal ∈ signalsFor dailyCloses thresholds verdict ↔
      signal.verdict = verdict ∧ signal.day < dailyCloses.length ∧
        BlockStarts (dayVerdict dailyCloses thresholds) verdict signal.day ∧
        HasHorizon dailyCloses signal.day ∧
        signal.right = calledRight dailyCloses verdict signal.day := by
  rw [signalsFor, Finset.mem_image]
  constructor
  · rintro ⟨block, hblock, rfl⟩
    obtain ⟨hmem, hhorizon⟩ := Finset.mem_filter.mp hblock
    have hisBlock := mem_blocks.mp hmem
    exact ⟨rfl, lt_of_lt_of_le hisBlock.1 hisBlock.2.1, hisBlock.starts, hhorizon, rfl⟩
  · rintro ⟨rfl, hday, hstarts, hhorizon, hright⟩
    obtain ⟨stop, hblock⟩ := exists_isBlock hday hstarts
    refine ⟨(signal.day, stop), Finset.mem_filter.mpr ⟨mem_blocks.mpr hblock, hhorizon⟩, ?_⟩
    rw [← hright]

theorem mem_scoredSignals {signal : BacktestSignal} :
    signal ∈ scoredSignals dailyCloses thresholds ↔
      signal.day < dailyCloses.length ∧
        BlockStarts (dayVerdict dailyCloses thresholds) signal.verdict signal.day ∧
        HasHorizon dailyCloses signal.day ∧
        signal.right = calledRight dailyCloses signal.verdict signal.day := by
  obtain ⟨day, verdict, right⟩ := signal
  rw [scoredSignals, Finset.mem_union, mem_signalsFor, mem_signalsFor]
  cases verdict <;> simp

/-- **The tallies count blocks.** -/
theorem tally_runBacktest (hlong : backtestMinDays ≤ dailyCloses.length)
    (verdict : RecordedVerdict) :
    (runBacktest dailyCloses thresholds).tally verdict =
      { scored := (scoredBlocks dailyCloses thresholds verdict).card
        correct := ((scoredBlocks dailyCloses thresholds verdict).filter fun block =>
          calledRight dailyCloses verdict block.1 = true).card } := by
  rw [runBacktest, if_neg (by simpa using hlong)]
  obtain ⟨-, htally⟩ := @foldl_backtestDay dailyCloses thresholds
    { insufficient := dailyCloses.length < backtestMinDays, days := dailyCloses.length
      buy := emptyTally, sell := emptyTally } (fun v => by cases v <;> rfl) dailyCloses.length
  rw [htally, scoredBlocks, Finset.filter_filter, card_blocks,
    card_blocks _ _ _ fun i => HasHorizon dailyCloses i ∧ calledRight dailyCloses verdict i = true]

/-! ### One close more -/

section Append

variable {close : JsNumber} {i : ℕ}

theorem closeAt_append (hi : i < dailyCloses.length) :
    closeAt (dailyCloses ++ [close]) i = closeAt dailyCloses i := by
  simp only [closeAt, List.getD_eq_getElem?_getD, List.getElem?_append_left hi]

theorem dayVerdict_append (hi : i < dailyCloses.length) :
    dayVerdict (dailyCloses ++ [close]) thresholds i = dayVerdict dailyCloses thresholds i :=
  dayVerdict_congr (List.take_append_of_le_length hi) thresholds

theorem blockStarts_append (hi : i < dailyCloses.length) (verdict : RecordedVerdict) :
    BlockStarts (dayVerdict (dailyCloses ++ [close]) thresholds) verdict i ↔
      BlockStarts (dayVerdict dailyCloses thresholds) verdict i := by
  rw [BlockStarts, BlockStarts, dayVerdict_append hi, dayVerdict_append (by omega)]

theorem calledRight_append (hpos : 0 < dailyCloses.length) (hi : HasHorizon dailyCloses i)
    (verdict : RecordedVerdict) :
    calledRight (dailyCloses ++ [close]) verdict i = calledRight dailyCloses verdict i := by
  rw [HasHorizon] at hi
  rw [calledRight, calledRight, closeAt_append (by omega), closeAt_append (by omega)]

/-- **A signal stays scored, as it was**, when a close is added. -/
theorem scoredSignals_subset (close : JsNumber) :
    scoredSignals dailyCloses thresholds ⊆ scoredSignals (dailyCloses ++ [close]) thresholds := by
  intro signal hsignal
  obtain ⟨hday, hstarts, hhorizon, hright⟩ := mem_scoredSignals.mp hsignal
  refine mem_scoredSignals.mpr ⟨?_, (blockStarts_append hday _).mpr hstarts, ?_, ?_⟩
  · rw [List.length_append]
    omega
  · rw [HasHorizon, List.length_append, List.length_singleton] at *
    omega
  · rw [calledRight_append (by omega) hhorizon, hright]

/-- A signal that is new is of the one day that gets its horizon. -/
theorem day_of_new {signal : BacktestSignal}
    (hnew : signal ∈ scoredSignals (dailyCloses ++ [close]) thresholds)
    (hold : signal ∉ scoredSignals dailyCloses thresholds) :
    signal.day + horizonDays = dailyCloses.length := by
  obtain ⟨-, hstarts, hhorizon, hright⟩ := mem_scoredSignals.mp hnew
  rw [HasHorizon, List.length_append, List.length_singleton, Nat.add_sub_cancel] at hhorizon
  by_contra hne
  have hthree : horizonDays = 3 := by decide
  have hday : signal.day < dailyCloses.length := by omega
  have hbefore : HasHorizon dailyCloses signal.day := by
    rw [HasHorizon]
    omega
  rw [calledRight_append (by omega) hbefore] at hright
  exact hold (mem_scoredSignals.mpr
    ⟨hday, (blockStarts_append hday _).mp hstarts, hbefore, hright⟩)

/-- **A close that is added scores one signal more at most**: a day has one verdict. -/
theorem card_new_le_one (close : JsNumber) :
    (scoredSignals (dailyCloses ++ [close]) thresholds \
      scoredSignals dailyCloses thresholds).card ≤ 1 := by
  refine Finset.card_le_one.mpr fun signal hsignal other hother => ?_
  obtain ⟨hnew, hold⟩ := Finset.mem_sdiff.mp hsignal
  obtain ⟨hnew', hold'⟩ := Finset.mem_sdiff.mp hother
  have hday : signal.day = other.day := by
    have hsum := day_of_new hnew hold
    have hsum' := day_of_new hnew' hold'
    omega
  obtain ⟨-, hstarts, -, hright⟩ := mem_scoredSignals.mp hnew
  obtain ⟨-, hstarts', -, hright'⟩ := mem_scoredSignals.mp hnew'
  have hverdict : signal.verdict = other.verdict :=
    Option.some.inj (hstarts.1.symm.trans (hday ▸ hstarts'.1))
  obtain ⟨day, verdict, right⟩ := signal
  obtain ⟨day', verdict', right'⟩ := other
  obtain rfl : day = day' := hday
  obtain rfl : verdict = verdict' := hverdict
  exact congrArg _ (hright.trans hright'.symm)

end Append

end Signals

/-- **A backtest counts blocks of days.** Its tallies are the number of blocks of each verdict
that can be scored and of those that turned out right; the verdict of a day is told from the
closes up to that day; and a close that is added leaves every scored signal as it is and
scores one more at most. -/
theorem runBacktest_counts_blocks (dailyCloses : List JsNumber) (thresholds : SignalThresholds)
    (hlong : backtestMinDays ≤ dailyCloses.length) :
    (∀ verdict, (runBacktest dailyCloses thresholds).tally verdict =
      { scored := (scoredBlocks dailyCloses thresholds verdict).card
        correct := ((scoredBlocks dailyCloses thresholds verdict).filter fun block =>
          calledRight dailyCloses verdict block.1 = true).card }) ∧
    (∀ (dailyCloses' : List JsNumber) (i : ℕ),
      dailyCloses'.take (i + 1) = dailyCloses.take (i + 1) →
        dayVerdict dailyCloses' thresholds i = dayVerdict dailyCloses thresholds i) ∧
    ∀ close, scoredSignals dailyCloses thresholds ⊆
        scoredSignals (dailyCloses ++ [close]) thresholds ∧
      (scoredSignals (dailyCloses ++ [close]) thresholds \
        scoredSignals dailyCloses thresholds).card ≤ 1 :=
  ⟨tally_runBacktest hlong, fun _ _ h => dayVerdict_congr h thresholds,
    fun close => ⟨scoredSignals_subset close, card_new_le_one close⟩⟩

/-- Eight flat days, a drop held for three days, and a rise. -/
def droppedCloses : List JsNumber :=
  [100, 100, 100, 100, 100, 100, 100, 100, 84, 84, 84, 90, 92, 94].map .finite

theorem runBacktest_counts_blocks_dropped :
    (runBacktest droppedCloses defaultThresholds).tally .buy =
      { scored := (scoredBlocks droppedCloses defaultThresholds .buy).card
        correct := ((scoredBlocks droppedCloses defaultThresholds .buy).filter fun block =>
          calledRight droppedCloses .buy block.1 = true).card } :=
  (runBacktest_counts_blocks droppedCloses defaultThresholds (by decide)).1 .buy

example : runBacktest droppedCloses defaultThresholds = ⟨false, 14, ⟨1, 1⟩, ⟨0, 0⟩⟩ := by
  decide +kernel

end Signals

end CryptoZaloBot
