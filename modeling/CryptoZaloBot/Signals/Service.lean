import CryptoZaloBot.Controllers.Services
import CryptoZaloBot.Signals.History

/-!
# The signal of one coin

`SignalsService.getSignalFor` answers `/tinhieu <coin>` in one of two ways. A coin that can be
tracked is sampled, filled and evaluated from what is stored
(`CryptoZaloBot.Signals.evaluateWithPrices`); when fifty coins are tracked already it is
evaluated once from CoinGecko's chart, and nothing is stored.

The chart goes straight to `CryptoZaloBot.Signals.evaluateSignal`, which has an answer for
every price. The first way leaves out coins without a positive price before it evaluates
anything. Asked about one such coin, it has no signal to return, and the reply cannot be built
(`CryptoZaloBot.Signals.getSignalFor_answers_iff`).

Redis answers every call here. A key that has expired is one that is not there.
-/

namespace CryptoZaloBot

namespace Signals

open Controllers (SingleSignal)

/-- At most this many coins are backfilled in one run. -/
def maxBackfillPerRun : ℕ := 3

/-- How long an unknown coin is not tried again. -/
def backfillNotfoundHoldSeconds : ℕ := 2 * 60 * 60

/-- How long a coin waits after CoinGecko limited the rate. -/
def backfillBusyHoldSeconds : ℕ := 10 * 60

def maxExtraTracked : ℕ := 50

def extraTrackTtlMs : ℤ := 4 * dayMs

/-! ### What the service calls -/

/-- What the price source throws. -/
inductive MarketError where
  | unknownCoinSymbols (symbols : List String)
  | coingeckoUnavailable
  /-- A kind of `coingeckoUnavailable`: CoinGecko does not know the coin. -/
  | coingeckoCoinNotFound
  /-- Nothing the price source throws: a property of `undefined` was read. -/
  | undefinedRead
  deriving DecidableEq

/-- `error instanceof CoingeckoUnavailableError`. -/
def MarketError.isUnavailable : MarketError → Bool
  | .coingeckoUnavailable | .coingeckoCoinNotFound => true
  | _ => false

/-- Why the chart of a coin could not be read. -/
inductive ChartError where
  | unavailable
  | coinNotFound
  deriving DecidableEq

/-- **What the price source answers** during a call. Of the coins it returns only the prices
are read. -/
structure Market where
  getPricesBySymbols : List String → Except MarketError (List JsNumber)
  getMarketChart : String → ℤ → Except ChartError (List PricePoint)

/-- A text with the time it is kept. -/
structure ExpiringText where
  value : String
  exSeconds : ℕ
  deriving DecidableEq

/-- **What Redis holds** of it. -/
structure SignalStores where
  history : HistoryStore
  backfilled : String → Option ExpiringText
  backfillFailed : String → Option ExpiringText
  /-- Sorted set: score = expiry ms, member = symbol. -/
  extra : InsertionMap String ℤ

inductive BackfillFailure where
  | notfound
  | busy
  deriving DecidableEq

def BackfillFailure.text : BackfillFailure → String
  | .notfound => "notfound"
  | .busy => "busy"

def BackfillFailure.holdSeconds : BackfillFailure → ℕ
  | .notfound => backfillNotfoundHoldSeconds
  | .busy => backfillBusyHoldSeconds

/-! ### Coins tracked extra -/

/-- What is left of the set once expired entries are dropped. -/
def dropExpired (extra : InsertionMap String ℤ) (now : ℤ) : InsertionMap String ℤ :=
  extra.filter fun e => now ≤ e.2

/-- The coin is known, or there is room for it. -/
def IsTrackable (extra : InsertionMap String ℤ) (symbol : String) (now : ℤ) : Prop :=
  ((dropExpired extra now).get? symbol).isSome = true ∨
    (dropExpired extra now).entries.length < maxExtraTracked

instance (extra : InsertionMap String ℤ) (symbol : String) (now : ℤ) :
    Decidable (IsTrackable extra symbol now) := inferInstanceAs (Decidable (_ ∨ _))

/-- **`trackExtra`**: tracks a coin for four days unless the set is full. -/
def trackExtra (extra : InsertionMap String ℤ) (symbol : String) (now : ℤ) :
    Bool × InsertionMap String ℤ :=
  let live := dropExpired extra now
  if (live.get? symbol).isNone && decide (maxExtraTracked ≤ live.entries.length) then (false, live)
  else (true, live.set symbol (now + extraTrackTtlMs))

theorem trackExtra_iff {extra : InsertionMap String ℤ} {symbol : String} {now : ℤ} :
    (trackExtra extra symbol now).1 = true ↔ IsTrackable extra symbol now := by
  rw [trackExtra, IsTrackable]
  cases hknown : (dropExpired extra now).get? symbol <;> simp [apply_ite Prod.fst]

/-! ### The backfill of several coins -/

variable (market : Market) (text : PricePoint → String) (thresholds : SignalThresholds)

/-- A coin's history was filled. -/
def SignalStores.fill (stores : SignalStores) (symbol : String) (points : BackfillPoints) :
    SignalStores :=
  { stores with
    history := writeBackfill stores.history symbol points
    backfilled := Function.update stores.backfilled symbol
      (some ⟨"1", (dailyRetentionMs / 1000).toNat⟩) }

/-- A coin is held after a failure. -/
def SignalStores.hold (stores : SignalStores) (symbol : String) (failure : BackfillFailure) :
    SignalStores :=
  { stores with
    backfillFailed := Function.update stores.backfillFailed symbol
      (some ⟨failure.text, failure.holdSeconds⟩) }

/-- The loop of `backfill`; a limited rate ends it. -/
def backfillEach (now : ℤ) : List String → SignalStores → List String × SignalStores
  | [], stores => ([], stores)
  | symbol :: due, stores =>
    match market.getMarketChart symbol backtestDays with
    | .ok chart =>
      let rest := backfillEach now due (stores.fill symbol (buildBackfillPoints chart now))
      (symbol :: rest.1, rest.2)
    | .error .coinNotFound => backfillEach now due (stores.hold symbol .notfound)
    | .error .unavailable => ([], stores.hold symbol .busy)

/-- **`backfill`**: fills history once for coins seen for the first time. -/
def backfill (symbols : List String) (now : ℤ) (stores : SignalStores) :
    List String × SignalStores :=
  let due := symbols.filter fun symbol =>
    (stores.backfilled symbol).isNone && (stores.backfillFailed symbol).isNone
  backfillEach market now (due.take maxBackfillPerRun) stores

/-- **`backfillFailure`**: why the last backfill failed, while it is held. -/
def backfillFailure (stores : SignalStores) (symbol : String) : Option BackfillFailure :=
  match stores.backfillFailed symbol with
  | none => none
  | some held =>
    if held.value = "notfound" then some .notfound
    else if held.value = "busy" then some .busy
    else none

/-! ### Signals -/

/-- `prices[symbol]`, which is no number if it is not there. -/
def priceOf (prices : InsertionMap String JsNumber) (symbol : String) : JsNumber :=
  (prices.get? symbol).getD .nan

/-- **`evaluateWithPrices`**: saves the samples, fills histories and evaluates. Coins without
a positive price are left out. -/
def evaluateWithPrices (symbols : List String) (prices : InsertionMap String JsNumber) (now : ℤ)
    (stores : SignalStores) : List CoinSignal × SignalStores :=
  let priced := symbols.filter fun symbol => isPrice (priceOf prices symbol)
  if priced = [] then ([], stores)
  else
    let samples := InsertionMap.ofList (priced.map fun symbol => (symbol, priceOf prices symbol))
    let sampled := { stores with history := snapshot stores.history samples now }
    let filled := (backfill market priced now sampled).2
    (priced.map fun symbol =>
      { symbol
        result := evaluateSignal (loadHourly text filled.history symbol now)
          (priceOf prices symbol) now thresholds }, filled)

/-- **`chartPoints`**: CoinGecko's chart as kept points; none for a coin it does not know. -/
def chartPoints (symbol : String) (now : ℤ) : Except MarketError BackfillPoints :=
  match market.getMarketChart symbol backtestDays with
  | .ok chart => .ok (buildBackfillPoints chart now)
  | .error .coinNotFound => .ok ⟨[], []⟩
  | .error .unavailable => .error .coingeckoUnavailable

/-- The signal of a tracked coin, from its stored history. -/
def storedSignal (symbol : String) (price : JsNumber) (now : ℤ) (stores : SignalStores) :
    Except MarketError SingleSignal × SignalStores :=
  let evaluated := evaluateWithPrices market text thresholds [symbol]
    (InsertionMap.ofList [(symbol, price)]) now stores
  let signal := evaluated.1.head?
  -- Without history because CoinGecko limited the rate: try again, not a coin that is too new.
  if (signal.any fun s => s.result.insufficientData) &&
      backfillFailure evaluated.2 symbol = some .busy then
    (.error .coingeckoUnavailable, evaluated.2)
  else (.ok { signal, tracked := true }, evaluated.2)

/-- The signal of a coin that is not tracked, from CoinGecko's chart. -/
def chartSignal (symbol : String) (price : JsNumber) (now : ℤ) : Except MarketError SingleSignal :=
  match chartPoints market symbol now with
  | .error error => .error error
  | .ok points =>
    .ok
      { signal := some
          { symbol, result := evaluateSignal points.hourly price now thresholds }
        tracked := false }

/-- **`getSignalFor`.** -/
def getSignalFor (symbol : String) (now : ℤ) (stores : SignalStores) :
    Except MarketError SingleSignal × SignalStores :=
  match market.getPricesBySymbols [symbol] with
  | .error error => (.error error, stores)
  | .ok coins =>
    let tracking := trackExtra stores.extra symbol now
    let stores := { stores with extra := tracking.2 }
    match coins with
    | [] => (.error .undefinedRead, stores)
    | price :: _ =>
      if tracking.1 then storedSignal market text thresholds symbol price now stores
      else (chartSignal market thresholds symbol price now, stores)

/-! ### The reply -/

/-- A part of the reply to `/tinhieu`. -/
inductive ReplyPart where
  | title
  | lacking (symbol : String)
  | calm (signal : CoinSignal)
  | strong (signal : CoinSignal)
  | disclaimer

/-- `isStrong` of the formatter: a strong swing with a verdict. -/
def CoinSignal.isStrong (signal : CoinSignal) : Bool :=
  signal.result.strong && !signal.result.insufficientData && signal.result.verdict.isSome

def formatSignalLine (signal : CoinSignal) : ReplyPart :=
  if signal.result.insufficientData then .lacking signal.symbol
  else if !signal.isStrong then .calm signal
  else .strong signal

/-- The parts of some signals, one of which may not be there. -/
def formatSignalLines : List (Option CoinSignal) → Except MarketError (List ReplyPart)
  | [] => .ok []
  | none :: _ => .error .undefinedRead
  | some signal :: signals =>
    match formatSignalLines signals with
    | .error error => .error error
    | .ok parts => .ok (formatSignalLine signal :: parts)

/-- **`formatSignalReply`.** It reads the result of every signal. -/
def formatSignalReply (signals : List (Option CoinSignal)) : Except MarketError (List ReplyPart) :=
  match formatSignalLines signals with
  | .error error => .error error
  | .ok parts =>
    let showsVerdict := signals.any fun signal => signal.any CoinSignal.isStrong
    .ok (.title :: parts ++ if showsVerdict then [.disclaimer] else [])

/-- The formatter fails on a signal that is not there. -/
theorem formatSignalReply_undefined : formatSignalReply [none] = .error .undefinedRead := rfl

theorem formatSignalReply_defined (signal : CoinSignal) :
    ∃ parts, formatSignalReply [some signal] = .ok parts := ⟨_, rfl⟩

/-! ### When a coin is answered for -/

variable {market text thresholds} {symbol : String} {price : JsNumber} {now : ℤ}
  {stores : SignalStores}

theorem isPrice_eq_isSome (p : JsNumber) : isPrice p = p.positive?.isSome := by
  cases p with
  | finite q => by_cases hq : 0 < q <;> simp [isPrice, JsNumber.positive?, hq]
  | posInfinity => rfl
  | negInfinity => rfl
  | nan => rfl

/-- Without a price there is not enough data, whatever the history. -/
theorem evaluateSignal_of_not_isPrice (h : isPrice price = false) (points : List PricePoint) :
    evaluateSignal points price now thresholds = emptyResult price := by
  rw [isPrice_eq_isSome, Option.isSome_eq_false_iff, Option.isNone_iff_eq_none] at h
  rw [evaluateSignal, h]

variable (market text thresholds symbol now stores) in
/-- **A coin with a price is evaluated**, from some stored points. -/
theorem evaluateWithPrices_of_isPrice (h : isPrice price = true) :
    ∃ points, (evaluateWithPrices market text thresholds [symbol]
      (InsertionMap.ofList [(symbol, price)]) now stores).1 =
        [{ symbol, result := evaluateSignal points price now thresholds }] := by
  have hprice : priceOf (InsertionMap.ofList [(symbol, price)]) symbol = price := by
    simp [priceOf, InsertionMap.ofList]
  rw [evaluateWithPrices]
  simp only [List.filter_cons, hprice, h, if_true, List.filter_nil, List.map_cons, List.map_nil]
  exact ⟨_, rfl⟩

/-- **A coin without a price is left out**, and nothing is stored. -/
theorem evaluateWithPrices_of_not_isPrice (h : isPrice price = false) :
    evaluateWithPrices market text thresholds [symbol]
      (InsertionMap.ofList [(symbol, price)]) now stores = ([], stores) := by
  have hprice : priceOf (InsertionMap.ofList [(symbol, price)]) symbol = price := by
    simp [priceOf, InsertionMap.ofList]
  rw [evaluateWithPrices]
  simp [hprice, h]

/-- **A coin is answered for**: CoinGecko is unavailable, or there is a signal of the coin, the
reply is built from it, and without a positive price it says that there is not enough data. -/
def Answers (symbol : String) (price : JsNumber) : Except MarketError SingleSignal → Prop
  | .error error => error.isUnavailable = true
  | .ok single =>
    (∃ parts, formatSignalReply [single.signal] = .ok parts) ∧
      ∃ result, single.signal = some { symbol, result } ∧
        (isPrice price = false → result = emptyResult price)

theorem answers_ok {result : SignalResult} {tracked : Bool}
    (h : isPrice price = false → result = emptyResult price) :
    Answers symbol price (.ok { signal := some { symbol, result }, tracked }) :=
  ⟨formatSignalReply_defined _, result, rfl, h⟩

/-- **The chart answers for every price.** -/
theorem answers_chartSignal :
    Answers symbol price (chartSignal market thresholds symbol price now) := by
  rw [chartSignal, chartPoints]
  cases market.getMarketChart symbol backtestDays with
  | ok chart => exact answers_ok fun h => evaluateSignal_of_not_isPrice h _
  | error error =>
    cases error with
    | coinNotFound => exact answers_ok fun h => evaluateSignal_of_not_isPrice h _
    | unavailable => exact rfl

/-- Without a price there is no signal, and the coin counts as tracked. -/
theorem storedSignal_of_not_isPrice (h : isPrice price = false) :
    (storedSignal market text thresholds symbol price now stores).1 =
      .ok { signal := none, tracked := true } := by
  rw [storedSignal, evaluateWithPrices_of_not_isPrice h]
  rfl

/-- No signal is no answer. -/
theorem not_answers_none {tracked : Bool} :
    ¬Answers symbol price (.ok { signal := none, tracked }) := by
  rintro ⟨-, result, hsignal, -⟩
  exact absurd hsignal (by simp)

/-- **The stored history answers** exactly for a positive price. -/
theorem answers_storedSignal :
    Answers symbol price (storedSignal market text thresholds symbol price now stores).1 ↔
      isPrice price = true := by
  constructor
  · intro hanswers
    by_contra hprice
    rw [Bool.not_eq_true] at hprice
    rw [storedSignal_of_not_isPrice hprice] at hanswers
    exact not_answers_none hanswers
  · intro hprice
    obtain ⟨points, hsignals⟩ :=
      evaluateWithPrices_of_isPrice market text thresholds symbol now stores hprice
    rw [storedSignal]
    simp only [hsignals, List.head?_cons]
    split
    · exact rfl
    · exact answers_ok fun h => absurd (hprice.symm.trans h) (by simp)

section Tracking

variable {prices : List JsNumber}
  (hlookup : market.getPricesBySymbols [symbol] = .ok (price :: prices))

include hlookup

/-- A coin with room is answered from the store. -/
theorem getSignalFor_of_isTrackable (htracked : IsTrackable stores.extra symbol now) :
    getSignalFor market text thresholds symbol now stores =
      storedSignal market text thresholds symbol price now
        { stores with extra := (trackExtra stores.extra symbol now).2 } := by
  rw [getSignalFor, hlookup]
  simp only [trackExtra_iff.mpr htracked, if_true]

/-- Any other coin is answered from the chart. -/
theorem getSignalFor_of_not_isTrackable (htracked : ¬IsTrackable stores.extra symbol now) :
    (getSignalFor market text thresholds symbol now stores).1 =
      chartSignal market thresholds symbol price now := by
  have hfull : (trackExtra stores.extra symbol now).1 = false := by
    rw [← Bool.not_eq_true, trackExtra_iff]
    exact htracked
  rw [getSignalFor, hlookup]
  simp only [hfull, Bool.false_eq_true, if_false]

/-- **`getSignalFor` answers for a coin the price source returned** unless the coin is tracked
and its price is not positive. -/
theorem getSignalFor_answers_iff :
    Answers symbol price (getSignalFor market text thresholds symbol now stores).1 ↔
      ¬(IsTrackable stores.extra symbol now ∧ isPrice price = false) := by
  by_cases htracked : IsTrackable stores.extra symbol now
  · rw [getSignalFor_of_isTrackable hlookup htracked, answers_storedSignal]
    simp only [htracked, true_and, Bool.not_eq_false]
  · rw [getSignalFor_of_not_isTrackable hlookup htracked]
    simp only [htracked, false_and, not_false_eq_true, iff_true]
    exact answers_chartSignal

end Tracking

/-- A price source that lists every coin at nothing, and knows no chart. -/
def worthless : Market where
  getPricesBySymbols _ := .ok [.finite 0]
  getMarketChart _ _ := .error .coinNotFound

/-- Nothing is stored yet. -/
def SignalStores.empty : SignalStores where
  history := .empty
  backfilled _ := none
  backfillFailed _ := none
  extra := .empty

theorem getSignalFor_answers_iff_worthless :
    Answers "abc" (.finite 0)
        (getSignalFor worthless wholeText defaultThresholds "abc" 1000000 .empty).1 ↔
      ¬(IsTrackable SignalStores.empty.extra "abc" 1000000 ∧ isPrice (.finite 0) = false) :=
  getSignalFor_answers_iff rfl

/-- **The first coin anyone asks about**, at a price of zero: the call returns, without a
signal, and the reply cannot be built. -/
theorem getSignalFor_worthless_undefined :
    ((getSignalFor worthless wholeText defaultThresholds "abc" 1000000 .empty).1 =
        .ok { signal := none, tracked := true } ∧
      formatSignalReply [none] = .error .undefinedRead) ∧
      ¬Answers "abc" (.finite 0)
        (getSignalFor worthless wholeText defaultThresholds "abc" 1000000 .empty).1 := by
  have hrun : (getSignalFor worthless wholeText defaultThresholds "abc" 1000000 .empty).1 =
      .ok { signal := none, tracked := true } := by
    rw [getSignalFor_of_isTrackable rfl (by decide),
      storedSignal_of_not_isPrice (by decide +kernel)]
  refine ⟨⟨hrun, formatSignalReply_undefined⟩, ?_⟩
  rw [hrun]
  exact not_answers_none

end Signals

end CryptoZaloBot
