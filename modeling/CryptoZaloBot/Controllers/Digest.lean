import CryptoZaloBot.Controllers.Services

/-!
# The daily digest

`DigestController.sendDailyDigest`: one message for every active subscriber, one after the
other. A message has up to three parts – the prices of the watchlist, the portfolio, the
signals – and only the first of them has to be there.

What can fail does so at three levels. The trades and the signals of all chats are each loaded
once, and their loss costs all chats that part. A portfolio that cannot be replayed, or a part
that cannot be built, costs one chat that part. Only a price lookup that fails, or finds no coin
of the watchlist, costs a chat its message.
-/

namespace CryptoZaloBot

namespace Controllers

open Portfolio (HoldingsResult PortfolioTrade)
open Prices (CoinMarketData)
open Signals (CoinSignal)
open Subscribers (Subscriber)

/-- What one run counted. -/
structure DigestRunSummary where
  subscribers : ℕ := 0
  sent : ℕ := 0
  failed : ℕ := 0
  /-- Digests that carried a portfolio part. -/
  portfolioSections : ℕ := 0
  /-- Chats whose portfolio part could not be computed. -/
  portfolioFailures : ℕ := 0
  /-- The one query loading every portfolio failed. -/
  portfolioLoadFailed : Bool := false
  /-- Digests that carried a signals part. -/
  signalSections : ℕ := 0
  /-- Chats whose signals part could not be built. -/
  signalFailures : ℕ := 0
  /-- The one signals lookup failed. -/
  signalLoadFailed : Bool := false
  deriving DecidableEq

/-- What a subscriber's digest says about signals, and the signals it shows. -/
structure SignalsPart where
  part : Option String
  shown : List CoinSignal

/-! ### Coins -/

/-- The held coins that are not on the watchlist. -/
def extraSymbols (watchlist heldSymbols : List String) : List String :=
  heldSymbols.filter (· ∉ watchlist)

/-- The watchlist's part of a combined lookup, matched by symbol or shared id. -/
def watchlistCoins (casing : Prices.Casing) (coins : List CoinMarketData)
    (watchlist : List String) : List CoinMarketData :=
  let ids := watchlist.map (Prices.resolveSymbolToId casing)
  coins.filter fun coin => coin.symbol ∈ watchlist ∨ coin.id ∈ ids

/-- The coins the watchlist part lists. -/
def listedCoins (casing : Prices.Casing) (coins : List CoinMarketData)
    (watchlist extraSymbols : List String) : List CoinMarketData :=
  if extraSymbols = [] then coins else watchlistCoins casing coins watchlist

section Handlers

variable {σ : Type} (casing : Prices.Casing) (services : Services σ)

/-- An action of a digest run, which counts. -/
abbrev DigestAction (σ α : Type) : Type := Action (World σ × DigestRunSummary) ServiceError α

/-- One change of the counters. -/
def count (f : DigestRunSummary → DigestRunSummary) : DigestAction σ Unit := Action.modifySecond f

/-! ### What all chats share -/

/-- Every active subscriber's trades in one query. -/
def loadTrades (subscribers : List Subscriber) :
    DigestAction σ (InsertionMap String (List PortfolioTrade)) :=
  (call (services.listTradesForChats (subscribers.map (·.chatId)))).first.tryCatch fun _ => do
    count fun run => { run with portfolioLoadFailed := true }
    pure InsertionMap.empty

/-- Signals for every coin on any watchlist, in one lookup; none at all if it fails. -/
def loadSignals (subscribers : List Subscriber) (now : ℤ) :
    DigestAction σ (Option (InsertionMap String CoinSignal)) :=
  let symbols := unique (subscribers.flatMap (·.watchlist))
  if symbols = [] then pure (some InsertionMap.empty)
  else
    Action.tryCatch
      (do
        let signals ← (call (services.getSignalsForSymbols symbols now)).first
        pure (some (InsertionMap.ofList (signals.map fun signal => (signal.symbol, signal)))))
      fun _ => do
        count fun run => { run with signalLoadFailed := true }
        pure none

/-! ### One chat -/

/-- The coins a chat holds, or none if its trades can't be replayed. -/
def heldSymbols (trades : List PortfolioTrade) : DigestAction σ (Option (List String)) :=
  match Portfolio.computeHoldings trades with
  | .ok holdings => pure (some (holdings.holdings.map (·.symbol)))
  | .error _ => do
    count fun run => { run with portfolioFailures := run.portfolioFailures + 1 }
    pure none

/-- The portfolio part of one digest, if the chat holds anything. -/
def portfolioSection (trades : List PortfolioTrade) (heldSymbols : List String)
    (coins : List CoinMarketData) : DigestAction σ (Option PortfolioPart) :=
  if heldSymbols = [] then pure none
  else
    Action.tryCatch
      (do
        let prices := Prices.pricesBySymbol casing coins heldSymbols
        let holdings ← Action.ofExcept (holdingsOf trades)
        let text ← (call (services.formatPortfolioDigestSection holdings prices)).first
        count fun run => { run with portfolioSections := run.portfolioSections + 1 }
        pure (some (.built text)))
      fun _ => do
        count fun run => { run with portfolioFailures := run.portfolioFailures + 1 }
        pure (some .unavailable)

/-- The signals part of one digest. -/
def signalsPart (subscriber : Subscriber)
    (signalsBySymbol : Option (InsertionMap String CoinSignal)) : DigestAction σ SignalsPart :=
  match signalsBySymbol with
  | none => pure ⟨none, []⟩
  | some signalsBySymbol =>
    let shown := subscriber.watchlist.filterMap signalsBySymbol.get?
    if shown = [] then pure ⟨none, shown⟩
    else
      Action.tryCatch
        (do
          let text ← (call (services.formatSignalDigestSection shown)).first
          pure ⟨some text, shown⟩)
        fun _ => do
          count fun run => { run with signalFailures := run.signalFailures + 1 }
          pure ⟨none, []⟩

/-- Bookkeeping of a digest that went out; never fails it. -/
def recordSignalsSent (chatId : String) (shown : List CoinSignal) (now : ℤ) :
    DigestAction σ Unit :=
  Action.tryCatch
    (do
      (call (services.recordSentVerdicts chatId shown now)).first
      (call (services.recordUsage chatId .digest now)).first)
    fun _ => pure ()

/-- What follows a send. -/
def afterDigest (chatId : String) (signals : SignalsPart) (now : ℤ) (delivered : Bool) :
    DigestAction σ Unit :=
  if delivered then do
    count fun run => { run with sent := run.sent + 1 }
    if signals.part.any (· ≠ "") then do
      count fun run => { run with signalSections := run.signalSections + 1 }
      recordSignalsSent services chatId signals.shown now
    else pure ()
  else count fun run => { run with failed := run.failed + 1 }

/-- The portfolio part: unavailable if the trades can't be replayed. -/
def portfolioPart (trades : List PortfolioTrade) (held : Option (List String))
    (coins : List CoinMarketData) : DigestAction σ (Option PortfolioPart) :=
  match held with
  | none => pure (some .unavailable)
  | some held => portfolioSection casing services trades held coins

/-- **`sendToSubscriber`**, less its `try`: the whole of one chat's digest. -/
def digestOf (subscriber : Subscriber) (trades : List PortfolioTrade)
    (signalsBySymbol : Option (InsertionMap String CoinSignal)) (now : ℤ)
    (cronTrackingLine : Option ℤ) : DigestAction σ Unit := do
  let held ← heldSymbols trades
  let extra := extraSymbols subscriber.watchlist (held.getD [])
  let coins ← (call (services.getPricesBySymbols (subscriber.watchlist ++ extra))).first
  let listed := listedCoins casing coins subscriber.watchlist extra
  if listed = [] then
    -- Only held coins were found: the watchlist itself is all unknown symbols.
    Action.throw (.unknownCoinSymbols subscriber.watchlist)
  else
    let portfolio ← portfolioPart casing services trades held coins
    let signals ← signalsPart services subscriber signalsBySymbol
    let delivered ← (send services subscriber.chatId
      (.dailyDigest listed cronTrackingLine portfolio signals.part)).first
    afterDigest services subscriber.chatId signals now delivered

/-- **`sendToSubscriber`.** -/
def sendToSubscriber (subscriber : Subscriber) (trades : List PortfolioTrade)
    (signalsBySymbol : Option (InsertionMap String CoinSignal)) (now : ℤ)
    (cronTrackingLine : Option ℤ) : DigestAction σ Unit :=
  (digestOf casing services subscriber trades signalsBySymbol now cronTrackingLine).tryCatch
    fun _ => count fun run => { run with failed := run.failed + 1 }

/-! ### One run -/

/-- The body of `sendDailyDigest`, less its `try`. -/
def digestRun (invokedAt : ℤ) (cronTrackingLine : Option ℤ) : DigestAction σ Unit := do
  let subscribers ← (call services.listActive).first
  count fun run => { run with subscribers := subscribers.length }
  let tradesByChat ← loadTrades services subscribers
  (mirror (services.replaceWatchlists subscribers)).first
  let signalsBySymbol ← loadSignals services subscribers invokedAt
  Action.forEach subscribers fun subscriber =>
    sendToSubscriber casing services subscriber ((tradesByChat.get? subscriber.chatId).getD [])
      signalsBySymbol invokedAt cronTrackingLine

/-- **`sendDailyDigest`**, with the summary it logs. -/
def sendDailyDigest (cronTrackingEnabled : Bool) : Action (World σ) ServiceError DigestRunSummary :=
  fun w =>
    let invokedAt := services.dateNow w.services
    let cronTrackingLine := if cronTrackingEnabled then some invokedAt else none
    match ((digestRun casing services invokedAt cronTrackingLine).tryCatch fun _ => pure ())
      (w, {}) with
    | (_, (w', run)) => (.ok run, w')

/-- Whatever happens in a run, it ends with a summary. -/
theorem sendDailyDigest_eq {casing : Prices.Casing} {services : Services σ} {w w' : World σ}
    {cronTrackingEnabled : Bool} {r : Except ServiceError Unit} {run : DigestRunSummary}
    (h : (digestRun casing services (services.dateNow w.services)
      (if cronTrackingEnabled then some (services.dateNow w.services) else none)).tryCatch
        (fun _ => pure ()) (w, {}) = (r, (w', run))) :
    sendDailyDigest casing services cronTrackingEnabled w = (.ok run, w') := by
  simp only [sendDailyDigest, h]

theorem snd_sendDailyDigest (casing : Prices.Casing) (services : Services σ)
    (cronTrackingEnabled : Bool) (w : World σ) :
    (sendDailyDigest casing services cronTrackingEnabled w).2 =
      (((digestRun casing services (services.dateNow w.services)
        (if cronTrackingEnabled then some (services.dateNow w.services) else none)).tryCatch
          fun _ => pure ()) (w, {})).2.1 := rfl

end Handlers

end Controllers

end CryptoZaloBot
