import CryptoZaloBot.Base.Action
import CryptoZaloBot.Commands.Parser
import CryptoZaloBot.Portfolio.Views
import CryptoZaloBot.PriceAlerts.Service
import CryptoZaloBot.Signals.Scorecard
import CryptoZaloBot.Subscribers.Service

/-!
# Services and messages

What the webhook and the daily digest call, and what they send. A service is an action on a
state of its own, of which nothing is known here: any call may fail, in any order
(`CryptoZaloBot.Controllers.Services`). The one promise is that a send does not throw.

A message is the formatter it comes from with what the formatter was given, the exchange rate
apart, which is the same for all. So equal messages have equal texts.
-/

namespace CryptoZaloBot

namespace Controllers

open Commands (UnicodeTables)
open Portfolio (DecimalText Holding HoldingsResult InconsistentTradesError LimitKind PortfolioTrade
  RecordedTrade DeletedTrade TradePage TradeSide)
open PriceAlerts (AlertDirection CreatedAlert PriceAlert)
open Prices (CoinMarketData HoldingPrice)
open Signals (BacktestResult CoinSignal Scorecard)
open Subscribers (InvalidWatchlistError Subscriber)

/-! ### Errors -/

/-- **What a call can throw**, as the handler tells it apart. -/
inductive ServiceError where
  | unknownCoinSymbols (symbols : List String)
  | coingeckoUnavailable
  | invalidWatchlist (error : InvalidWatchlistError)
  | alertLimitReached (limit : ℕ)
  | alertConditionAlreadyMet (symbol : String) (direction : AlertDirection) (currentPriceUsd : ℚ)
  | alertNotFound (index : ℕ)
  | portfolioOversell (symbol heldQuantity : String)
  | portfolioLimit (kind : LimitKind) (limit : ℕ)
  | portfolioTradeNotFound (index : ℕ)
  | portfolioDeleteWouldOversell (index : ℕ) (symbol : String)
  | portfolioUnavailable
  | inconsistentTrades (error : InconsistentTradesError)
  /-- Any other error. -/
  | unexpected
  deriving DecidableEq

/-! ### Messages -/

/-- The portfolio part of a digest. -/
inductive PortfolioPart where
  | built (text : String)
  | unavailable
  deriving DecidableEq

/-- **A message of the bot.** -/
inductive Message where
  | help
  | topMarkets (coins : List CoinMarketData)
  | price (coins : List CoinMarketData)
  | subscribed (watchlist : List String)
  | unsubscribed
  | watchlistView (watchlist : Option (List String))
  | watchlistUpdated (watchlist : List String)
  | watchlistNotSubscribed
  | invalidWatchlist (message : String)
  | alertCreated (created : CreatedAlert)
  | alertList (alerts : List PriceAlert)
  | alertDeleted (alert : PriceAlert) (index : ℕ)
  | alertInvalid
  | alertLimit (limit : ℕ)
  | alertAlreadyMet (symbol : String) (direction : AlertDirection) (currentPriceUsd : ℚ)
  | alertNotFound (index : ℕ)
  /-- With a note if the coin is not tracked. -/
  | signals (signals : List CoinSignal) (tracked : Bool)
  | signalNoWatchlist
  | backtest (symbol : String) (result : BacktestResult)
  | scorecard (card : Scorecard) (days : ℤ)
  | signalToggle (enabled : Bool)
  | signalInvalid
  | portfolioGroupRefused
  | portfolioEmpty
  | portfolio (holdings : HoldingsResult) (prices : InsertionMap String HoldingPrice)
  | portfolioTradeRecorded (trade : PortfolioTrade) (holdings : HoldingsResult) (duplicate : Bool)
      (twin : Option PortfolioTrade)
  | portfolioHistory (page : TradePage)
  | portfolioDeleted (trade : PortfolioTrade) (holdings : HoldingsResult)
  | portfolioClearConfirm
  | portfolioCleared (deletedCount : ℕ)
  | portfolioInvalid
  | portfolioOversell (symbol heldQuantity : String)
  | portfolioLimit (kind : LimitKind) (limit : ℕ)
  | portfolioNotFound (index : ℕ)
  | portfolioDeleteRefused (index : ℕ) (symbol : String)
  | portfolioUnavailable
  | unknownSymbols (symbols : List String)
  | serviceUnavailable
  | genericError
  | unknownCommand
  /-- The cron line shows when the run was invoked. -/
  | dailyDigest (coins : List CoinMarketData) (cronTrackingLine : Option ℤ)
      (portfolio : Option PortfolioPart) (signals : Option String)

/-! ### Services -/

/-- A signal of one coin. There is none if the coin's price is not positive. -/
structure SingleSignal where
  signal : Option CoinSignal
  /-- The coin could be tracked: its verdict is scored. -/
  tracked : Bool

inductive SignalUsageKind where
  | alert
  | digest
  | command
  deriving DecidableEq

/-- **The services**, over a state of their own. -/
structure Services (σ : Type) where
  /-- `Date.now()`. -/
  dateNow : σ → ℤ
  getTopMarkets : Action σ ServiceError (List CoinMarketData)
  getPricesBySymbols : List String → Action σ ServiceError (List CoinMarketData)
  subscribe : String → List String → Action σ ServiceError Subscriber
  unsubscribe : String → Action σ ServiceError Unit
  findActiveByChatId : String → Action σ ServiceError (Option Subscriber)
  updateWatchlist : String → List String → Action σ ServiceError (Option Subscriber)
  listActive : Action σ ServiceError (List Subscriber)
  createAlert : String → String → AlertDirection → ℚ → Action σ ServiceError CreatedAlert
  listAlertsByChat : String → Action σ ServiceError (List PriceAlert)
  deleteAlertByIndex : String → ℕ → Action σ ServiceError PriceAlert
  recordTrade : String → TradeSide → String → DecimalText → ℚ → Option String →
    Action σ ServiceError RecordedTrade
  deleteTrade : String → ℕ → Action σ ServiceError DeletedTrade
  clearTrades : String → Action σ ServiceError ℕ
  listTrades : String → Action σ ServiceError (List PortfolioTrade)
  listTradesPage : String → ℕ → Action σ ServiceError TradePage
  listTradesForChats : List String →
    Action σ ServiceError (InsertionMap String (List PortfolioTrade))
  getSignalFor : String → ℤ → Action σ ServiceError SingleSignal
  getSignalsForSymbols : List String → ℤ → Action σ ServiceError (List CoinSignal)
  backtest : String → ℤ → Action σ ServiceError BacktestResult
  scorecard : String → ℤ → Action σ ServiceError Scorecard
  recordSentVerdicts : String → List CoinSignal → ℤ → Action σ ServiceError Unit
  recordUsage : String → SignalUsageKind → ℤ → Action σ ServiceError Unit
  setEnabled : String → Bool → Action σ ServiceError Unit
  /-- The state behind the mirror of the watchlists. -/
  setWatchlist : String → List String → Action σ ServiceError Unit
  removeWatchlist : String → Action σ ServiceError Unit
  replaceWatchlists : List Subscriber → Action σ ServiceError Unit
  /-- Building a part of the digest. -/
  formatSignalDigestSection : List CoinSignal → Action σ ServiceError String
  formatPortfolioDigestSection : HoldingsResult → InsertionMap String HoldingPrice →
    Action σ ServiceError String
  /-- Whether Zalo accepted the message; never throws. -/
  sendTextMessage : String → Message → σ → Bool × σ

/-- The services' state and every attempt to send a message, with its chat. -/
structure World (σ : Type) where
  services : σ
  sent : List (String × Message)

variable {σ α : Type}

/-- A call of a service. -/
def call (x : Action σ ServiceError α) : Action (World σ) ServiceError α := fun w =>
  match x w.services with
  | (r, s) => (r, { w with services := s })

/-- An attempt to send a message. -/
def send (services : Services σ) (chatId : String) (message : Message) :
    Action (World σ) ServiceError Bool := fun w =>
  match services.sendTextMessage chatId message w.services with
  | (delivered, s) => (.ok delivered, ⟨s, w.sent ++ [(chatId, message)]⟩)

/-- A send whose outcome nobody looks at. -/
def reply (services : Services σ) (chatId : String) (message : Message) :
    Action (World σ) ServiceError Unit := do
  let _ ← send services chatId message

/-- `Date.now()`. -/
def now (services : Services σ) : Action (World σ) ServiceError ℤ := fun w =>
  (.ok (services.dateNow w.services), w)

/-- `computeHoldings`, which throws if the trades can't be replayed. -/
def holdingsOf (trades : List PortfolioTrade) : Except ServiceError HoldingsResult :=
  match Portfolio.computeHoldings trades with
  | .ok holdings => .ok holdings
  | .error error => .error (.inconsistentTrades error)

/-- The guard of `SignalsSubscriptionsMirror`: a failure is logged only. -/
def mirror (x : Action σ ServiceError Unit) : Action (World σ) ServiceError Unit :=
  (call x).tryCatch fun _ => pure ()

/-! ### What the log shows of them -/

theorem keeps_call (x : Action σ ServiceError α) : (call x).Keeps World.sent := fun _ => rfl

theorem keeps_now (services : Services σ) : (now services).Keeps World.sent := fun _ => rfl

theorem keeps_mirror (x : Action σ ServiceError Unit) : (mirror x).Keeps World.sent :=
  (keeps_call x).tryCatch fun _ => .pure ()

theorem total_mirror (x : Action σ ServiceError Unit) : (mirror x).Total :=
  .tryCatch fun _ => .pure ()

/-- **A send is one attempt**, whatever becomes of it. -/
theorem says_send (services : Services σ) (chatId : String) (message : Message) :
    (send services chatId message).Says World.sent fun m => m.1 = chatId := fun _ =>
  ⟨⟨_, rfl⟩, (chatId, message), rfl, rfl⟩

theorem says_reply (services : Services σ) (chatId : String) (message : Message) :
    (reply services chatId message).Says World.sent fun m => m.1 = chatId :=
  (says_send services chatId message).before (fun _ => .pure ()) fun _ => .pure ()

end Controllers

end CryptoZaloBot
