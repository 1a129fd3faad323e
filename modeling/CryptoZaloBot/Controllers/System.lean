import CryptoZaloBot.Commands.Trades
import CryptoZaloBot.Controllers.Digest
import CryptoZaloBot.Controllers.Webhook

/-!
# The bot as a whole

The services of the webhook and the digest, put together over one state
(`CryptoZaloBot.Controllers.SystemState`): the portfolio's database, which is known to the last
row; what the bot keeps of signals for every chat; and the rest – subscribers, alerts, the mirror,
the price history –, of which only the kind of access is known
(`CryptoZaloBot.Controllers.OtherServices`).

The bot is driven by events, webhook calls and digests. An event brings its circumstances with
it: the time, the prices there are, how far the database gets and which messages Zalo accepts.
-/

namespace CryptoZaloBot

namespace Controllers

open Commands (ShortestDigits UnicodeTables numberToString numericOfText?)
open Portfolio (Database DecimalText HoldingsResult PortfolioError PortfolioTrade TradeSide)
open PriceAlerts (AlertDirection CreatedAlert PriceAlert)
open Prices (CoinMarketData HoldingPrice)
open Signals (BacktestResult CoinSignal Scorecard)
open Subscribers (Subscriber)

/-! ### State -/

/-- **What the bot keeps.** -/
structure SystemState (ρ κ : Type) where
  database : Database
  /-- Verdicts and usage of signals, kept under the chat's own keys. -/
  signals : String → κ
  /-- All that is kept besides. -/
  rest : ρ
  /-- The price lookups of this event. -/
  lookups : ℕ

/-- **The services that have nothing to do with the portfolio.** They may do anything with the
rest of the state, the records of a chat's signals apart. -/
structure OtherServices (ρ κ : Type) where
  getTopMarkets : Action ρ ServiceError (List CoinMarketData)
  subscribe : String → List String → Action ρ ServiceError Subscriber
  unsubscribe : String → Action ρ ServiceError Unit
  findActiveByChatId : String → Action ρ ServiceError (Option Subscriber)
  updateWatchlist : String → List String → Action ρ ServiceError (Option Subscriber)
  listActive : Action ρ ServiceError (List Subscriber)
  createAlert : String → String → AlertDirection → ℚ → Action ρ ServiceError CreatedAlert
  listAlertsByChat : String → Action ρ ServiceError (List PriceAlert)
  deleteAlertByIndex : String → ℕ → Action ρ ServiceError PriceAlert
  getSignalFor : String → ℤ → Action ρ ServiceError SingleSignal
  getSignalsForSymbols : List String → ℤ → Action ρ ServiceError (List CoinSignal)
  backtest : String → ℤ → Action ρ ServiceError BacktestResult
  setEnabled : String → Bool → Action ρ ServiceError Unit
  setWatchlist : String → List String → Action ρ ServiceError Unit
  removeWatchlist : String → Action ρ ServiceError Unit
  replaceWatchlists : List Subscriber → Action ρ ServiceError Unit
  /-- Reads the chat's records and the price history. -/
  scorecard : κ → ρ → ℤ → Except ServiceError Scorecard
  recordSentVerdicts : List CoinSignal → ℤ → Action κ ServiceError Unit
  recordUsage : SignalUsageKind → ℤ → Action κ ServiceError Unit
  formatSignalDigestSection : List CoinSignal → Except ServiceError String
  formatPortfolioDigestSection :
    HoldingsResult → InsertionMap String HoldingPrice → Except ServiceError String

/-! ### Events -/

/-- How far the database gets with the one call of an event. -/
inductive DatabaseFate where
  | answered
  /-- It does what it is asked, but the answer is lost. -/
  | answerLost
  | failed
  deriving DecidableEq

/-- What comes in. -/
inductive Trigger where
  | webhook (payload : WebhookPayload)
  | digest (cronTrackingEnabled : Bool)

/-- **An event**, with its circumstances. -/
structure BotEvent where
  trigger : Trigger
  now : ℤ
  /-- What the price lookups are answered, one by one; an answer from the cache of prices counts
  as one of the price sources. -/
  prices : ℕ → List String → Except ServiceError (List CoinMarketData)
  database : DatabaseFate
  /-- Whether Zalo accepts a message to a chat. -/
  delivered : String → Message → Bool

/-! ### Services -/

section SystemServices

variable {ρ κ α : Type}

def onRest (x : Action ρ ServiceError α) : Action (SystemState ρ κ) ServiceError α := fun s =>
  ((x s.rest).1, { s with rest := (x s.rest).2 })

def onSignals (chatId : String) (x : Action κ ServiceError α) :
    Action (SystemState ρ κ) ServiceError α := fun s =>
  ((x (s.signals chatId)).1,
    { s with signals := Function.update s.signals chatId (x (s.signals chatId)).2 })

/-- A call of the database; whatever goes wrong there reads `PortfolioUnavailableError`. -/
def onDatabase (fate : DatabaseFate) (x : Action Database ServiceError α) :
    Action (SystemState ρ κ) ServiceError α := fun s =>
  match fate with
  | .answered => ((x s.database).1, { s with database := (x s.database).2 })
  | .answerLost => (.error .portfolioUnavailable, { s with database := (x s.database).2 })
  | .failed => (.error .portfolioUnavailable, s)

/-- The error as a handler tells it apart. -/
def PortfolioError.service : PortfolioError → ServiceError
  | .oversell symbol heldQuantity => .portfolioOversell symbol heldQuantity
  | .limit kind limit => .portfolioLimit kind limit
  | .tradeNotFound index => .portfolioTradeNotFound index
  | .deleteWouldOversell index symbol => .portfolioDeleteWouldOversell index symbol
  | .unavailable => .portfolioUnavailable

/-- One transaction; `answer` takes the reply apart. -/
def transaction (call : Portfolio.Call) (answer : Portfolio.Reply → Option α) :
    Action Database ServiceError α := fun db =>
  (match (db.run call).2 with
    | .ok reply => (answer reply).elim (.error .unexpected) .ok
    | .error error => .error (PortfolioError.service error), (db.run call).1)

def recordTrade (shortest : ShortestDigits) (context : Portfolio.Context) (side : TradeSide)
    (symbol : String) (quantity : DecimalText) (priceUsd : ℚ) (messageId : Option String) :
    Action Database ServiceError Portfolio.RecordedTrade :=
  match numericOfText? (numberToString shortest priceUsd) with
  | none => .throw .portfolioUnavailable
  | some price =>
    transaction ⟨context, .recordTrade ⟨side, symbol, quantity, price, messageId⟩⟩ fun
      | .recorded result => some result
      | _ => none

def deleteTrade (context : Portfolio.Context) (index : ℕ) :
    Action Database ServiceError Portfolio.DeletedTrade :=
  transaction ⟨context, .deleteTrade index⟩ fun
    | .deleted result => some result
    | _ => none

def clearTrades (context : Portfolio.Context) : Action Database ServiceError ℕ :=
  transaction ⟨context, .clearTrades⟩ fun
    | .cleared count => some count
    | _ => none

def listTrades (context : Portfolio.Context) :
    Action Database ServiceError (List PortfolioTrade) := fun db =>
  (match (db.listTrades context).1 with
    | .ok trades => .ok trades
    | .error _ => .error .portfolioUnavailable, (db.listTrades context).2)

/-- **The services during an event.** -/
def BotEvent.services (shortest : ShortestDigits) (other : OtherServices ρ κ) (event : BotEvent) :
    Services (SystemState ρ κ) where
  dateNow _ := event.now
  getTopMarkets := onRest other.getTopMarkets
  getPricesBySymbols symbols := fun s =>
    (event.prices s.lookups symbols, { s with lookups := s.lookups + 1 })
  subscribe chatId watchlist := onRest (other.subscribe chatId watchlist)
  unsubscribe chatId := onRest (other.unsubscribe chatId)
  findActiveByChatId chatId := onRest (other.findActiveByChatId chatId)
  updateWatchlist chatId watchlist := onRest (other.updateWatchlist chatId watchlist)
  listActive := onRest other.listActive
  createAlert chatId symbol direction threshold :=
    onRest (other.createAlert chatId symbol direction threshold)
  listAlertsByChat chatId := onRest (other.listAlertsByChat chatId)
  deleteAlertByIndex chatId index := onRest (other.deleteAlertByIndex chatId index)
  recordTrade chatId side symbol quantity priceUsd messageId := onDatabase event.database
    (recordTrade shortest ⟨chatId, event.now⟩ side symbol quantity priceUsd messageId)
  deleteTrade chatId index := onDatabase event.database (deleteTrade ⟨chatId, event.now⟩ index)
  clearTrades chatId := onDatabase event.database (clearTrades ⟨chatId, event.now⟩)
  listTrades chatId := onDatabase event.database (listTrades ⟨chatId, event.now⟩)
  listTradesPage chatId page := onDatabase event.database fun db =>
    (.ok (db.listTradesPage chatId page), db)
  listTradesForChats chatIds := onDatabase event.database fun db =>
    (.ok (db.listTradesForChats chatIds), db)
  getSignalFor symbol now := onRest (other.getSignalFor symbol now)
  getSignalsForSymbols symbols now := onRest (other.getSignalsForSymbols symbols now)
  backtest symbol now := onRest (other.backtest symbol now)
  scorecard chatId now := fun s => (other.scorecard (s.signals chatId) s.rest now, s)
  recordSentVerdicts chatId signals now := onSignals chatId (other.recordSentVerdicts signals now)
  recordUsage chatId kind now := onSignals chatId (other.recordUsage kind now)
  setEnabled chatId enabled := onRest (other.setEnabled chatId enabled)
  setWatchlist chatId watchlist := onRest (other.setWatchlist chatId watchlist)
  removeWatchlist chatId := onRest (other.removeWatchlist chatId)
  replaceWatchlists subscribers := onRest (other.replaceWatchlists subscribers)
  formatSignalDigestSection signals := fun s => (other.formatSignalDigestSection signals, s)
  formatPortfolioDigestSection holdings prices := fun s =>
    (other.formatPortfolioDigestSection holdings prices, s)
  sendTextMessage chatId message := fun s => (event.delivered chatId message, s)

/-! ### Runs -/

variable (tables : UnicodeTables) (shortest : ShortestDigits) (other : OtherServices ρ κ)

/-- **What the bot does with an event.** Both handlers always return. -/
def handle (event : BotEvent) (w : World (SystemState ρ κ)) : World (SystemState ρ κ) :=
  let start : World (SystemState ρ κ) := { w with services := { w.services with lookups := 0 } }
  match event.trigger with
  | .webhook payload => (handleWebhook tables (event.services shortest other) payload start).2
  | .digest cronTrackingEnabled =>
    (sendDailyDigest tables.toCasing (event.services shortest other) cronTrackingEnabled start).2

def handleAll (events : List BotEvent) (w : World (SystemState ρ κ)) :
    World (SystemState ρ κ) :=
  events.foldl (fun w event => handle tables shortest other event w) w

end SystemServices

/-- What a chat was sent. -/
def messagesTo (chatId : String) (sent : List (String × Message)) : List Message :=
  (sent.filter (·.1 = chatId)).map Prod.snd

/-- **A message that came from a private chat**, as the payload says in whatever case. -/
def BotEvent.MarkedPrivate (tables : UnicodeTables) (event : BotEvent) (chatId : String) : Prop :=
  ∃ payload, event.trigger = .webhook payload ∧ payload.chatId = some chatId ∧
    ∃ chatType, (payload.message.bind WebhookMessage.chat).bind WebhookChat.chatType =
      some chatType ∧ tables.toUpperCase chatType = "PRIVATE"

end Controllers

end CryptoZaloBot
