import CryptoZaloBot.Controllers.Services

/-!
# The webhook

`WebhookController`: a message comes in, is parsed, and is answered. Some twenty kinds of
commands share one error handler, and many of them call services before and after the answer,
so a failure could cost the answer or bring a second one.

It does neither (`CryptoZaloBot.Controllers.handleWebhook_replies_once`). Every branch answers as
the last thing that can throw; what comes after – the mirror of the watchlists, the records of
verdicts, the counters – is caught where it stands. A branch that throws has therefore not
answered yet, and the handler answers in its place.
-/

namespace CryptoZaloBot

namespace Controllers

open Commands (UnicodeTables ParsedCommand)
open Signals (CoinSignal)

/-! ### Payloads -/

structure WebhookChat where
  id : String
  chatType : Option String

structure WebhookMessage where
  messageId : Option String
  text : Option String
  chat : Option WebhookChat

/-- **A validated webhook call.** Some events carry no message. -/
structure WebhookPayload where
  message : Option WebhookMessage

/-- A text that is there and not empty. -/
def present (text : Option String) : Option String := text.filter (· ≠ "")

/-- The chat of a payload, if it can be answered. -/
def WebhookPayload.chatId (payload : WebhookPayload) : Option String :=
  present ((payload.message.bind WebhookMessage.chat).map WebhookChat.id)

def WebhookPayload.text (payload : WebhookPayload) : Option String :=
  present (payload.message.bind WebhookMessage.text)

/-- The chat that is to be answered: none without a text. -/
def WebhookPayload.addressee (payload : WebhookPayload) : Option String :=
  payload.text.bind fun _ => payload.chatId

/-! ### Portfolio commands -/

/-- `PORTFOLIO_COMMANDS`: private chats only. -/
def isPortfolioCommand : ParsedCommand → Bool
  | .portfolioView | .portfolioTrade .. | .portfolioHistory _ | .portfolioDelete _
  | .portfolioClear _ | .portfolioInvalid => true
  | _ => false

section Handlers

variable {σ : Type} (tables : UnicodeTables) (services : Services σ) (chatId : String)

/-- The coins of a portfolio. A lookup that finds none of them lists them all without a
price. -/
def heldCoins (symbols : List String) :
    Action (World σ) ServiceError (List Prices.CoinMarketData) :=
  if symbols = [] then pure []
  else (call (services.getPricesBySymbols symbols)).tryCatch fun
    | .unknownCoinSymbols _ => pure []
    | error => Action.throw error

/-- `/danhmuc`: one store read, then one price lookup. -/
def replyWithPortfolio : Action (World σ) ServiceError Unit := do
  let trades ← call (services.listTrades chatId)
  if trades = [] then reply services chatId .portfolioEmpty
  else
    let holdings ← Action.ofExcept (holdingsOf trades)
    let symbols := holdings.holdings.map (·.symbol)
    let coins ← heldCoins services symbols
    reply services chatId
      (.portfolio holdings (Prices.pricesBySymbol tables.toCasing coins symbols))

/-- `(chatType ?? '').toUpperCase() === 'PRIVATE'`. -/
def isPrivate (chatType : Option String) : Bool :=
  tables.toUpperCase (chatType.getD "") = "PRIVATE"

/-- **`/danhmuc` and its subcommands.** A group, and a payload that does not say what it comes
from, are refused. -/
def replyToPortfolioCommand (command : ParsedCommand) (chatType messageId : Option String) :
    Action (World σ) ServiceError Unit :=
  if !isPrivate tables chatType then reply services chatId .portfolioGroupRefused
  else
    match command with
    | .portfolioView => replyWithPortfolio tables services chatId
    | .portfolioTrade symbol side quantity priceUsd => do
      -- Only coins that have a price are accepted: this throws otherwise.
      let _ ← call (services.getPricesBySymbols [symbol])
      let recorded ← call (services.recordTrade chatId side symbol quantity priceUsd messageId)
      let holdings ← Action.ofExcept (holdingsOf recorded.trades)
      match recorded.trade with
      | none => Action.throw .unexpected
      | some trade =>
        reply services chatId (.portfolioTradeRecorded trade holdings recorded.duplicate
          (if recorded.duplicate then none else Portfolio.findRecentTwin recorded.trades trade))
    | .portfolioHistory page => do
      let page ← call (services.listTradesPage chatId page)
      reply services chatId (.portfolioHistory page)
    | .portfolioDelete index => do
      let deleted ← call (services.deleteTrade chatId index)
      let holdings ← Action.ofExcept (holdingsOf deleted.trades)
      reply services chatId (.portfolioDeleted deleted.trade holdings)
    | .portfolioClear confirmed =>
      if !confirmed then reply services chatId .portfolioClearConfirm
      else do
        let deletedCount ← call (services.clearTrades chatId)
        reply services chatId (.portfolioCleared deletedCount)
    | _ => reply services chatId .portfolioInvalid

/-! ### Signals -/

/-- Counts one `/tinhieu` use; never fails the reply. -/
def noteSignalUse : Action (World σ) ServiceError Unit :=
  (do
    let time ← now services
    call (services.recordUsage chatId .command time)).tryCatch fun _ => pure ()

/-- Verdicts of a tracked coin are recorded; a failure is logged only. -/
def recordVerdicts (signals : List CoinSignal) (tracked : Bool) (now : ℤ) :
    Action (World σ) ServiceError Unit :=
  if tracked then
    (call (services.recordSentVerdicts chatId signals now)).tryCatch fun _ => pure ()
  else pure ()

/-- Shows signals. Verdicts are recorded only after the reply went out. -/
def showSignals (signals : List CoinSignal) (tracked : Bool) (now : ℤ) :
    Action (World σ) ServiceError Unit := do
  reply services chatId (.signals signals tracked)
  recordVerdicts services chatId signals tracked now
  noteSignalUse services chatId

/-- `/tinhieu`, of one coin or of the chat's whole watchlist. -/
def replyWithSignals (symbol : Option String) : Action (World σ) ServiceError Unit := do
  let now ← now services
  match symbol with
  | some symbol =>
    let single ← call (services.getSignalFor symbol now)
    match single.signal with
    -- The formatter reads the signal that is not there.
    | none => Action.throw .unexpected
    | some signal => showSignals services chatId [signal] single.tracked now
  | none =>
    let subscriber ← call (services.findActiveByChatId chatId)
    match (subscriber.map (·.watchlist)).getD [] with
    | [] => reply services chatId .signalNoWatchlist
    | watchlist =>
      let signals ← call (services.getSignalsForSymbols watchlist now)
      showSignals services chatId signals true now

/-! ### Messages -/

/-- **The reply to a command**: the body of `replyToMessage`. -/
def replyToCommand (command : ParsedCommand) (chatType messageId : Option String) :
    Action (World σ) ServiceError Unit :=
  if isPortfolioCommand command then
    replyToPortfolioCommand tables services chatId command chatType messageId
  else
    match command with
    | .help => reply services chatId .help
    | .topMarkets => do
      let coins ← call services.getTopMarkets
      reply services chatId (.topMarkets coins)
    | .price symbols => do
      let coins ← call (services.getPricesBySymbols symbols)
      reply services chatId (.price coins)
    | .subscribe symbols => do
      let watchlist := if symbols = [] then Subscribers.defaultWatchlist else symbols
      let subscriber ← call (services.subscribe chatId watchlist)
      reply services chatId (.subscribed subscriber.watchlist)
      mirror (services.setWatchlist chatId subscriber.watchlist)
    | .unsubscribe => do
      call (services.unsubscribe chatId)
      reply services chatId .unsubscribed
      mirror (services.removeWatchlist chatId)
    | .watchlist [] => do
      let subscriber ← call (services.findActiveByChatId chatId)
      reply services chatId (.watchlistView (subscriber.map (·.watchlist)))
    | .watchlist symbols => do
      let updated ← call (services.updateWatchlist chatId symbols)
      match updated with
      | some updated => do
        reply services chatId (.watchlistUpdated updated.watchlist)
        mirror (services.setWatchlist chatId updated.watchlist)
      | none => reply services chatId .watchlistNotSubscribed
    | .alertCreate symbol direction threshold => do
      let created ← call (services.createAlert chatId symbol direction threshold)
      reply services chatId (.alertCreated created)
    | .alertList => do
      let alerts ← call (services.listAlertsByChat chatId)
      reply services chatId (.alertList alerts)
    | .alertDelete index => do
      let deleted ← call (services.deleteAlertByIndex chatId index)
      reply services chatId (.alertDeleted deleted index)
    | .alertInvalid => reply services chatId .alertInvalid
    | .signalView symbol => replyWithSignals services chatId symbol
    | .signalBacktest symbol => do
      -- Only coins that have a price are accepted: this throws otherwise.
      let _ ← call (services.getPricesBySymbols [symbol])
      let now ← now services
      let result ← call (services.backtest symbol now)
      reply services chatId (.backtest symbol result)
      noteSignalUse services chatId
    | .signalStats => do
      let now ← now services
      let card ← call (services.scorecard chatId now)
      reply services chatId (.scorecard card Signals.scorecardDays)
      noteSignalUse services chatId
    | .signalToggle enabled => do
      call (services.setEnabled chatId enabled)
      reply services chatId (.signalToggle enabled)
      noteSignalUse services chatId
    | .signalInvalid => reply services chatId .signalInvalid
    | _ => reply services chatId .unknownCommand

/-- What the error handler says. -/
def errorReply : ServiceError → Message
  | .unknownCoinSymbols symbols => .unknownSymbols symbols
  | .coingeckoUnavailable => .serviceUnavailable
  | .invalidWatchlist error => .invalidWatchlist error.message
  | .alertLimitReached limit => .alertLimit limit
  | .alertConditionAlreadyMet symbol direction currentPriceUsd =>
    .alertAlreadyMet symbol direction currentPriceUsd
  | .alertNotFound index => .alertNotFound index
  | .portfolioOversell symbol heldQuantity => .portfolioOversell symbol heldQuantity
  | .portfolioLimit kind limit => .portfolioLimit kind limit
  | .portfolioTradeNotFound index => .portfolioNotFound index
  | .portfolioDeleteWouldOversell index symbol => .portfolioDeleteRefused index symbol
  | .portfolioUnavailable | .inconsistentTrades _ => .portfolioUnavailable
  | .unexpected => .genericError

def handleReplyError (error : ServiceError) : Action (World σ) ServiceError Unit :=
  reply services chatId (errorReply error)

def replyToMessage (text : String) (chatType messageId : Option String) :
    Action (World σ) ServiceError Unit :=
  (replyToCommand tables services chatId (Commands.parse tables text) chatType messageId).tryCatch
    (handleReplyError services chatId)

end Handlers

/-- **`handleWebhook`**, which acknowledges by returning. -/
def handleWebhook {σ : Type} (tables : UnicodeTables) (services : Services σ)
    (payload : WebhookPayload) : Action (World σ) ServiceError Unit :=
  match payload.text, payload.chatId with
  | some text, some chatId =>
    replyToMessage tables services chatId text
      ((payload.message.bind WebhookMessage.chat).bind WebhookChat.chatType)
      (payload.message.bind WebhookMessage.messageId)
  | _, _ => pure ()

/-! ### One reply -/

section OneReply

variable {σ : Type} {tables : UnicodeTables} {services : Services σ} {chatId : String}

/-- A branch that answers once, in the chat it was asked in, unless it throws before. -/
abbrev RepliesTo (chatId : String) (x : Action (World σ) ServiceError Unit) : Prop :=
  x.Replies World.sent fun m => m.1 = chatId

theorem repliesTo_reply (message : Message) : RepliesTo chatId (reply services chatId message) :=
  (says_reply services chatId message).replies

/-- A branch that calls a service and then answers. -/
theorem repliesTo_call {α : Type} {x : Action σ ServiceError α}
    {f : α → Action (World σ) ServiceError Unit} (h : ∀ a, RepliesTo chatId (f a)) :
    RepliesTo chatId (call x >>= f) := .after (keeps_call x) h

/-- A branch that answers and then sees to something that can't fail. -/
theorem repliesTo_before {message : Message} {f : Unit → Action (World σ) ServiceError Unit}
    (hkeeps : ∀ a, (f a).Keeps World.sent) (htotal : ∀ a, (f a).Total) :
    RepliesTo chatId (reply services chatId message >>= f) :=
  ((says_reply services chatId message).before hkeeps htotal).replies

theorem keeps_noteSignalUse : (noteSignalUse services chatId).Keeps World.sent :=
  .tryCatch ((keeps_now services).bind fun _ => keeps_call _) fun _ => .pure ()

theorem total_noteSignalUse : (noteSignalUse services chatId).Total :=
  .tryCatch fun _ => .pure ()

theorem keeps_recordVerdicts (signals : List CoinSignal) (tracked : Bool) (now : ℤ) :
    (recordVerdicts services chatId signals tracked now).Keeps World.sent := by
  rw [recordVerdicts]
  split_ifs
  · exact .tryCatch (keeps_call _) fun _ => .pure ()
  · exact .pure ()

theorem total_recordVerdicts (signals : List CoinSignal) (tracked : Bool) (now : ℤ) :
    (recordVerdicts services chatId signals tracked now).Total := by
  rw [recordVerdicts]
  split_ifs
  · exact .tryCatch fun _ => .pure ()
  · exact .pure ()

theorem repliesTo_showSignals (signals : List CoinSignal) (tracked : Bool) (now : ℤ) :
    RepliesTo chatId (showSignals services chatId signals tracked now) := by
  refine repliesTo_before (fun _ => ?_) fun _ => ?_
  · exact .bind (keeps_recordVerdicts _ _ _) fun _ => keeps_noteSignalUse
  · exact .bind (total_recordVerdicts _ _ _) fun _ => total_noteSignalUse

/-- A lookup that finds nothing is the one error that is not passed on. -/
theorem keeps_heldCoins {μ : Type} {view : World σ → μ} {symbols : List String}
    (h : (call (services.getPricesBySymbols symbols)).Keeps view) :
    (heldCoins services symbols).Keeps view := by
  rw [heldCoins]
  split_ifs
  · exact .pure _
  · refine .tryCatch h fun error => ?_
    cases error
    case unknownCoinSymbols => exact .pure _
    all_goals exact .throw _

theorem repliesTo_replyWithSignals (symbol : Option String) :
    RepliesTo chatId (replyWithSignals services chatId symbol) := by
  refine .after (keeps_now services) fun now => ?_
  cases symbol with
  | some symbol =>
    refine repliesTo_call fun single => ?_
    cases single.signal with
    | none => exact .throw _
    | some signal => exact repliesTo_showSignals _ _ _
  | none =>
    refine repliesTo_call fun subscriber => ?_
    cases (subscriber.map (·.watchlist)).getD [] with
    | nil => exact repliesTo_reply _
    | cons symbol symbols => exact repliesTo_call fun signals => repliesTo_showSignals _ _ _

theorem repliesTo_replyWithPortfolio :
    RepliesTo chatId (replyWithPortfolio tables services chatId) := by
  refine repliesTo_call fun trades => ?_
  split_ifs
  · exact repliesTo_reply _
  refine .after (.ofExcept _) fun holdings => ?_
  exact .after (keeps_heldCoins (keeps_call _)) fun coins => repliesTo_reply _

theorem repliesTo_replyToPortfolioCommand (command : ParsedCommand)
    (chatType messageId : Option String) :
    RepliesTo chatId
      (replyToPortfolioCommand tables services chatId command chatType messageId) := by
  unfold replyToPortfolioCommand
  split_ifs
  · exact repliesTo_reply _
  cases command
  case portfolioView => exact repliesTo_replyWithPortfolio
  case portfolioTrade =>
    refine repliesTo_call fun _ => repliesTo_call fun recorded => ?_
    refine .after (.ofExcept _) fun holdings => ?_
    cases recorded.trade with
    | none => exact .throw _
    | some trade => exact repliesTo_reply _
  case portfolioHistory => exact repliesTo_call fun _ => repliesTo_reply _
  case portfolioDelete =>
    exact repliesTo_call fun deleted => .after (.ofExcept _) fun holdings => repliesTo_reply _
  case portfolioClear confirmed =>
    dsimp only
    split_ifs
    · exact repliesTo_reply _
    · exact repliesTo_call fun _ => repliesTo_reply _
  all_goals exact repliesTo_reply _

/-- **Every branch answers once or throws before it answers.** -/
theorem repliesTo_replyToCommand (command : ParsedCommand) (chatType messageId : Option String) :
    RepliesTo chatId (replyToCommand tables services chatId command chatType messageId) := by
  unfold replyToCommand
  split_ifs with hportfolio
  · exact repliesTo_replyToPortfolioCommand _ _ _
  clear hportfolio
  cases command
  case topMarkets | price | alertCreate | alertList | alertDelete =>
    exact repliesTo_call fun _ => repliesTo_reply _
  case subscribe =>
    exact repliesTo_call fun _ =>
      repliesTo_before (fun _ => keeps_mirror _) fun _ => total_mirror _
  case unsubscribe =>
    exact repliesTo_call fun _ =>
      repliesTo_before (fun _ => keeps_mirror _) fun _ => total_mirror _
  case watchlist symbols =>
    cases symbols with
    | nil => exact repliesTo_call fun _ => repliesTo_reply _
    | cons symbol symbols =>
      refine repliesTo_call fun updated => ?_
      cases updated with
      | none => exact repliesTo_reply _
      | some updated => exact repliesTo_before (fun _ => keeps_mirror _) fun _ => total_mirror _
  case signalView symbol => exact repliesTo_replyWithSignals symbol
  case signalBacktest =>
    refine repliesTo_call fun _ => .after (keeps_now services) fun now => ?_
    exact repliesTo_call fun _ =>
      repliesTo_before (fun _ => keeps_noteSignalUse) fun _ => total_noteSignalUse
  case signalStats =>
    refine .after (keeps_now services) fun now => repliesTo_call fun _ => ?_
    exact repliesTo_before (fun _ => keeps_noteSignalUse) fun _ => total_noteSignalUse
  case signalToggle =>
    exact repliesTo_call fun _ =>
      repliesTo_before (fun _ => keeps_noteSignalUse) fun _ => total_noteSignalUse
  all_goals exact repliesTo_reply _

/-- Whatever a command throws, the handler answers in its place. -/
theorem says_tryCatch_replyToCommand (command : ParsedCommand)
    (chatType messageId : Option String) :
    ((replyToCommand tables services chatId command chatType messageId).tryCatch
      (handleReplyError services chatId)).Says World.sent fun m => m.1 = chatId :=
  (repliesTo_replyToCommand command chatType messageId).tryCatch fun _ => says_reply _ _ _

end OneReply

/-- **A message is answered once**, in the chat it came from, whatever fails, and is always
acknowledged; this goes for every command. -/
theorem handleWebhook_replies_once {σ : Type} (tables : UnicodeTables) (services : Services σ)
    (payload : WebhookPayload) (w : World σ) :
    ((handleWebhook tables services payload w).1 = .ok () ∧
      ∃ messages, (handleWebhook tables services payload w).2.sent = w.sent ++ messages ∧
        messages.map Prod.fst = payload.addressee.toList) ∧
    ∀ (chatId : String) (command : ParsedCommand) (chatType messageId : Option String),
      ∃ message w', ((replyToCommand tables services chatId command chatType messageId).tryCatch
        (handleReplyError services chatId)) w = (.ok (), w') ∧
          w'.sent = w.sent ++ [(chatId, message)] := by
  have hcommand : ∀ (chatId : String) (command : ParsedCommand)
      (chatType messageId : Option String), ∃ message w',
        ((replyToCommand tables services chatId command chatType messageId).tryCatch
          (handleReplyError services chatId)) w = (.ok (), w') ∧
            w'.sent = w.sent ++ [(chatId, message)] := by
    intro chatId command chatType messageId
    obtain ⟨⟨a, hok⟩, ⟨_, message⟩, rfl, hsent⟩ :=
      @says_tryCatch_replyToCommand _ tables services _ command chatType messageId w
    exact ⟨message, _, Prod.ext hok rfl, hsent⟩
  refine ⟨?_, hcommand⟩
  rw [handleWebhook, WebhookPayload.addressee]
  cases htext : payload.text with
  | none => exact ⟨rfl, [], (List.append_nil _).symm, rfl⟩
  | some text =>
    cases hchat : payload.chatId with
    | none => exact ⟨rfl, [], (List.append_nil _).symm, rfl⟩
    | some chatId =>
      obtain ⟨message, w', hrun, hsent⟩ := hcommand chatId (Commands.parse tables text) _ _
      dsimp only
      rw [replyToMessage, hrun]
      exact ⟨rfl, [(chatId, message)], hsent, rfl⟩

end Controllers

end CryptoZaloBot
