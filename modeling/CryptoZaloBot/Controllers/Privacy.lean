import CryptoZaloBot.Controllers.System

/-!
# Portfolios stay private

A portfolio is kept and shown in private chats only. So a chat that never wrote from a private
chat has no rows in the portfolio's database, and nothing it is ever sent depends on the rows of
others (`CryptoZaloBot.Controllers.public_chat_never_sees_portfolio`).

Two runs with the same events are compared, whose databases may differ in the rows of other
chats. What one chat can see of the bot (`CryptoZaloBot.Controllers.seenBy`) is the same in both
after every event. Its own messages never reach the database, because the gate refuses them. The
portfolio commands of others, and their turns of a digest, may go differently in the two runs, but
change nothing that the chat sees. All else does not read the database at all.
-/

namespace CryptoZaloBot

namespace Controllers

open CryptoZaloBot.Action (Alike Keeps Moves Respects SameEnd Total)
open Commands (ParsedCommand ShortestDigits UnicodeTables)
open Portfolio (Database PortfolioTrade TradeRow UsageRow)
open Prices (CoinMarketData)
open Signals (CoinSignal)
open Subscribers (Subscriber)

/-! ### What a chat can see -/

/-- **What a chat can see of the bot**, or be told by it. -/
structure Seen (ρ κ : Type) where
  /-- Its own rows. -/
  rows : List TradeRow × List UsageRow
  signals : κ
  rest : ρ
  lookups : ℕ
  messages : List Message

/-- The lookups count within one event only. -/
def Seen.between {ρ κ : Type} (seen : Seen ρ κ) : Seen ρ κ := { seen with lookups := 0 }

section Chats

variable {ρ κ α : Type}

def seenBy (observer : String) (w : World (SystemState ρ κ)) : Seen ρ κ where
  rows := w.services.database.view observer
  signals := w.services.signals observer
  rest := w.services.rest
  lookups := w.services.lookups
  messages := messagesTo observer w.sent

/-- **Two states that are the same to a chat**, which has no portfolio. -/
def Agree (observer : String) (w w' : World (SystemState ρ κ)) : Prop :=
  seenBy observer w = seenBy observer w' ∧ (seenBy observer w).rows = ([], [])

/-- The same between two events. -/
def AgreeBetween (observer : String) (w w' : World (SystemState ρ κ)) : Prop :=
  (seenBy observer w).between = (seenBy observer w').between ∧
    (seenBy observer w).rows = ([], [])

variable {shortest : ShortestDigits} {other : OtherServices ρ κ} {event : BotEvent}
  {tables : UnicodeTables} {chatId observer : String}

theorem Agree.of_keeps {x : Action (World (SystemState ρ κ)) ServiceError α}
    (hx : Keeps (seenBy observer) x) {w w' : World (SystemState ρ κ)} (h : Agree observer w w') :
    Agree observer (x w).2 (x w').2 := by
  refine ⟨?_, ?_⟩
  · rw [hx w, hx w', h.1]
  · rw [hx w, h.2]

/-- What can't be seen and is sure to end well is respected. -/
theorem respects_of_keeps {x : Action (World (SystemState ρ κ)) ServiceError Unit}
    (hx : Keeps (seenBy observer) x) (htotal : x.Total) : Respects (Agree observer) x :=
  .of_total (fun _ _ => .of_keeps hx) htotal htotal

/-! ### Calls, seen by a chat -/

theorem respects_rest (x : Action ρ ServiceError α) :
    Respects (Agree observer) (call (onRest (κ := κ) x)) := by
  rintro w w' ⟨hseen, hrows⟩
  have hrest : w.services.rest = w'.services.rest := congrArg Seen.rest hseen
  refine ⟨⟨?_, hrows⟩, ?_⟩
  · change ({ seenBy observer w with rest := (x w.services.rest).2 } : Seen ρ κ) =
      { seenBy observer w' with rest := (x w'.services.rest).2 }
    rw [hseen, hrest]
  · change SameEnd Eq (x w.services.rest).1 (x w'.services.rest).1
    rw [hrest]
    exact .refl _

theorem respects_prices (symbols : List String) :
    Respects (Agree observer)
      (call ((event.services shortest other).getPricesBySymbols symbols)) := by
  rintro w w' ⟨hseen, hrows⟩
  have hlookups : w.services.lookups = w'.services.lookups := congrArg Seen.lookups hseen
  refine ⟨⟨?_, hrows⟩, ?_⟩
  · change ({ seenBy observer w with lookups := w.services.lookups + 1 } : Seen ρ κ) =
      { seenBy observer w' with lookups := w'.services.lookups + 1 }
    rw [hseen, hlookups]
  · change SameEnd Eq (event.prices w.services.lookups symbols)
      (event.prices w'.services.lookups symbols)
    rw [hlookups]
    exact .refl _

theorem respects_now :
    Respects (Agree observer) (now (event.services shortest other)) := fun _ _ h => ⟨h, rfl⟩

theorem messagesTo_append (sent : List (String × Message)) (message : Message) :
    messagesTo observer (sent ++ [(chatId, message)]) =
      messagesTo observer sent ++ if chatId = observer then [message] else [] := by
  rw [messagesTo, List.filter_append, List.map_append, ← messagesTo]
  split_ifs with h <;> simp [h]

theorem respects_send (message : Message) :
    Respects (Agree observer) (send (event.services shortest other) chatId message) := by
  rintro w w' ⟨hseen, hrows⟩
  refine ⟨⟨?_, hrows⟩, rfl⟩
  change ({ seenBy observer w with
      messages := messagesTo observer (w.sent ++ [(chatId, message)]) } : Seen ρ κ) =
    { seenBy observer w' with messages := messagesTo observer (w'.sent ++ [(chatId, message)]) }
  have hmessages : messagesTo observer w.sent = messagesTo observer w'.sent :=
    congrArg Seen.messages hseen
  rw [messagesTo_append, messagesTo_append, hseen, hmessages]

theorem respects_signals (x : Action κ ServiceError α) :
    Respects (Agree observer) (call (onSignals (ρ := ρ) observer x)) := by
  rintro w w' ⟨hseen, hrows⟩
  have hsignals : w.services.signals observer = w'.services.signals observer :=
    congrArg Seen.signals hseen
  refine ⟨⟨?_, hrows⟩, ?_⟩
  · have hafter : ∀ w : World (SystemState ρ κ), seenBy observer (call (onSignals observer x) w).2 =
        { seenBy observer w with signals := (x (w.services.signals observer)).2 } := fun w => by
      change ({ seenBy observer w with signals := (Function.update w.services.signals observer
        (x (w.services.signals observer)).2 observer) } : Seen ρ κ) = _
      rw [Function.update_self]
    rw [hafter, hafter, hseen, hsignals]
  · change SameEnd Eq (x (w.services.signals observer)).1 (x (w'.services.signals observer)).1
    rw [hsignals]
    exact .refl _

theorem respects_scorecard (now : ℤ) :
    Respects (Agree observer) (call ((event.services shortest other).scorecard observer now)) := by
  rintro w w' ⟨hseen, hrows⟩
  refine ⟨⟨hseen, hrows⟩, ?_⟩
  change SameEnd Eq (other.scorecard (seenBy observer w).signals (seenBy observer w).rest now)
    (other.scorecard (seenBy observer w').signals (seenBy observer w').rest now)
  rw [hseen]
  exact .refl _

/-- What is kept of another chat's signals can't be seen. -/
theorem keeps_signals_of_ne (h : observer ≠ chatId) (x : Action κ ServiceError α) :
    Keeps (seenBy observer) (call (onSignals (ρ := ρ) chatId x)) := by
  intro w
  change ({ seenBy observer w with
    signals := Function.update w.services.signals chatId _ observer } : Seen ρ κ) = _
  rw [Function.update_of_ne h]
  rfl

/-- Nor can a message to another chat. -/
theorem keeps_send_of_ne (h : observer ≠ chatId) (message : Message) :
    Keeps (seenBy observer) (send (event.services shortest other) chatId message) := by
  intro w
  change ({ seenBy observer w with
    messages := messagesTo observer (w.sent ++ [(chatId, message)]) } : Seen ρ κ) = _
  rw [messagesTo_append, if_neg h.symm, List.append_nil]
  rfl

theorem keeps_reply_of_ne (h : observer ≠ chatId) (message : Message) :
    Keeps (seenBy observer) (reply (event.services shortest other) chatId message) :=
  (keeps_send_of_ne h message).bind fun _ => .pure ()

/-- Nor a call of the database that leaves the chat's rows alone. -/
theorem keeps_onDatabase {x : Action Database ServiceError α} {fate : DatabaseFate}
    (h : ∀ db, (x db).2.view observer = db.view observer) :
    Keeps (seenBy observer) (call (onDatabase (ρ := ρ) (κ := κ) fate x)) := by
  intro w
  cases fate with
  | failed => rfl
  | answered | answerLost =>
    change ({ seenBy observer w with
      rows := (x w.services.database).2.view observer } : Seen ρ κ) = _
    rw [h]
    rfl

/-! ### What every handler does after its calls -/

theorem respects_reply (message : Message) :
    Respects (Agree observer) (reply (event.services shortest other) chatId message) :=
  (respects_send message).bind fun _ _ _ => .pure rfl

theorem respects_mirror (x : Action ρ ServiceError Unit) :
    Respects (Agree observer) (mirror (onRest (κ := κ) x)) :=
  (respects_rest x).tryCatch fun _ => .pure rfl

theorem respects_noteSignalUse :
    Respects (Agree observer) (noteSignalUse (event.services shortest other) chatId) := by
  by_cases h : observer = chatId
  · subst h
    refine .tryCatch (.bind respects_now fun time _ ht => ?_) fun _ => .pure rfl
    subst ht
    exact respects_signals _
  · have hkeeps : Keeps (seenBy observer)
        (noteSignalUse (event.services shortest other) chatId) :=
      .tryCatch (.bind (fun _ => rfl) fun _ => keeps_signals_of_ne h _) fun _ => .pure ()
    exact respects_of_keeps hkeeps total_noteSignalUse

theorem respects_recordVerdicts (signals : List CoinSignal) (tracked : Bool) (now : ℤ) :
    Respects (Agree observer)
      (recordVerdicts (event.services shortest other) chatId signals tracked now) := by
  rw [recordVerdicts]
  split_ifs
  · by_cases h : observer = chatId
    · subst h
      exact (respects_signals _).tryCatch fun _ => .pure rfl
    · exact respects_of_keeps ((keeps_signals_of_ne h _).tryCatch fun _ => .pure ())
        (.tryCatch fun _ => .pure ())
  · exact .pure rfl

theorem respects_showSignals (signals : List CoinSignal) (tracked : Bool) (now : ℤ) :
    Respects (Agree observer)
      (showSignals (event.services shortest other) chatId signals tracked now) :=
  (respects_reply _).bind fun _ _ _ => (respects_recordVerdicts _ _ _).bind fun _ _ _ =>
    respects_noteSignalUse

/-! ### Commands that have nothing to do with the portfolio -/

theorem respects_replyWithSignals (symbol : Option String) :
    Respects (Agree observer) (replyWithSignals (event.services shortest other) chatId symbol) := by
  refine .bind_same respects_now fun now => ?_
  cases symbol with
  | some symbol =>
    refine .bind_same (respects_rest _) fun single => ?_
    cases single.signal with
    | none => exact .throw _
    | some signal => exact respects_showSignals _ _ _
  | none =>
    refine .bind_same (respects_rest _) fun subscriber => ?_
    cases (subscriber.map (·.watchlist)).getD [] with
    | nil => exact respects_reply _
    | cons symbol symbols =>
      exact .bind_same (respects_rest _) fun signals => respects_showSignals _ _ _

/-- **No other command reads the database.** The scorecard reads what is kept of the signals of
the chat itself, so it is the same for that chat only. -/
theorem respects_replyToCommand {command : ParsedCommand} (chatType messageId : Option String)
    (hcommand : isPortfolioCommand command = false)
    (hstats : command = .signalStats → observer = chatId) :
    Respects (Agree observer)
      (replyToCommand tables (event.services shortest other) chatId command chatType
        messageId) := by
  unfold replyToCommand
  rw [if_neg (by rw [hcommand]; decide)]
  cases command
  case topMarkets | alertCreate | alertList | alertDelete =>
    exact .bind_same (respects_rest _) fun _ => respects_reply _
  case price => exact .bind_same (respects_prices _) fun _ => respects_reply _
  case subscribe =>
    exact .bind_same (respects_rest _) fun _ => .bind_same (respects_reply _) fun _ =>
      respects_mirror _
  case unsubscribe =>
    exact .bind_same (respects_rest _) fun _ => .bind_same (respects_reply _) fun _ =>
      respects_mirror _
  case watchlist symbols =>
    cases symbols with
    | nil => exact .bind_same (respects_rest _) fun _ => respects_reply _
    | cons symbol symbols =>
      refine .bind_same (respects_rest _) fun updated => ?_
      cases updated with
      | none => exact respects_reply _
      | some updated => exact .bind_same (respects_reply _) fun _ => respects_mirror _
  case signalView symbol => exact respects_replyWithSignals symbol
  case signalBacktest =>
    refine .bind_same (respects_prices _) fun _ => .bind_same respects_now fun now => ?_
    exact .bind_same (respects_rest _) fun _ => .bind_same (respects_reply _) fun _ =>
      respects_noteSignalUse
  case signalStats =>
    -- The one command outside the portfolio that reads what is kept of a chat.
    obtain rfl := hstats rfl
    exact .bind_same respects_now fun now => .bind_same (respects_scorecard now) fun card =>
      .bind_same (respects_reply _) fun _ => respects_noteSignalUse
  case signalToggle =>
    exact .bind_same (respects_rest _) fun _ => .bind_same (respects_reply _) fun _ =>
      respects_noteSignalUse
  all_goals exact respects_reply _

/-! ### Commands of other chats -/

theorem Agree.between {w w' : World (SystemState ρ κ)} (h : Agree observer w w') :
    AgreeBetween observer w w' := ⟨congrArg Seen.between h.1, h.2⟩

theorem AgreeBetween.of_keeps {x : Action (World (SystemState ρ κ)) ServiceError α}
    (hx : Keeps (Seen.between ∘ seenBy observer) x) {w w' : World (SystemState ρ κ)}
    (h : AgreeBetween observer w w') : AgreeBetween observer (x w).2 (x w').2 := by
  refine ⟨(hx w).trans (h.1.trans (hx w').symm), ?_⟩
  have hsame : (seenBy observer (x w).2).between = (seenBy observer w).between := hx w
  exact (congrArg Seen.rows hsame).trans h.2

section Others

variable (h : observer ≠ chatId)
include h

theorem view_recordTrade_of_ne (now : ℤ) (side : Portfolio.TradeSide) (symbol : String)
    (quantity : Portfolio.DecimalText) (priceUsd : ℚ) (messageId : Option String)
    (db : Database) :
    (recordTrade shortest ⟨chatId, now⟩ side symbol quantity priceUsd messageId
      db).2.view observer = db.view observer := by
  rw [recordTrade]
  cases Commands.numericOfText? (Commands.numberToString shortest priceUsd) with
  | none => rfl
  | some price => exact Portfolio.view_run_of_ne h

theorem keeps_replyWithPortfolio_of_ne :
    Keeps (Seen.between ∘ seenBy observer)
      (replyWithPortfolio tables (event.services shortest other) chatId) := by
  refine .bind (.comp _ (keeps_onDatabase fun db => Portfolio.view_listTrades_of_ne h))
    fun trades => ?_
  have hreply : ∀ message, Keeps (Seen.between ∘ seenBy observer)
      (reply (event.services shortest other) chatId message) := fun message =>
    (keeps_reply_of_ne h message).comp Seen.between
  split_ifs
  · exact hreply _
  -- The price lookup is counted, but not between two events.
  exact .bind (.ofExcept _) fun holdings => .bind (keeps_heldCoins fun _ => rfl) fun coins =>
    hreply _

/-- **A portfolio command of another chat** changes nothing the chat sees. -/
theorem keeps_replyToPortfolioCommand_of_ne (command : ParsedCommand)
    (chatType messageId : Option String) :
    Keeps (Seen.between ∘ seenBy observer)
      (replyToPortfolioCommand tables (event.services shortest other) chatId command chatType
        messageId) := by
  have hreply : ∀ message, Keeps (Seen.between ∘ seenBy observer)
      (reply (event.services shortest other) chatId message) := fun message =>
    (keeps_reply_of_ne h message).comp Seen.between
  unfold replyToPortfolioCommand
  split_ifs
  · exact hreply _
  cases command
  case portfolioView => exact keeps_replyWithPortfolio_of_ne h
  case portfolioTrade =>
    refine .bind (fun _ => rfl) fun _ =>
      .bind (.comp _ (keeps_onDatabase fun db => view_recordTrade_of_ne h _ _ _ _ _ _ db))
        fun recorded => .bind (.ofExcept _) fun holdings => ?_
    cases recorded.trade with
    | none => exact .throw _
    | some trade => exact hreply _
  case portfolioHistory page =>
    exact .bind (.comp _ (keeps_onDatabase
      (x := fun db => (.ok (db.listTradesPage chatId page), db)) fun _ => rfl)) fun _ => hreply _
  case portfolioDelete =>
    exact .bind (.comp _ (keeps_onDatabase fun db => Portfolio.view_run_of_ne h)) fun deleted =>
      .bind (.ofExcept _) fun holdings => hreply _
  case portfolioClear confirmed =>
    dsimp only
    split_ifs
    · exact hreply _
    · exact .bind (.comp _ (keeps_onDatabase fun db => Portfolio.view_run_of_ne h)) fun _ =>
        hreply _
  all_goals exact hreply _

/-- Nor does a command that shows how the signals of another chat fared. -/
theorem keeps_signalStats_of_ne (chatType messageId : Option String) :
    Keeps (seenBy observer)
      (replyToCommand tables (event.services shortest other) chatId .signalStats chatType
        messageId) := by
  refine .bind (fun _ => rfl) fun now => .bind (fun _ => rfl) fun card =>
    .bind (keeps_reply_of_ne h _) fun _ => ?_
  exact .tryCatch (.bind (fun _ => rfl) fun _ => keeps_signals_of_ne h _) fun _ => .pure ()

end Others

/-- **A message leaves no trace of a portfolio** with a chat that did not write it, or did not
write it in private. -/
theorem agreeBetween_replyToMessage {text : String} {chatType : Option String}
    (messageId : Option String) (hpublic : observer = chatId → isPrivate tables chatType = false)
    {w w' : World (SystemState ρ κ)} (h : Agree observer w w') :
    AgreeBetween observer
      (replyToMessage tables (event.services shortest other) chatId text chatType messageId w).2
      (replyToMessage tables (event.services shortest other) chatId text chatType messageId
        w').2 := by
  have herror : ∀ error, Respects (Agree observer)
      (handleReplyError (event.services shortest other) chatId error) := fun _ => respects_reply _
  unfold replyToMessage
  generalize Commands.parse tables text = command
  by_cases hcommand : isPortfolioCommand command = true
  · by_cases hchat : observer = chatId
    · -- Its own portfolio command is refused before anything is read.
      have hrefused : replyToCommand tables (event.services shortest other) chatId command chatType
          messageId = reply (event.services shortest other) chatId .portfolioGroupRefused := by
        unfold replyToCommand replyToPortfolioCommand
        rw [if_pos hcommand, hpublic hchat]
        rfl
      rw [hrefused]
      exact (((respects_reply _).tryCatch herror) w w' h).1.between
    · -- That of another chat may go differently in the two runs, unseen.
      have hkeeps : Keeps (Seen.between ∘ seenBy observer)
          ((replyToCommand tables (event.services shortest other) chatId command chatType
            messageId).tryCatch (handleReplyError (event.services shortest other) chatId)) := by
        refine .tryCatch ?_ fun error => (keeps_reply_of_ne hchat _).comp Seen.between
        unfold replyToCommand
        rw [if_pos hcommand]
        exact keeps_replyToPortfolioCommand_of_ne hchat command chatType messageId
      exact .of_keeps hkeeps h.between
  · rw [Bool.not_eq_true] at hcommand
    by_cases hstats : command = .signalStats ∧ observer ≠ chatId
    · -- So may the scorecard of another chat, whose signals need not be the same.
      obtain ⟨rfl, hchat⟩ := hstats
      have hkeeps : Keeps (seenBy observer)
          ((replyToCommand tables (event.services shortest other) chatId .signalStats chatType
            messageId).tryCatch (handleReplyError (event.services shortest other) chatId)) :=
        (keeps_signalStats_of_ne hchat chatType messageId).tryCatch fun _ =>
          keeps_reply_of_ne hchat _
      exact (Agree.of_keeps hkeeps h).between
    · have hown : command = .signalStats → observer = chatId := fun hc => by
        by_contra hchat
        exact hstats ⟨hc, hchat⟩
      exact (((respects_replyToCommand chatType messageId hcommand hown).tryCatch herror) w w'
        h).1.between

/-! ### Digests -/

/-- A digest run counts, which nobody sees. -/
abbrev AgreeRun (observer : String) (s s' : World (SystemState ρ κ) × DigestRunSummary) : Prop :=
  Agree observer s.1 s'.1

/-- What is seen while a digest is sent. -/
abbrev seenRun (observer : String) (s : World (SystemState ρ κ) × DigestRunSummary) : Seen ρ κ :=
  seenBy observer s.1

/-- A lookup more. -/
def Seen.lookedUp (seen : Seen ρ κ) : Seen ρ κ := { seen with lookups := seen.lookups + 1 }

theorem agreeRun_of_moves {x y : DigestAction (SystemState ρ κ) α}
    (hx : Moves (seenRun observer) Seen.lookedUp x)
    (hy : Moves (seenRun observer) Seen.lookedUp y)
    {s s' : World (SystemState ρ κ) × DigestRunSummary} (h : AgreeRun observer s s') :
    AgreeRun observer (x s).2 (y s').2 :=
  ⟨(hx s).trans ((congrArg Seen.lookedUp h.1).trans (hy s').symm),
    (congrArg Seen.rows (hx s)).trans h.2⟩

variable {trades : List PortfolioTrade} {subscriber : Subscriber} {casing : Prices.Casing}
  {signalsBySymbol : Option (InsertionMap String CoinSignal)} {cronTrackingLine : Option ℤ}
  {time : ℤ}

theorem keeps_heldSymbols :
    Keeps (seenRun observer)
      (heldSymbols trades : DigestAction (SystemState ρ κ) (Option (List String))) := by
  rw [heldSymbols]
  cases Portfolio.computeHoldings trades with
  | ok holdings => exact .pure _
  | error error => exact .bind (.modifySecond _) fun _ => .pure _

theorem total_heldSymbols :
    (heldSymbols trades : DigestAction (SystemState ρ κ) (Option (List String))).Total := by
  rw [heldSymbols]
  cases Portfolio.computeHoldings trades with
  | ok holdings => exact .pure _
  | error error => exact .bind (.modifySecond _) fun _ => .pure _

theorem respects_heldSymbols :
    Respects (AgreeRun observer)
      (heldSymbols trades : DigestAction (SystemState ρ κ) (Option (List String))) := by
  rw [heldSymbols]
  cases Portfolio.computeHoldings trades with
  | ok holdings => exact .pure rfl
  | error error => exact .bind_same (.modifySecond _ _) fun _ => .pure rfl

theorem respects_portfolioPart (held : Option (List String)) (coins : List CoinMarketData) :
    Respects (AgreeRun observer)
      (portfolioPart casing (event.services shortest other) trades held coins) := by
  cases held with
  | none => exact .pure rfl
  | some held =>
    rw [portfolioPart, portfolioSection]
    split_ifs
    · exact .pure rfl
    refine .tryCatch (.bind_same (.ofExcept _) fun holdings => .bind_same (Alike.first ?_)
      fun text => .bind_same (.modifySecond _ _) fun _ => .pure rfl)
      fun _ => .bind_same (.modifySecond _ _) fun _ => .pure rfl
    exact fun _ _ hw => ⟨hw, .refl _⟩

theorem keeps_portfolioPart (held : Option (List String)) (coins : List CoinMarketData) :
    Keeps (seenRun observer)
      (portfolioPart casing (event.services shortest other) trades held coins) := by
  cases held with
  | none => exact .pure _
  | some held =>
    rw [portfolioPart, portfolioSection]
    split_ifs
    · exact .pure _
    exact .tryCatch (.bind (.ofExcept _) fun holdings => .bind (fun _ => rfl)
      fun text => .bind (.modifySecond _) fun _ => .pure _)
      fun _ => .bind (.modifySecond _) fun _ => .pure _

theorem respects_signalsPart :
    Respects (AgreeRun observer)
      (signalsPart (event.services shortest other) subscriber signalsBySymbol) := by
  cases signalsBySymbol with
  | none => exact .pure rfl
  | some signalsBySymbol =>
    rw [signalsPart]
    split_ifs
    · exact .pure rfl
    refine .tryCatch (.bind_same (Alike.first ?_) fun text => .pure rfl)
      fun _ => .bind_same (.modifySecond _ _) fun _ => .pure rfl
    exact fun _ _ hw => ⟨hw, .refl _⟩

theorem keeps_signalsPart :
    Keeps (seenRun observer)
      (signalsPart (event.services shortest other) subscriber signalsBySymbol) := by
  cases signalsBySymbol with
  | none => exact .pure _
  | some signalsBySymbol =>
    rw [signalsPart]
    split_ifs
    · exact .pure _
    exact .tryCatch (.bind (fun _ => rfl) fun text => .pure _)
      fun _ => .bind (.modifySecond _) fun _ => .pure _

theorem respects_afterDigest (signals : SignalsPart) (delivered : Bool) :
    Respects (AgreeRun observer)
      (afterDigest (event.services shortest other) observer signals time delivered) := by
  cases delivered with
  | false => exact .modifySecond _ _
  | true =>
    refine .bind_same (.modifySecond _ _) fun _ => ?_
    split_ifs
    · refine .bind_same (.modifySecond _ _) fun _ => .tryCatch ?_ fun _ => .pure rfl
      exact .bind_same (respects_signals _).first fun _ => (respects_signals _).first
    · exact .pure rfl

theorem keeps_afterDigest_of_ne (h : observer ≠ chatId) (signals : SignalsPart)
    (delivered : Bool) :
    Keeps (seenRun observer)
      (afterDigest (event.services shortest other) chatId signals time delivered) := by
  cases delivered with
  | false => exact .modifySecond _
  | true =>
    refine .bind (.modifySecond _) fun _ => ?_
    split_ifs
    · refine .bind (.modifySecond _) fun _ => .tryCatch ?_ fun _ => .pure _
      exact .bind (keeps_signals_of_ne h _).first fun _ => (keeps_signals_of_ne h _).first
    · exact .pure _

/-- The chat's own turn goes the same way if its trades are the same. -/
theorem respects_sendToSubscriber (h : observer = subscriber.chatId) :
    Respects (AgreeRun observer)
      (sendToSubscriber casing (event.services shortest other) subscriber trades signalsBySymbol
        time cronTrackingLine) := by
  subst h
  refine .tryCatch (.bind_same respects_heldSymbols fun held =>
    .bind_same (respects_prices _).first fun coins => ?_) fun _ => .modifySecond _ _
  dsimp only
  split_ifs
  · exact .throw _
  · exact .bind_same (respects_portfolioPart _ _) fun portfolio =>
      .bind_same respects_signalsPart fun signals =>
        .bind_same (respects_send _).first fun delivered => respects_afterDigest _ _

/-- **The turn of another chat** is seen as one lookup, whatever its trades are. -/
theorem moves_sendToSubscriber_of_ne (h : observer ≠ subscriber.chatId) :
    Moves (seenRun observer) Seen.lookedUp
      (sendToSubscriber casing (event.services shortest other) subscriber trades signalsBySymbol
        time cronTrackingLine) := by
  refine .tryCatch (.after keeps_heldSymbols total_heldSymbols fun held => ?_)
    fun _ => .modifySecond _
  refine .bind (fun _ => rfl) fun coins => ?_
  dsimp only
  split_ifs
  · exact .throw _
  · exact .bind (keeps_portfolioPart _ _) fun portfolio => .bind keeps_signalsPart fun signals =>
      .bind (keeps_send_of_ne h _).first fun delivered => keeps_afterDigest_of_ne h _ _

theorem total_sendToSubscriber :
    (sendToSubscriber casing (event.services shortest other) subscriber trades signalsBySymbol
      time cronTrackingLine).Total := .tryCatch fun _ => .modifySecond _

/-- The trades loaded for a digest are the same for the chat: it has none. -/
theorem alike_loadTrades (subscribers : List Subscriber) :
    Alike (AgreeRun observer)
      (fun trades trades' => (trades.get? observer).getD [] = (trades'.get? observer).getD [])
      (loadTrades (event.services shortest other) subscribers)
      (loadTrades (event.services shortest other) subscribers) := by
  refine .tryCatch (Alike.first ?_) fun _ => .bind_same (.modifySecond _ _) fun _ => .pure rfl
  rintro w w' ⟨hseen, hrows⟩
  have hnone : ∀ (w : World (SystemState ρ κ)), (seenBy observer w).rows = ([], []) →
      ∀ chatIds, (w.services.database.listTradesForChats chatIds).get? observer = none := by
    intro w hrows chatIds
    rw [Portfolio.get?_listTradesForChats, if_neg]
    exact fun hmem => hmem.2 (congrArg Prod.fst hrows)
  refine ⟨?_, ?_⟩
  · exact Agree.of_keeps (keeps_onDatabase (x := fun db =>
      (.ok (db.listTradesForChats (subscribers.map (·.chatId))), db)) fun _ => rfl) ⟨hseen, hrows⟩
  · change SameEnd _ (onDatabase event.database _ w.services).1
      (onDatabase event.database _ w'.services).1
    cases event.database with
    | answerLost | failed => rfl
    | answered =>
      change ((w.services.database.listTradesForChats _).get? observer).getD [] =
        ((w'.services.database.listTradesForChats _).get? observer).getD []
      rw [hnone w hrows, hnone w' (hseen ▸ hrows)]

theorem respects_loadSignals (subscribers : List Subscriber) :
    Respects (AgreeRun observer)
      (loadSignals (event.services shortest other) subscribers time) := by
  rw [loadSignals]
  split_ifs
  · exact .pure rfl
  · exact .tryCatch (.bind_same (respects_rest _).first fun signals => .pure rfl)
      fun _ => .bind_same (.modifySecond _ _) fun _ => .pure rfl

/-- **A digest run shows a chat nothing of the portfolios of others.** -/
theorem respects_digestRun :
    Respects (AgreeRun observer)
      (digestRun casing (event.services shortest other) time cronTrackingLine) := by
  refine .bind_same (respects_rest _).first fun subscribers =>
    .bind_same (.modifySecond _ _) fun _ => .bind (alike_loadTrades subscribers)
      fun trades trades' htrades => .bind_same (respects_mirror _).first fun _ =>
        .bind_same (respects_loadSignals subscribers) fun signals => .forEach fun subscriber _ => ?_
  by_cases h : observer = subscriber.chatId
  · rw [← h, htrades]
    exact respects_sendToSubscriber h
  · -- In the two runs the trades of another chat may differ.
    have hmoves : ∀ trades, Moves (seenRun observer) Seen.lookedUp
        (sendToSubscriber casing (event.services shortest other) subscriber trades signals time
          cronTrackingLine) := fun _ => moves_sendToSubscriber_of_ne h
    exact .of_total (fun _ _ => agreeRun_of_moves (hmoves _) (hmoves _)) total_sendToSubscriber
      total_sendToSubscriber

/-! ### Runs -/

/-- **An event** that is no private message of the chat leaves no trace of a portfolio with it. -/
theorem agreeBetween_handle (hempty : tables.toUpperCase "" = "")
    (hpublic : ¬event.MarkedPrivate tables observer) {w w' : World (SystemState ρ κ)}
    (h : AgreeBetween observer w w') :
    AgreeBetween observer (handle tables shortest other event w)
      (handle tables shortest other event w') := by
  have hstart : Agree observer { w with services := { w.services with lookups := 0 } }
      { w' with services := { w'.services with lookups := 0 } } := h
  rw [handle, handle]
  cases htrigger : event.trigger with
  | webhook payload =>
    dsimp only
    rw [handleWebhook]
    cases htext : payload.text with
    | none => exact hstart.between
    | some text =>
      cases hchat : payload.chatId with
      | none => exact hstart.between
      | some chatId =>
        refine agreeBetween_replyToMessage _ (fun hown => ?_) hstart
        rw [isPrivate, decide_eq_false_iff_not]
        cases htype : (payload.message.bind WebhookMessage.chat).bind WebhookChat.chatType with
        | none =>
          -- A payload without a chat type is taken for no private one.
          rw [Option.getD_none, hempty]
          decide
        | some chatType =>
          exact fun hprivate => hpublic
            ⟨payload, htrigger, hown ▸ hchat, chatType, htype, hprivate⟩
  | digest cronTrackingEnabled =>
    dsimp only
    rw [snd_sendDailyDigest, snd_sendDailyDigest]
    have hrun : ∀ line, Respects (AgreeRun observer)
        ((digestRun tables.toCasing (event.services shortest other) event.now line).tryCatch
          fun _ => pure ()) := fun line => respects_digestRun.tryCatch fun _ => .pure rfl
    exact (hrun _ _ _ hstart).1.between

variable (shortest other) in
theorem agreeBetween_handleAll (hempty : tables.toUpperCase "" = "") {events : List BotEvent}
    (hpublic : ∀ event ∈ events, ¬event.MarkedPrivate tables observer)
    {w w' : World (SystemState ρ κ)} (h : AgreeBetween observer w w') :
    AgreeBetween observer (handleAll tables shortest other events w)
      (handleAll tables shortest other events w') := by
  induction events generalizing w w' with
  | nil => exact h
  | cons event events ih =>
    exact ih (fun e he => hpublic e (List.mem_cons_of_mem event he))
      (agreeBetween_handle hempty (hpublic event List.mem_cons_self) h)

end Chats

/-- **A chat that never wrote in private knows nothing of portfolios.** In every run it keeps
being without a row in the portfolio's database, and what it is sent is what it would have been
sent with other portfolios in other chats. -/
theorem public_chat_never_sees_portfolio {ρ κ : Type} {tables : UnicodeTables}
    (hempty : tables.toUpperCase "" = "") (shortest : ShortestDigits)
    (other : OtherServices ρ κ) {events : List BotEvent} {chatId : String}
    (hpublic : ∀ event ∈ events, ¬event.MarkedPrivate tables chatId)
    (w : World (SystemState ρ κ)) (database : Database)
    (hrows : w.services.database.view chatId = ([], []))
    (hrows' : database.view chatId = ([], [])) :
    (handleAll tables shortest other events w).services.database.view chatId = ([], []) ∧
    messagesTo chatId (handleAll tables shortest other events
        { w with services := { w.services with database } }).sent =
      messagesTo chatId (handleAll tables shortest other events w).sent := by
  have hstart : AgreeBetween chatId w { w with services := { w.services with database } } := by
    refine ⟨?_, hrows⟩
    change ({ (seenBy chatId w).between with
      rows := w.services.database.view chatId } : Seen ρ κ) =
        { (seenBy chatId w).between with rows := database.view chatId }
    rw [hrows, hrows']
  obtain ⟨hseen, hend⟩ := agreeBetween_handleAll shortest other hempty hpublic hstart
  exact ⟨hend, (congrArg Seen.messages hseen).symm⟩

/-! ### A group and a private chat -/

/-- Two subscribers, and services that do nothing else. -/
def quietServices : OtherServices Unit Unit where
  listActive := pure [⟨"group", ["btc"], true, 0⟩, ⟨"private", ["eth"], true, 0⟩]
  getTopMarkets := .throw .unexpected
  subscribe _ _ := .throw .unexpected
  unsubscribe _ := .throw .unexpected
  findActiveByChatId _ := .throw .unexpected
  updateWatchlist _ _ := .throw .unexpected
  createAlert _ _ _ _ := .throw .unexpected
  listAlertsByChat _ := .throw .unexpected
  deleteAlertByIndex _ _ := .throw .unexpected
  getSignalFor _ _ := .throw .unexpected
  getSignalsForSymbols _ _ := .throw .unexpected
  backtest _ _ := .throw .unexpected
  setEnabled _ _ := .throw .unexpected
  setWatchlist _ _ := .throw .unexpected
  removeWatchlist _ := .throw .unexpected
  replaceWatchlists _ := pure ()
  scorecard _ _ _ := .error .unexpected
  recordSentVerdicts _ _ := pure ()
  recordUsage _ _ := pure ()
  formatSignalDigestSection _ := .ok "Tín hiệu"
  formatPortfolioDigestSection _ _ := .ok "Danh mục"

/-- An event at a time when all goes well and every coin is at one dollar. -/
def smoothly (trigger : Trigger) : BotEvent where
  trigger
  now := 0
  prices _ symbols := .ok (symbols.map fun symbol => ⟨symbol, symbol, symbol, 1, none, none⟩)
  database := .answered
  delivered _ _ := true

def asks (chatId : String) (chatType : Option String) (text : String) : BotEvent :=
  smoothly (.webhook ⟨some ⟨none, some text, some ⟨chatId, chatType⟩⟩⟩)

/-- The group asks in vain, the other chat buys, and both get the digest. -/
def groupAndPrivate : List BotEvent :=
  [asks "group" none "/danhmuc", asks "private" (some "private") "/danhmuc mua eth 1 1",
    smoothly (.digest false)]

def ethBought : Portfolio.TradeColumns := ⟨"private", 1, .buy, "eth", 100000000, 100000000, 0, none⟩

theorem ethBought_checks : ethBought.Checks := by decide

theorem not_markedPrivate_group :
    ∀ event ∈ groupAndPrivate, ¬event.MarkedPrivate Commands.asciiTables "group" := by
  intro event he
  simp only [groupAndPrivate, List.mem_cons, List.not_mem_nil, or_false] at he
  rcases he with rfl | rfl | rfl <;> rintro ⟨payload, htrigger, hchat, chatType, htype, -⟩ <;>
    cases htrigger
  · cases htype
  · exact absurd hchat (by decide)

theorem public_chat_never_sees_portfolio_group :
    (handleAll Commands.asciiTables Commands.exactDouble quietServices groupAndPrivate
        ⟨⟨{}, fun _ => (), (), 0⟩, []⟩).services.database.view "group" = ([], []) ∧
    messagesTo "group" (handleAll Commands.asciiTables Commands.exactDouble quietServices
        groupAndPrivate ⟨⟨⟨[⟨ethBought, ethBought_checks⟩], []⟩, fun _ => (), (), 0⟩, []⟩).sent =
      messagesTo "group" (handleAll Commands.asciiTables Commands.exactDouble quietServices
        groupAndPrivate ⟨⟨{}, fun _ => (), (), 0⟩, []⟩).sent :=
  public_chat_never_sees_portfolio (by decide +kernel) Commands.exactDouble quietServices
    not_markedPrivate_group ⟨⟨{}, fun _ => (), (), 0⟩, []⟩ ⟨[⟨ethBought, ethBought_checks⟩], []⟩ rfl
    (by decide)

end Controllers

end CryptoZaloBot
