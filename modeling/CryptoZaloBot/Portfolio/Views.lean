import CryptoZaloBot.Portfolio.Service

/-!
# Reading the portfolio

The calls of `PortfolioService` that change no trade. Showing a portfolio is counted
(`CryptoZaloBot.Portfolio.Database.listTrades`), a page of its history is not, and the daily
digest reads the trades of all its chats in one query.

All of them are keyed by the chat: what one chat is shown does not depend on the rows of others
(`CryptoZaloBot.Portfolio.get?_listTradesForChats`), and counting changes the counters of one
chat (`CryptoZaloBot.Portfolio.view_listTrades_of_ne`).
-/

namespace CryptoZaloBot

namespace Portfolio

/-- Trades per `/danhmuc lichsu` page. -/
def historyPageSize : ℕ := 20

/-- How close together two identical trades must be for the reply to flag the second one. -/
def twinTradeWindowMs : ℤ := 2 * 60 * 1000

structure TradePage where
  /-- Newest first. -/
  trades : List PortfolioTrade
  total : ℕ
  /-- 1-based. -/
  page : ℕ
  pageCount : ℕ
  deriving DecidableEq

/-- The usage rows after one more view is counted. -/
def countView (chatId : String) (day : ℤ) : List UsageRow → List UsageRow
  | [] => [⟨chatId, day, 1, 0⟩]
  | u :: us =>
    if u.chatId = chatId ∧ u.day = day then { u with views := u.views + 1 } :: us
    else u :: countView chatId day us

/-- What `INSERT INTO portfolio_usage` needs: the chat id fits the column and the counter has
room for one more. -/
def ViewFits (c : Context) (usage : List UsageRow) : Prop :=
  (1 ≤ c.chatId.length ∧ c.chatId.length ≤ 64) ∧
  ∀ u ∈ usage, u.day = c.day → u.views < maxInteger

instance (c : Context) (usage : List UsageRow) : Decidable (ViewFits c usage) := by
  unfold ViewFits
  infer_instance

/-- **`listTrades`**: every trade of the chat, oldest first; counts as a view. -/
def Database.listTrades (db : Database) (c : Context) :
    Except SqlError (List PortfolioTrade) × Database :=
  if ViewFits c (db.usageOf c.chatId) then
    (.ok ((orderBySeq (db.tradesOf c.chatId)).map toTrade),
      { db with usage := countView c.chatId c.day db.usage })
  else (.error .rejected, db)

/-- **`listTradesPage`**: one page of `/danhmuc lichsu`. -/
def Database.listTradesPage (db : Database) (chatId : String) (page : ℕ) : TradePage :=
  let rows := (orderBySeq (db.tradesOf chatId)).reverse
  let offset := (page - 1) * historyPageSize
  { trades := ((rows.drop offset).take historyPageSize).map toTrade
    total := rows.length
    page := page
    pageCount := (rows.length + historyPageSize - 1) / historyPageSize }

/-- **`listTradesForChats`**: chats with no trade are absent from the map. The database may list
the chats in another order, which the map does not show. -/
def Database.listTradesForChats (db : Database) (chatIds : List String) :
    InsertionMap String (List PortfolioTrade) :=
  InsertionMap.ofList (chatIds.filterMap fun chatId =>
    (if db.tradesOf chatId = [] then none
      else some ((orderBySeq (db.tradesOf chatId)).map toTrade)).map fun trades => (chatId, trades))

/-- **`findRecentTwin`**: the trade just before this one, if it is identical and not long ago. -/
def findRecentTwin (trades : List PortfolioTrade) (trade : PortfolioTrade) :
    Option PortfolioTrade :=
  (trades.filter (·.seq < trade.seq)).getLast?.filter fun previous =>
    previous.side = trade.side && previous.symbol = trade.symbol &&
      toQuantityUnits previous.quantity = toQuantityUnits trade.quantity &&
      previous.priceUsd = trade.priceUsd && trade.createdAt - previous.createdAt ≤ twinTradeWindowMs

variable {db : Database} {chatId : String}

theorem filter_countView_of_ne {chatId' : String} (h : chatId' ≠ chatId) (day : ℤ)
    (usage : List UsageRow) :
    (countView chatId day usage).filter (·.chatId = chatId') =
      usage.filter (·.chatId = chatId') := by
  induction usage with
  | nil => simp [countView, h.symm]
  | cons u us ih =>
    rw [countView]
    split_ifs with hu
    · have hne : u.chatId ≠ chatId' := fun he => h (he.symm.trans hu.1)
      simp [hne]
    · rw [List.filter_cons, List.filter_cons, ih]

/-- **Counting a view concerns one chat only.** -/
theorem view_listTrades_of_ne {c : Context} (h : chatId ≠ c.chatId) :
    (db.listTrades c).2.view chatId = db.view chatId := by
  rw [Database.listTrades]
  split_ifs
  · refine Prod.ext rfl ?_
    exact filter_countView_of_ne h c.day db.usage
  · rfl

theorem get?_listTradesForChats (chatIds : List String) :
    (db.listTradesForChats chatIds).get? chatId =
      if chatId ∈ chatIds ∧ db.tradesOf chatId ≠ [] then
        some ((orderBySeq (db.tradesOf chatId)).map toTrade)
      else none := by
  rw [Database.listTradesForChats, InsertionMap.get?_ofList_filterMap]
  by_cases hmem : chatId ∈ chatIds <;> by_cases hnil : db.tradesOf chatId = [] <;> simp [hmem, hnil]

end Portfolio

end CryptoZaloBot
