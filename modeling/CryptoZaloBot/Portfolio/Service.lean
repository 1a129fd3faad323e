import CryptoZaloBot.Base.System
import CryptoZaloBot.Portfolio.Store

/-!
# The portfolio service

`PortfolioService`: the commands that write, as the statements they send and the
reply they make of the rows that come back.

A rule that refuses a trade is checked by the database, in the statement that would
have inserted it, and the service then works out *which* rule it was from the trades
read in the same transaction (`CryptoZaloBot.Portfolio.refusalReason`). The two
have to agree, and nothing but the text of the two keeps them together.

Transactions here run one after the other (`CryptoZaloBot.Portfolio.store`).
-/

namespace CryptoZaloBot

namespace Portfolio

/-! ### Errors and replies -/

/-- Which limit was reached. -/
inductive LimitKind where
  | trades
  | coins
  deriving DecidableEq

/-- The errors a caller of the service can see. -/
inductive PortfolioError where
  /-- A sell larger than what the chat holds. -/
  | oversell (symbol heldQuantity : String)
  /-- Too many trades, or a buy of one coin too many. -/
  | limit (kind : LimitKind) (limit : ℕ)
  /-- No trade with that number in this chat. -/
  | tradeNotFound (index : ℕ)
  /-- Deleting this trade would turn a later sell into an oversell. -/
  | deleteWouldOversell (index : ℕ) (symbol : String)
  /-- The database failed, or the stored trades could not be replayed. -/
  | unavailable
  deriving DecidableEq

structure RecordedTrade where
  /-- What `find` finds in `trades`. -/
  trade : Option PortfolioTrade
  /-- Every trade of the chat after this one was recorded, oldest first. -/
  trades : List PortfolioTrade
  /-- This message had already recorded the trade. -/
  duplicate : Bool
  deriving DecidableEq

structure DeletedTrade where
  trade : PortfolioTrade
  /-- Every trade left in the chat, oldest first. -/
  trades : List PortfolioTrade
  deriving DecidableEq

inductive Reply where
  | recorded (result : RecordedTrade)
  | deleted (result : DeletedTrade)
  | cleared (count : ℕ)
  deriving DecidableEq

/-! ### Commands -/

/-- The arguments of `recordTrade`, less the chat. -/
structure RecordArgs where
  side : TradeSide
  symbol : String
  quantity : DecimalText
  priceUsd : ℚ
  sourceMessageId : Option String

inductive Command where
  | recordTrade (args : RecordArgs)
  | deleteTrade (index : ℕ)
  | clearTrades

/-- **One call of the service**: the chat it is for, when its transaction starts, and
what it asks for. -/
structure Call extends Context where
  command : Command

/-- An id the column could not hold is not used at all. -/
def usedMessageId : Option String → Option String
  | some m => if m ≠ "" ∧ utf16Length m ≤ maxSourceMessageIdLength then some m else none
  | none => none

def RecordArgs.newTrade (args : RecordArgs) : NewTrade where
  side := args.side
  symbol := args.symbol
  quantity := args.quantity
  priceUsd := args.priceUsd
  messageId := usedMessageId args.sourceMessageId

/-- **The statements of a transaction**: the chat's lock comes first. -/
def Command.statements : Command → List Statement
  | .recordTrade args =>
    [.lockChat, .insertTrade args.newTrade, .selectTrades, .selectRecorded args.newTrade.messageId]
  | .deleteTrade index => [.lockChat, .deleteTrade index, .selectTrades]
  | .clearTrades => [.lockChat, .deleteTrades]

/-! ### Replies -/

def toTrade (row : TradeRow) : PortfolioTrade where
  seq := row.seq
  side := row.side
  symbol := row.symbol
  quantity := numericText row.quantity.toNat
  priceUsd := numericOfUnits row.priceUsd
  createdAt := row.createdAt

/-- **Which rule refused a trade**, from the trades read under the same lock. -/
def refusalReason (trades : List PortfolioTrade) (side : TradeSide) (symbol : String) :
    Except InconsistentTradesError PortfolioError :=
  if maxTradesPerChat ≤ trades.length then .ok (.limit .trades maxTradesPerChat)
  else
    match computeHoldings trades with
    | .error error => .error error
    | .ok holdings =>
      match side with
      | .sell => .ok (.oversell symbol (heldQuantityOf holdings symbol))
      | .buy => .ok (.limit .coins maxHeldCoins)

/-- `throw this.refusalReason(…)`, seen from outside the guard: domain errors go
through, anything else is `unavailable`. -/
def thrown : Except InconsistentTradesError PortfolioError → PortfolioError
  | .ok error => error
  | .error _ => .unavailable

/-- The reply of `recordTrade`. -/
def finishRecord (args : RecordArgs) (inserted : List ℕ) (rows : List TradeRow)
    (alreadyRecorded : List ℕ) : Except PortfolioError Reply :=
  let trades := rows.map toTrade
  match inserted with
  | [] =>
    match alreadyRecorded with
    | seq :: _ => .ok (.recorded ⟨trades.find? (·.seq = seq), trades, true⟩)
    | [] => .error (thrown (refusalReason trades args.side args.symbol))
  | seq :: _ => .ok (.recorded ⟨trades.find? (·.seq = seq), trades, false⟩)

/-- The reply of `deleteTrade`. -/
def finishDelete (index : ℕ) (deleted rows : List TradeRow) : Except PortfolioError Reply :=
  let trades := rows.map toTrade
  match deleted with
  | row :: _ => .ok (.deleted ⟨toTrade row, trades⟩)
  | [] =>
    match trades.find? (·.seq = index) with
    | some kept => .error (.deleteWouldOversell index kept.symbol)
    | none => .error (.tradeNotFound index)

/-- What a command makes of the rows its statements returned. -/
def Command.finish : Command → List Rows → Except PortfolioError Reply
  | .recordTrade args, [_, .seqs inserted, .trades rows, .seqs alreadyRecorded] =>
    finishRecord args inserted rows alreadyRecorded
  | .deleteTrade index, [_, .trades deleted, .trades rows] => finishDelete index deleted rows
  | .clearTrades, [_, .seqs deleted] => .ok (.cleared deleted.length)
  | _, _ => .error .unavailable

/-! ### One call after the other -/

/-- **One call, alone**: an error of the database undoes everything. -/
def Database.run (db : Database) (call : Call) : Database × Except PortfolioError Reply :=
  match execAll call.toContext db call.command.statements with
  | .error _ => (db, .error .unavailable)
  | .ok (ws, rs) => (db.applyWrites ws, call.command.finish rs)

/-- **The store as its callers see it** when their calls do not overlap. -/
def store : System Database Call (Call × Except PortfolioError Reply) where
  legal _ _ := True
  next db call := (db.run call).1
  out db call := [(call, (db.run call).2)]

theorem store_run (db : Database) (calls : List Call) : store.Run db calls := by
  induction calls generalizing db with
  | nil => trivial
  | cons call calls ih => exact ⟨trivial, ih _⟩

/-! ### What a call does -/

section Calls

variable {db : Database} {context : Context}

/-- A trade the `HAVING` clause refuses: nothing is written. -/
theorem run_recordTrade_refused {args : RecordArgs}
    (h : ¬havingClause (db.tradesOf context.chatId) args.newTrade) :
    db.run ⟨context, .recordTrade args⟩ =
      (db, finishRecord args [] (orderBySeq (db.tradesOf context.chatId))
        ((alreadyRecorded (db.tradesOf context.chatId) args.newTrade.messageId).map (·.seq))) := by
  simp [Database.run, Command.statements, execAll, exec, h, Command.finish]

/-- A trade the rules let through and the table does not: everything is undone. -/
theorem run_recordTrade_rejected {args : RecordArgs}
    (h : havingClause (db.tradesOf context.chatId) args.newTrade)
    (hno : ¬((newColumns context (db.tradesOf context.chatId) args.newTrade).Checks ∧
      Fresh (db.tradesOf context.chatId)
        (newColumns context (db.tradesOf context.chatId) args.newTrade) ∧
      CountFits (db.usageOf context.chatId) context.day)) :
    db.run ⟨context, .recordTrade args⟩ = (db, .error .unavailable) := by
  have hexec : exec context db (.insertTrade args.newTrade) = .error .rejected := by
    by_cases hc : (newColumns context (db.tradesOf context.chatId) args.newTrade).Checks
    · simp only [exec, if_pos h, dif_pos hc, if_neg (not_and.mp hno hc)]
    · simp only [exec, if_pos h, dif_neg hc]
  simp [Database.run, Command.statements, execAll, hexec]

/-- What the database is after a trade was written. -/
def Database.recorded (db : Database) (context : Context) (row : TradeRow) : Database :=
  db.applyWrites [.insertTrade row, .countWrite context.chatId context.day]

/-- **A trade that is written.** -/
theorem run_recordTrade_recorded {args : RecordArgs} (row : TradeRow)
    (h : havingClause (db.tradesOf context.chatId) args.newTrade)
    (hrow : row.toTradeColumns = newColumns context (db.tradesOf context.chatId) args.newTrade)
    (hfresh : Fresh (db.tradesOf context.chatId) row.toTradeColumns)
    (hcount : CountFits (db.usageOf context.chatId) context.day) :
    db.run ⟨context, .recordTrade args⟩ =
      (db.recorded context row, finishRecord args [row.seq]
        (orderBySeq ((db.recorded context row).tradesOf context.chatId))
        ((alreadyRecorded ((db.recorded context row).tradesOf context.chatId)
          args.newTrade.messageId).map (·.seq))) := by
  obtain ⟨columns, hc⟩ := row
  obtain rfl : columns = _ := hrow
  dsimp only at hfresh
  simp [Database.run, Command.statements, execAll, exec, h, hc, hfresh, hcount, Command.finish,
    Database.recorded]

/-- **A deletion**: of the trade with that number, or of nothing. -/
theorem run_deleteTrade (index : ℕ) :
    db.run ⟨context, .deleteTrade index⟩ =
      (db.applyWrites ((deletable (db.tradesOf context.chatId) index).map fun t =>
          .deleteTrade context.chatId t.seq),
        finishDelete index (deletable (db.tradesOf context.chatId) index)
          (orderBySeq ((db.applyWrites ((deletable (db.tradesOf context.chatId) index).map fun t =>
            .deleteTrade context.chatId t.seq)).tradesOf context.chatId))) := by
  simp [Database.run, Command.statements, execAll, exec, Command.finish]

theorem run_clearTrades :
    db.run ⟨context, .clearTrades⟩ =
      (db.applyWrites ((db.tradesOf context.chatId).map fun t =>
          .deleteTrade context.chatId t.seq),
        .ok (.cleared (db.tradesOf context.chatId).length)) := by
  simp [Database.run, Command.statements, execAll, exec, Command.finish]

theorem tradesOf_recorded {row : TradeRow} (h : row.chatId = context.chatId) :
    (db.recorded context row).tradesOf context.chatId = db.tradesOf context.chatId ++ [row] := by
  simp [Database.recorded, Database.applyWrites, Database.applyWrite, Database.tradesOf, h]

/-- Deleting some numbers of a chat leaves its other trades. -/
theorem tradesOf_deleteTrades (chatId : String) (targets : List TradeRow) :
    (db.applyWrites (targets.map fun t => .deleteTrade chatId t.seq)).tradesOf chatId =
      (db.tradesOf chatId).filter fun t => ∀ target ∈ targets, t.seq ≠ target.seq := by
  induction targets generalizing db with
  | nil => simp
  | cons target targets ih =>
    have hone : (db.applyWrite (.deleteTrade chatId target.seq)).tradesOf chatId =
        (db.tradesOf chatId).filter fun t => t.seq ≠ target.seq := by
      simp only [Database.tradesOf, Database.applyWrite, List.filter_filter]
      refine List.filter_congr fun t _ => ?_
      by_cases ht : t.chatId = chatId <;> simp [ht]
    have hrest := @ih (db.applyWrite (.deleteTrade chatId target.seq))
    rw [hone, List.filter_filter] at hrest
    refine hrest.trans (List.filter_congr fun t _ => ?_)
    simp [Bool.and_comm]

/-- **A call concerns its own chat only.** -/
theorem view_run_of_ne {call : Call} {chatId : String} (h : chatId ≠ call.chatId) :
    (db.run call).1.view chatId = db.view chatId := by
  rw [Database.run]
  cases hall : execAll call.toContext db call.command.statements with
  | error error => rfl
  | ok result =>
    refine view_applyWrites_of_ne (fun w hw => ?_) db
    rw [chatId_of_execAll hall w hw]
    exact h.symm

end Calls

/-- **What a call can do to the trades of its chat**: nothing, one trade more at the
end, one trade less, or no trade left. -/
inductive TradesStep (context : Context) (rows : List TradeRow) :
    Command → List TradeRow → Prop
  | same (command : Command) : TradesStep context rows command rows
  | inserted {args : RecordArgs} {row : TradeRow} (having : havingClause rows args.newTrade)
      (columns : row.toTradeColumns = newColumns context rows args.newTrade) :
      TradesStep context rows (.recordTrade args) (rows ++ [row])
  | deleted {index : ℕ} {target : TradeRow} (mem : target ∈ deletable rows index) :
      TradesStep context rows (.deleteTrade index) (rows.filter (·.seq ≠ index))
  | cleared : TradesStep context rows .clearTrades []

theorem tradesStep_run (db : Database) (call : Call) :
    TradesStep call.toContext (db.tradesOf call.chatId) call.command
      ((db.run call).1.tradesOf call.chatId) := by
  obtain ⟨context, command⟩ := call
  cases command with
  | recordTrade args =>
    by_cases h : havingClause (db.tradesOf context.chatId) args.newTrade
    · by_cases hok : (newColumns context (db.tradesOf context.chatId) args.newTrade).Checks ∧
        Fresh (db.tradesOf context.chatId)
          (newColumns context (db.tradesOf context.chatId) args.newTrade) ∧
        CountFits (db.usageOf context.chatId) context.day
      · obtain ⟨hc, hfresh, hcount⟩ := hok
        rw [run_recordTrade_recorded ⟨_, hc⟩ h rfl hfresh hcount,
          tradesOf_recorded rfl]
        exact .inserted h rfl
      · rw [run_recordTrade_rejected h hok]
        exact .same _
    · rw [run_recordTrade_refused h]
      exact .same _
  | deleteTrade index =>
    rw [run_deleteTrade, tradesOf_deleteTrades]
    -- The number is in use once at most, so that deleting by target is deleting by number.
    cases htargets : deletable (db.tradesOf context.chatId) index with
    | nil => simpa using .same _
    | cons target targets =>
      have hseq : ∀ t ∈ target :: targets, t.seq = index := by
        intro t ht
        rw [← htargets, deletable, List.mem_filter] at ht
        exact (of_decide_eq_true ht.2).1
      have hmem : target ∈ deletable (db.tradesOf context.chatId) index := by
        rw [htargets]
        exact List.mem_cons_self
      have hfilter : ((db.tradesOf context.chatId).filter fun t =>
          ∀ t' ∈ target :: targets, t.seq ≠ t'.seq) =
          (db.tradesOf context.chatId).filter (·.seq ≠ index) := by
        refine List.filter_congr fun t _ => decide_eq_decide.mpr ⟨fun h => ?_, fun h t' ht' => ?_⟩
        · exact hseq target List.mem_cons_self ▸ h target List.mem_cons_self
        · exact hseq t' ht' ▸ h
      rw [hfilter]
      exact .deleted hmem
  | clearTrades =>
    rw [run_clearTrades, tradesOf_deleteTrades]
    have hnil : ((db.tradesOf context.chatId).filter fun t =>
        ∀ target ∈ db.tradesOf context.chatId, t.seq ≠ target.seq) = [] :=
      List.filter_eq_nil_iff.mpr fun t ht h => of_decide_eq_true h t ht rfl
    rw [hnil]
    exact .cleared

end Portfolio

end CryptoZaloBot
