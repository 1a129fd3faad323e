import Mathlib.Data.Rat.Floor
import Mathlib.Tactic.Ring
import CryptoZaloBot.Portfolio.Units

/-!
# The portfolio in Postgres

The tables of migration `0002_create_portfolio.sql` and the statements of
`portfolio.service.ts`. Every write of the service is one transaction: a list of
statements, the first of which takes the chat's advisory lock.

A statement is given by what it does to the database it *sees*: the writes it makes
and the rows it returns (`CryptoZaloBot.Portfolio.exec`), or an error of the
database, which undoes the whole transaction. Sums and comparisons of `NUMERIC`s are
exact, so a stored quantity is an integer number of units of `10⁻⁸`.
-/

namespace CryptoZaloBot

namespace Portfolio

/-! ### Columns -/

/-- The largest `INTEGER` of Postgres. -/
def maxInteger : ℕ := 2147483647

/-- The bound of a `NUMERIC(21, 8)`, in units of `10⁻⁸`: it has 13 digits before the
point. -/
def numericBound : ℤ := 10 ^ 21

/-- A `NUMERIC(21, 8)` as a number. -/
def numericOfUnits (units : ℤ) : ℚ := units / quantityScale

/-- A numeric rounded to 8 places, half away from zero, in units of `10⁻⁸`. -/
def roundToUnits (x : ℚ) : ℤ :=
  if 0 ≤ x then ⌊x * quantityScale + 1 / 2⌋ else -⌊-x * quantityScale + 1 / 2⌋

/-- A `NUMERIC(21, 8)` as the driver hands it back: always eight decimals. -/
def numericText (units : ℕ) : String :=
  String.ofList (Decimal.ofNat (units / quantityScale) ++
    '.' :: (Decimal.ofNat (units % quantityScale)).leftpad maxQuantityDecimals '0')

/-- **A plain decimal text**, the only kind of quantity the parser lets through. -/
structure DecimalText where
  text : String
  plain : decimalPattern text.toList = true
  deriving DecidableEq

theorem decimalPattern_one : decimalPattern "1".toList = true := by decide

/-- `${quantity}::numeric`. -/
def DecimalText.numeric (q : DecimalText) : ℚ :=
  let whole := q.text.toList.takeWhile (· ≠ '.')
  let fraction := (q.text.toList.dropWhile (· ≠ '.')).drop 1
  Decimal.value whole + (Decimal.value fraction : ℚ) / 10 ^ fraction.length

theorem DecimalText.numeric_eq_value {q : DecimalText} {n : Decimal.Numeral}
    (h : q.text.toList = n.text) : q.numeric = n.value := by
  obtain ⟨hwhole, hfraction⟩ := n.parts_text
  rw [numeric]
  simp only [h, hwhole, hfraction]
  rfl

/-- The `length` of a JavaScript string: its number of UTF-16 code units. -/
def utf16Length (s : String) : ℕ := (s.toList.map fun c => if c.toNat < 0x10000 then 1 else 2).sum

/-- The columns of `portfolio_trades`. -/
structure TradeColumns where
  chatId : String
  seq : ℕ
  side : TradeSide
  symbol : String
  /-- In units of `10⁻⁸`. -/
  quantity : ℤ
  /-- In units of `10⁻⁸`. -/
  priceUsd : ℤ
  createdAt : ℤ
  /-- Zalo message id of the command that recorded this trade. -/
  sourceMessageId : Option String
  deriving DecidableEq

/-- **The column types and `CHECK`s** of `portfolio_trades`. -/
def TradeColumns.Checks (c : TradeColumns) : Prop :=
  (1 ≤ c.chatId.length ∧ c.chatId.length ≤ 64) ∧
  (0 < c.seq ∧ c.seq ≤ maxInteger) ∧
  (1 ≤ c.symbol.length ∧ c.symbol.length ≤ 20) ∧
  (0 < c.quantity ∧ c.quantity < numericBound) ∧
  (0 < c.priceUsd ∧ c.priceUsd < numericBound) ∧
  ∀ m ∈ c.sourceMessageId, 1 ≤ m.length ∧ m.length ≤ 128

instance (c : TradeColumns) : Decidable c.Checks := by
  unfold TradeColumns.Checks
  infer_instance

/-- **A row of `portfolio_trades`**: only rows that pass the checks exist. -/
structure TradeRow extends TradeColumns where
  checks : toTradeColumns.Checks
  deriving DecidableEq

/-- A row of `portfolio_usage`: what one chat did on one day. -/
structure UsageRow where
  chatId : String
  /-- Days since the epoch, in Vietnam time. -/
  day : ℤ
  views : ℕ
  writes : ℕ
  deriving DecidableEq

structure Database where
  trades : List TradeRow := []
  usage : List UsageRow := []
  deriving DecidableEq

/-! ### Writes -/

/-- What a statement does to the tables. -/
inductive Write where
  | insertTrade (row : TradeRow)
  | deleteTrade (chatId : String) (seq : ℕ)
  /-- `INSERT INTO portfolio_usage … ON CONFLICT … writes + 1`. -/
  | countWrite (chatId : String) (day : ℤ)
  deriving DecidableEq

/-- The usage rows after one more write is counted. -/
def countWrite (chatId : String) (day : ℤ) : List UsageRow → List UsageRow
  | [] => [⟨chatId, day, 0, 1⟩]
  | u :: us =>
    if u.chatId = chatId ∧ u.day = day then { u with writes := u.writes + 1 } :: us
    else u :: countWrite chatId day us

def Database.applyWrite (db : Database) : Write → Database
  | .insertTrade row => { db with trades := db.trades ++ [row] }
  | .deleteTrade chatId seq =>
    { db with trades := db.trades.filter fun t => ¬(t.chatId = chatId ∧ t.seq = seq) }
  | .countWrite chatId day => { db with usage := countWrite chatId day db.usage }

def Database.applyWrites (db : Database) (ws : List Write) : Database :=
  ws.foldl Database.applyWrite db

@[simp] theorem applyWrites_nil (db : Database) : db.applyWrites [] = db := rfl

/-- The trades of one chat. -/
def Database.tradesOf (db : Database) (chatId : String) : List TradeRow :=
  db.trades.filter (·.chatId = chatId)

/-- The usage rows of one chat. -/
def Database.usageOf (db : Database) (chatId : String) : List UsageRow :=
  db.usage.filter (·.chatId = chatId)

/-- How many writes were ever counted for a chat. -/
def Database.writesOf (db : Database) (chatId : String) : ℕ :=
  ((db.usageOf chatId).map UsageRow.writes).sum

/-! ### Queries -/

/-- `CASE WHEN side = 'buy' THEN quantity ELSE -quantity END`. -/
def TradeRow.signed (t : TradeRow) : ℤ :=
  match t.side with
  | .buy => t.quantity
  | .sell => -t.quantity

/-- The signed quantities of one symbol's rows. -/
def signedRows (symbol : String) (rows : List TradeRow) : List ℤ :=
  (rows.filter (·.symbol = symbol)).map TradeRow.signed

/-- **The balance of a symbol**: what its buys add up to, less its sells. -/
def balance (rows : List TradeRow) (symbol : String) : ℤ := (signedRows symbol rows).sum

/-- The symbols with a positive balance. -/
def heldSymbols (rows : List TradeRow) : List String :=
  ((rows.map (·.symbol)).dedup).filter fun symbol => 0 < balance rows symbol

/-- The held symbols other than one. -/
def otherHeld (rows : List TradeRow) (symbol : String) : List String :=
  (heldSymbols rows).filter (· ≠ symbol)

/-- `ORDER BY seq`. -/
def orderBySeq (rows : List TradeRow) : List TradeRow := rows.insertionSort fun a b => a.seq ≤ b.seq

/-- `COALESCE(MAX(seq), 0)`. -/
def maxSeq (rows : List TradeRow) : ℕ := (rows.map (·.seq)).foldl max 0

/-! ### Statements -/

/-- What `recordTrade` asks the database to insert. -/
structure NewTrade where
  side : TradeSide
  symbol : String
  quantity : DecimalText
  /-- `${price}::numeric`. -/
  priceUsd : ℚ
  /-- `${messageId}::text`, possibly `NULL`. -/
  messageId : Option String

inductive Statement where
  /-- `SELECT pg_advisory_xact_lock(hashtext(chat))`. -/
  | lockChat
  | insertTrade (trade : NewTrade)
  | selectTrades
  | selectRecorded (messageId : Option String)
  | deleteTrade (index : ℕ)
  | deleteTrades

/-- The rows a statement returns. -/
inductive Rows where
  | none
  | seqs (seqs : List ℕ)
  | trades (rows : List TradeRow)
  deriving DecidableEq

/-- The database refused a statement: a violated constraint or an overflow. -/
inductive SqlError where
  | rejected
  deriving DecidableEq

/-- The chat and the start time of a transaction. -/
structure Context where
  chatId : String
  /-- `now()`, in epoch milliseconds. -/
  now : ℤ

/-- `(now() AT TIME ZONE 'Asia/Ho_Chi_Minh')::date`. -/
def Context.day (c : Context) : ℤ := (c.now + 7 * 3600000) / 86400000

/-- A stored trade carries the message id; `NULL` equals nothing. -/
def alreadyRecorded (rows : List TradeRow) (messageId : Option String) : List TradeRow :=
  rows.filter fun t => messageId.isSome ∧ t.sourceMessageId = messageId

/-- **The `HAVING` clause** of the insert: no trade of this message yet, room for one
more, enough held to sell, and not one coin too many. -/
def havingClause (rows : List TradeRow) (trade : NewTrade) : Prop :=
  alreadyRecorded rows trade.messageId = [] ∧
  rows.length < maxTradesPerChat ∧
  (trade.side = .buy ∨ trade.quantity.numeric ≤ numericOfUnits (balance rows trade.symbol)) ∧
  (trade.side = .sell ∨ (otherHeld rows trade.symbol).length < maxHeldCoins)

instance (rows : List TradeRow) (trade : NewTrade) : Decidable (havingClause rows trade) := by
  unfold havingClause
  infer_instance

/-- The columns the insert writes. -/
def newColumns (c : Context) (rows : List TradeRow) (trade : NewTrade) : TradeColumns where
  chatId := c.chatId
  seq := maxSeq rows + 1
  side := trade.side
  symbol := trade.symbol
  quantity := roundToUnits trade.quantity.numeric
  priceUsd := roundToUnits trade.priceUsd
  createdAt := c.now
  sourceMessageId := trade.messageId

/-- The unique indexes: neither the chat's trade number nor its message id is taken. -/
def Fresh (rows : List TradeRow) (columns : TradeColumns) : Prop :=
  (∀ t ∈ rows, t.seq ≠ columns.seq) ∧ alreadyRecorded rows columns.sourceMessageId = []

instance (rows : List TradeRow) (columns : TradeColumns) : Decidable (Fresh rows columns) := by
  unfold Fresh
  infer_instance

/-- The day's counter has room for one more write. -/
def CountFits (usage : List UsageRow) (day : ℤ) : Prop :=
  ∀ u ∈ usage, u.day = day → u.writes < maxInteger

instance (usage : List UsageRow) (day : ℤ) : Decidable (CountFits usage day) := by
  unfold CountFits
  infer_instance

/-- `DELETE … WHERE seq = index AND NOT EXISTS (…)`: the trade with that number,
unless some running balance of its coin would be negative without it. -/
def deletable (rows : List TradeRow) (index : ℕ) : List TradeRow :=
  rows.filter fun target => target.seq = index ∧
    NeverNegative (signedRows target.symbol (orderBySeq (rows.filter (·.seq ≠ index))))

/-- **One statement**: the writes it makes and the rows it returns, on the database
it sees. -/
def exec (c : Context) (db : Database) : Statement → Except SqlError (List Write × Rows)
  | .lockChat => .ok ([], .none)
  | .insertTrade trade =>
    let rows := db.tradesOf c.chatId
    if havingClause rows trade then
      let columns := newColumns c rows trade
      if h : columns.Checks then
        if Fresh rows columns ∧ CountFits (db.usageOf c.chatId) c.day then
          .ok ([.insertTrade ⟨columns, h⟩, .countWrite c.chatId c.day], .seqs [columns.seq])
        else .error .rejected
      else .error .rejected
    else .ok ([], .seqs [])
  | .selectTrades => .ok ([], .trades (orderBySeq (db.tradesOf c.chatId)))
  | .selectRecorded messageId =>
    .ok ([], .seqs ((alreadyRecorded (db.tradesOf c.chatId) messageId).map (·.seq)))
  | .deleteTrade index =>
    let targets := deletable (db.tradesOf c.chatId) index
    .ok (targets.map fun t => .deleteTrade c.chatId t.seq, .trades targets)
  | .deleteTrades =>
    let rows := db.tradesOf c.chatId
    .ok (rows.map fun t => .deleteTrade c.chatId t.seq, .seqs (rows.map (·.seq)))

@[simp] theorem exec_lockChat (c : Context) (db : Database) :
    exec c db .lockChat = .ok ([], .none) := rfl

@[simp] theorem exec_selectTrades (c : Context) (db : Database) :
    exec c db .selectTrades = .ok ([], .trades (orderBySeq (db.tradesOf c.chatId))) := rfl

@[simp] theorem exec_selectRecorded (c : Context) (db : Database) (messageId : Option String) :
    exec c db (.selectRecorded messageId) =
      .ok ([], .seqs ((alreadyRecorded (db.tradesOf c.chatId) messageId).map (·.seq))) := rfl

@[simp] theorem exec_deleteTrades (c : Context) (db : Database) :
    exec c db .deleteTrades = .ok ((db.tradesOf c.chatId).map fun t => .deleteTrade c.chatId t.seq,
      .seqs ((db.tradesOf c.chatId).map (·.seq))) := rfl

/-- **The statements of a transaction in order**, each seeing the writes of the ones
before it. -/
def execAll (c : Context) (db : Database) :
    List Statement → Except SqlError (List Write × List Rows)
  | [] => .ok ([], [])
  | s :: ss =>
    match exec c db s with
    | .error error => .error error
    | .ok (ws, r) =>
      match execAll c (db.applyWrites ws) ss with
      | .error error => .error error
      | .ok (ws', rs) => .ok (ws ++ ws', r :: rs)

/-! ### Locality

A statement sees its own chat's rows and writes its own chat's rows; this is all that
lets transactions of different chats overlap. -/

/-- The chat a write belongs to. -/
def Write.chatId : Write → String
  | .insertTrade row => row.chatId
  | .deleteTrade chatId _ => chatId
  | .countWrite chatId _ => chatId

theorem filter_countWrite_of_ne {chatId chatId' : String} (h : chatId' ≠ chatId) (day : ℤ)
    (usage : List UsageRow) :
    (countWrite chatId day usage).filter (·.chatId = chatId') =
      usage.filter (·.chatId = chatId') := by
  induction usage with
  | nil => simp [countWrite, h.symm]
  | cons u us ih =>
    rw [countWrite]
    split_ifs with hu
    · have hne : u.chatId ≠ chatId' := fun he => h (he.symm.trans hu.1)
      simp [hne]
    · rw [List.filter_cons, List.filter_cons, ih]

theorem filter_countWrite_self (chatId : String) (day : ℤ) (usage : List UsageRow) :
    (countWrite chatId day usage).filter (·.chatId = chatId) =
      countWrite chatId day (usage.filter (·.chatId = chatId)) := by
  induction usage with
  | nil => simp [countWrite]
  | cons u us ih =>
    rw [countWrite]
    by_cases hc : u.chatId = chatId
    · rw [List.filter_cons_of_pos (by simpa using hc), countWrite]
      split_ifs with hu
      · rw [List.filter_cons_of_pos (by simpa using hc)]
      · rw [List.filter_cons_of_pos (by simpa using hc), ih]
    · rw [if_neg (fun hu => hc hu.1), List.filter_cons_of_neg (by simpa using hc),
        List.filter_cons_of_neg (by simpa using hc), ih]

/-- What one chat can see of the database. -/
def Database.view (db : Database) (chatId : String) : List TradeRow × List UsageRow :=
  (db.tradesOf chatId, db.usageOf chatId)

/-- **A write touches its own chat only.** -/
theorem view_applyWrite_of_ne {chatId : String} {w : Write} (h : w.chatId ≠ chatId)
    (db : Database) : (db.applyWrite w).view chatId = db.view chatId := by
  cases w with
  | insertTrade row =>
    have hrow : row.chatId ≠ chatId := h
    simp [Database.view, Database.tradesOf, Database.usageOf, Database.applyWrite, hrow]
  | deleteTrade chatId' seq =>
    have hc : chatId' ≠ chatId := h
    simp only [Database.view, Database.tradesOf, Database.usageOf, Database.applyWrite,
      List.filter_filter, Prod.mk.injEq, and_true]
    refine List.filter_congr fun t _ => ?_
    by_cases ht : t.chatId = chatId
    · simp [ht, hc.symm]
    · simp [ht]
  | countWrite chatId' day =>
    have hc : chatId ≠ chatId' := Ne.symm h
    simp [Database.view, Database.tradesOf, Database.usageOf, Database.applyWrite,
      filter_countWrite_of_ne hc]

theorem view_applyWrites_of_ne {chatId : String} {ws : List Write}
    (h : ∀ w ∈ ws, w.chatId ≠ chatId) (db : Database) :
    (db.applyWrites ws).view chatId = db.view chatId := by
  induction ws generalizing db with
  | nil => rfl
  | cons w ws ih =>
    have hrest := ih (fun w' hw' => h w' (List.mem_cons_of_mem w hw')) (db.applyWrite w)
    exact hrest.trans (view_applyWrite_of_ne (h w List.mem_cons_self) db)

/-- What a write does to a chat's view depends on that view only. -/
theorem view_applyWrite_congr {chatId : String} {db db' : Database}
    (h : db.view chatId = db'.view chatId) (w : Write) :
    (db.applyWrite w).view chatId = (db'.applyWrite w).view chatId := by
  by_cases hw : w.chatId = chatId
  · obtain ⟨ht, hu⟩ := Prod.mk.inj h
    cases w with
    | insertTrade row =>
      refine Prod.ext ?_ hu
      simpa [Database.view, Database.tradesOf, Database.applyWrite, List.filter_append] using ht
    | deleteTrade chatId' seq =>
      refine Prod.ext ?_ hu
      simp only [Database.view, Database.tradesOf, Database.applyWrite] at ht ⊢
      rw [List.filter_comm, ht, List.filter_comm]
    | countWrite chatId' day =>
      have hc : chatId' = chatId := hw
      refine Prod.ext ht ?_
      simp only [Database.view, Database.usageOf, Database.applyWrite] at hu ⊢
      rw [hc, filter_countWrite_self, filter_countWrite_self, hu]
  · rw [view_applyWrite_of_ne hw, view_applyWrite_of_ne hw, h]

theorem view_applyWrites_congr {chatId : String} {db db' : Database}
    (h : db.view chatId = db'.view chatId) (ws : List Write) :
    (db.applyWrites ws).view chatId = (db'.applyWrites ws).view chatId := by
  induction ws generalizing db db' with
  | nil => exact h
  | cons w ws ih => exact ih (view_applyWrite_congr h w)

theorem applyWrites_append (db : Database) (ws ws' : List Write) :
    db.applyWrites (ws ++ ws') = (db.applyWrites ws).applyWrites ws' :=
  List.foldl_append

/-- **A statement reads its own chat only.** -/
theorem exec_congr {c : Context} {db db' : Database} (h : db.view c.chatId = db'.view c.chatId)
    (s : Statement) : exec c db s = exec c db' s := by
  obtain ⟨ht, hu⟩ := Prod.mk.inj h
  cases s <;> simp only [exec, ht, hu]

theorem execAll_congr {c : Context} {db db' : Database}
    (h : db.view c.chatId = db'.view c.chatId) (ss : List Statement) :
    execAll c db ss = execAll c db' ss := by
  induction ss generalizing db db' with
  | nil => rfl
  | cons s ss ih =>
    rw [execAll, execAll, exec_congr h]
    cases exec c db' s with
    | error error => rfl
    | ok result =>
      dsimp only
      rw [ih (view_applyWrites_congr h result.1)]

/-- **A statement writes its own chat only.** -/
theorem chatId_of_exec {c : Context} {db : Database} {s : Statement} {ws : List Write} {r : Rows}
    (h : exec c db s = .ok (ws, r)) : ∀ w ∈ ws, w.chatId = c.chatId := by
  cases s with
  | insertTrade trade =>
    simp only [exec] at h
    split_ifs at h <;> obtain ⟨rfl, -⟩ := Prod.mk.inj (Except.ok.inj h)
    · simp [Write.chatId, newColumns]
    · simp
  | deleteTrade index =>
    obtain ⟨rfl, -⟩ := Prod.mk.inj (Except.ok.inj h)
    simp [Write.chatId]
  | deleteTrades =>
    obtain ⟨rfl, -⟩ := Prod.mk.inj (Except.ok.inj h)
    simp [Write.chatId]
  | lockChat | selectTrades | selectRecorded =>
    obtain ⟨rfl, -⟩ := Prod.mk.inj (Except.ok.inj h)
    simp

theorem chatId_of_execAll {c : Context} {db : Database} {ss : List Statement} {ws : List Write}
    {rs : List Rows} (h : execAll c db ss = .ok (ws, rs)) : ∀ w ∈ ws, w.chatId = c.chatId := by
  induction ss generalizing db ws rs with
  | nil =>
    obtain ⟨rfl, -⟩ := Prod.mk.inj (Except.ok.inj h)
    simp
  | cons s ss ih =>
    rw [execAll] at h
    cases h₀ : exec c db s with
    | error error => simp [h₀] at h
    | ok first =>
      cases hrest : execAll c (db.applyWrites first.1) ss with
      | error error => simp [h₀, hrest] at h
      | ok rest =>
        simp only [h₀, hrest, Except.ok.injEq, Prod.mk.injEq] at h
        obtain ⟨rfl, -⟩ := h
        intro w hw
        rcases List.mem_append.mp hw with hw | hw
        · exact chatId_of_exec h₀ w hw
        · exact ih hrest w hw

/-- **One more statement**: it runs on what the ones before it have written. -/
theorem execAll_concat {c : Context} {db : Database} {ss : List Statement} {s : Statement}
    {ws ws' : List Write} {rs : List Rows} {r : Rows} (h : execAll c db ss = .ok (ws, rs))
    (hs : exec c (db.applyWrites ws) s = .ok (ws', r)) :
    execAll c db (ss ++ [s]) = .ok (ws ++ ws', rs ++ [r]) := by
  induction ss generalizing db ws rs with
  | nil =>
    obtain ⟨rfl, rfl⟩ := Prod.mk.inj (Except.ok.inj h)
    rw [List.nil_append, execAll, ← applyWrites_nil db, hs]
    simp [execAll]
  | cons s₀ ss ih =>
    rw [execAll] at h
    cases h₀ : exec c db s₀ with
    | error error => simp [h₀] at h
    | ok first =>
      obtain ⟨ws₀, r₀⟩ := first
      rw [h₀] at h
      dsimp only at h
      cases hrest : execAll c (db.applyWrites ws₀) ss with
      | error error => simp [hrest] at h
      | ok rest =>
        rw [hrest] at h
        obtain ⟨rfl, rfl⟩ := Prod.mk.inj (Except.ok.inj h)
        rw [applyWrites_append] at hs
        rw [List.cons_append, execAll, h₀]
        dsimp only
        rw [ih hrest hs]
        simp

end Portfolio

end CryptoZaloBot
