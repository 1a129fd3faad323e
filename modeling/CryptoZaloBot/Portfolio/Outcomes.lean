import CryptoZaloBot.Portfolio.Ledger

/-!
# What recording a trade comes to

A trade is recorded, or it was recorded before, or a rule refuses it – and the service
says which rule. The rules are written twice, once in the `HAVING` clause and once
over the replayed trades; `CryptoZaloBot.Portfolio.ruleRefusing` states them a third
time, as they are meant, and `CryptoZaloBot.Portfolio.recordTrade_outcome` says that
the answer is always the one it gives.

There is a fourth case. The rules do not look at what the columns can hold: a symbol
of 21 characters, an amount too large or too small for its column, a trade number or a
day's counter past the largest `INTEGER`. The database refuses such a row, and the
caller sees that the portfolio is unavailable
(`CryptoZaloBot.Portfolio.recordTrade_three_outcomes_fail`).
-/

namespace CryptoZaloBot

namespace Portfolio

/-! ### The cases -/

/-- **What a chat's rows are trusted to be**: numbered without repetition, at most 200,
and never oversold. -/
structure Sound (rows : List TradeRow) : Prop where
  nodup : (rows.map (·.seq)).Nodup
  few : rows.length ≤ maxTradesPerChat
  covered : ∀ symbol, NeverNegative (signedRows symbol (orderBySeq rows))

theorem Ledger.sound {rows : List TradeRow} (h : Ledger rows) : Sound rows where
  nodup := h.nodup
  few := h.few
  covered symbol := by
    rw [h.orderBySeq_eq]
    exact h.covered symbol

/-- A stored trade carries the message id of the call. -/
def RecordedBefore (rows : List TradeRow) (args : RecordArgs) : Prop :=
  ∃ t ∈ rows, ∃ m, args.sourceMessageId = some m ∧ t.sourceMessageId = some m

/-- **The rules in order**: which one refuses the trade, if one does. -/
def ruleRefusing (rows : List TradeRow) (args : RecordArgs) : Option PortfolioError :=
  if maxTradesPerChat ≤ rows.length then some (.limit .trades maxTradesPerChat)
  else if args.side = .sell ∧ numericOfUnits (balance rows args.symbol) < args.quantity.numeric then
    some (.oversell args.symbol (formatQuantityUnits (balance rows args.symbol).toNat))
  else if args.side = .buy ∧ maxHeldCoins ≤ (otherHeld rows args.symbol).length then
    some (.limit .coins maxHeldCoins)
  else none

/-- The columns and the day's counter can hold what would be written. -/
def Storable (db : Database) (context : Context) (args : RecordArgs) : Prop :=
  (newColumns context (db.tradesOf context.chatId) args.newTrade).Checks ∧
    CountFits (db.usageOf context.chatId) context.day

/-- **(a)** One row is appended, with the next number; the writes of the chat are one
more, and the trade comes back as new. -/
def Appends (db : Database) (context : Context) (args : RecordArgs) : Prop :=
  ∃ (db' : Database) (row : TradeRow),
    row.toTradeColumns = newColumns context (db.tradesOf context.chatId) args.newTrade ∧
    row.seq = maxSeq (db.tradesOf context.chatId) + 1 ∧
    db'.trades = db.trades ++ [row] ∧
    db'.writesOf context.chatId = db.writesOf context.chatId + 1 ∧
    db.run ⟨context, .recordTrade args⟩ = (db', .ok (.recorded
      ⟨some (toTrade row), (orderBySeq (db.tradesOf context.chatId ++ [row])).map toTrade, false⟩))

/-- **(b)** A trade with this message id comes back, and nothing changes. -/
def ReturnsDuplicate (db : Database) (context : Context) (args : RecordArgs) : Prop :=
  ∃ t ∈ db.tradesOf context.chatId, ∃ m, args.sourceMessageId = some m ∧
    t.sourceMessageId = some m ∧
    db.run ⟨context, .recordTrade args⟩ = (db, .ok (.recorded
      ⟨some (toTrade t), (orderBySeq (db.tradesOf context.chatId)).map toTrade, true⟩))

/-- **(c)** The rule that refuses the trade is thrown, and nothing changes. -/
def Refuses (db : Database) (context : Context) (args : RecordArgs) : Prop :=
  ∃ error, ruleRefusing (db.tradesOf context.chatId) args = some error ∧
    db.run ⟨context, .recordTrade args⟩ = (db, .error error)

/-! ### The two ways the rules are written -/

section Rules

variable {db : Database} {context : Context} {rows : List TradeRow} {args : RecordArgs}

/-- A usable id is used. -/
theorem usedMessageId_eq (h : ∀ m ∈ args.sourceMessageId, m ≠ "" ∧
    utf16Length m ≤ maxSourceMessageIdLength) : args.newTrade.messageId = args.sourceMessageId := by
  rw [RecordArgs.newTrade]
  cases hm : args.sourceMessageId with
  | none => rfl
  | some m => exact if_pos (h m hm)

theorem alreadyRecorded_eq_nil (h : args.newTrade.messageId = args.sourceMessageId) :
    alreadyRecorded rows args.newTrade.messageId = [] ↔ ¬RecordedBefore rows args := by
  rw [h, alreadyRecorded, List.filter_eq_nil_iff]
  constructor
  · rintro hnone ⟨t, ht, m, hm, htm⟩
    exact hnone t ht (by simp [hm, htm])
  · intro hnot t ht htrue
    obtain ⟨hsome, heq⟩ := of_decide_eq_true htrue
    obtain ⟨m, hm⟩ := Option.isSome_iff_exists.mp hsome
    exact hnot ⟨t, ht, m, hm, heq.trans hm⟩

/-- **The `HAVING` clause lets a new trade through exactly when no rule refuses it.** -/
theorem havingClause_iff (hnew : alreadyRecorded rows args.newTrade.messageId = []) :
    havingClause rows args.newTrade ↔ ruleRefusing rows args = none := by
  rw [havingClause, and_iff_right hnew, ruleRefusing]
  simp only [RecordArgs.newTrade]
  by_cases hlen : maxTradesPerChat ≤ rows.length
  · simp [hlen]
  · have hlt : rows.length < maxTradesPerChat := not_le.mp hlen
    cases hside : args.side with
    | buy => simp [hlen, hlt]
    | sell => simp [hlen, hlt]

/-- **The replayed trades name the rule that refused.** -/
theorem thrown_refusalReason (h : Sound rows) {error : PortfolioError}
    (herror : ruleRefusing rows args = some error) :
    thrown (refusalReason ((orderBySeq rows).map toTrade) args.side args.symbol) = error := by
  obtain ⟨result, hresult, hheld⟩ := computeHoldings_toTrade h.covered
  have hlen : ((orderBySeq rows).map toTrade).length = rows.length := by
    rw [List.length_map, (perm_orderBySeq rows).length_eq]
  rw [ruleRefusing] at herror
  rw [refusalReason, hlen, hresult]
  by_cases hfull : maxTradesPerChat ≤ rows.length
  · rw [if_pos hfull] at herror ⊢
    exact Option.some.inj herror
  · rw [if_neg hfull] at herror ⊢
    cases hside : args.side with
    | buy =>
      simp only [hside, reduceCtorEq, false_and, if_false, true_and] at herror
      split_ifs at herror
      exact Option.some.inj herror
    | sell =>
      simp only [hside, true_and, reduceCtorEq, false_and, if_false] at herror
      split_ifs at herror
      simp only [hheld args.symbol]
      exact Option.some.inj herror

/-! ### The trade that comes back -/

theorem find?_of_nodup {α β : Type*} [DecidableEq β] {f : α → β} {l : List α}
    (h : (l.map f).Nodup) {a : α} (ha : a ∈ l) : l.find? (fun x => f x = f a) = some a := by
  cases hfind : l.find? (fun x => f x = f a) with
  | none => exact absurd (decide_eq_true rfl) (List.find?_eq_none.mp hfind a ha)
  | some b =>
    have heq : f b = f a := by simpa using List.find?_some hfind
    rw [List.inj_on_of_nodup_map h (List.mem_of_find?_eq_some hfind) ha heq]

/-- The trade with a stored number is found by it. -/
theorem find?_toTrade (h : (rows.map (·.seq)).Nodup) {t : TradeRow} (ht : t ∈ rows) :
    ((orderBySeq rows).map toTrade).find? (·.seq = t.seq) = some (toTrade t) := by
  have hmem : t ∈ orderBySeq rows := (perm_orderBySeq rows).mem_iff.mpr ht
  have hnd : ((orderBySeq rows).map (·.seq)).Nodup := ((perm_orderBySeq rows).map _).nodup_iff.mpr h
  rw [List.find?_map]
  exact congrArg (Option.map toTrade) (find?_of_nodup hnd hmem)

/-- One more write is counted, whatever the day. -/
theorem sum_writes_countWrite (chatId : String) (day : ℤ) (usage : List UsageRow) :
    ((countWrite chatId day usage).map UsageRow.writes).sum =
      (usage.map UsageRow.writes).sum + 1 := by
  induction usage with
  | nil => simp [countWrite]
  | cons u us ih =>
    rw [countWrite]
    split_ifs
    · simp only [List.map_cons, List.sum_cons]
      omega
    · simp only [List.map_cons, List.sum_cons, ih]
      omega

theorem writesOf_recorded (db : Database) (context : Context) (row : TradeRow) :
    (db.recorded context row).writesOf context.chatId = db.writesOf context.chatId + 1 := by
  have husage : (db.recorded context row).usageOf context.chatId =
      countWrite context.chatId context.day (db.usageOf context.chatId) :=
    filter_countWrite_self context.chatId context.day db.usage
  rw [Database.writesOf, husage, sum_writes_countWrite]
  rfl

/-! ### The outcome -/

theorem returnsDuplicate (h : Sound (db.tradesOf context.chatId))
    (hid : args.newTrade.messageId = args.sourceMessageId)
    (hbefore : RecordedBefore (db.tradesOf context.chatId) args) :
    ReturnsDuplicate db context args := by
  obtain ⟨t, ts, hts⟩ : ∃ t ts,
      alreadyRecorded (db.tradesOf context.chatId) args.newTrade.messageId = t :: ts := by
    refine List.exists_cons_of_ne_nil fun hnil => ?_
    exact (alreadyRecorded_eq_nil hid).mp hnil hbefore
  have hmem : t ∈ alreadyRecorded (db.tradesOf context.chatId) args.newTrade.messageId :=
    hts ▸ List.mem_cons_self
  rw [hid, alreadyRecorded, List.mem_filter, decide_eq_true_eq] at hmem
  obtain ⟨ht, hsome, heq⟩ := hmem
  obtain ⟨m, hm⟩ := Option.isSome_iff_exists.mp hsome
  have hno : ¬havingClause (db.tradesOf context.chatId) args.newTrade := fun hh => by
    have hnil := hh.1
    rw [hts] at hnil
    exact absurd hnil (List.cons_ne_nil t ts)
  refine ⟨t, ht, m, hm, heq.trans hm, ?_⟩
  rw [run_recordTrade_refused hno, hts]
  simp only [finishRecord, List.map_cons, find?_toTrade h.nodup ht]

theorem refuses (h : Sound (db.tradesOf context.chatId))
    (hnew : alreadyRecorded (db.tradesOf context.chatId) args.newTrade.messageId = [])
    {error : PortfolioError}
    (herror : ruleRefusing (db.tradesOf context.chatId) args = some error) :
    Refuses db context args := by
  have hno : ¬havingClause (db.tradesOf context.chatId) args.newTrade := by
    rw [havingClause_iff hnew, herror]
    exact Option.some_ne_none error
  refine ⟨error, herror, ?_⟩
  rw [run_recordTrade_refused hno, hnew]
  simp only [finishRecord, List.map_nil, thrown_refusalReason h herror]

theorem appends (h : Sound (db.tradesOf context.chatId))
    (hnew : alreadyRecorded (db.tradesOf context.chatId) args.newTrade.messageId = [])
    (hnone : ruleRefusing (db.tradesOf context.chatId) args = none)
    (hstorable : Storable db context args) : Appends db context args := by
  obtain ⟨hc, hcount⟩ := hstorable
  have hfresh : Fresh (db.tradesOf context.chatId)
      (newColumns context (db.tradesOf context.chatId) args.newTrade) := by
    refine ⟨fun t ht => ?_, hnew⟩
    have hle := le_maxSeq ht
    simp only [newColumns]
    omega
  have hnd : ((db.tradesOf context.chatId ++ [(⟨_, hc⟩ : TradeRow)]).map (·.seq)).Nodup := by
    rw [List.map_append, List.nodup_append]
    refine ⟨h.nodup, List.nodup_singleton _, fun a ha b hb => ?_⟩
    obtain ⟨t, ht, rfl⟩ := List.mem_map.mp ha
    rw [List.mem_singleton.mp hb]
    exact hfresh.1 t ht
  refine ⟨db.recorded context ⟨_, hc⟩, ⟨_, hc⟩, rfl, rfl, rfl, writesOf_recorded db context _, ?_⟩
  rw [run_recordTrade_recorded ⟨_, hc⟩ ((havingClause_iff hnew).mpr hnone) rfl hfresh hcount,
    tradesOf_recorded rfl]
  simp only [finishRecord, find?_toTrade hnd (List.mem_append_right _ (List.mem_singleton_self _))]

theorem unstorable
    (hnew : alreadyRecorded (db.tradesOf context.chatId) args.newTrade.messageId = [])
    (hnone : ruleRefusing (db.tradesOf context.chatId) args = none)
    (hstorable : ¬Storable db context args) :
    db.run ⟨context, .recordTrade args⟩ = (db, .error .unavailable) := by
  refine run_recordTrade_rejected ((havingClause_iff hnew).mpr hnone) ?_
  rintro ⟨hc, -, hcount⟩
  exact hstorable ⟨hc, hcount⟩

end Rules

/-- **What recording a trade comes to**, on any sound state and for any message id of 1
to 128 characters, or none. The cases exclude each other, and cover everything. -/
theorem recordTrade_outcome (db : Database) (context : Context) (args : RecordArgs)
    (h : Sound (db.tradesOf context.chatId))
    (hid : ∀ m ∈ args.sourceMessageId, m ≠ "" ∧ utf16Length m ≤ maxSourceMessageIdLength) :
    (RecordedBefore (db.tradesOf context.chatId) args → ReturnsDuplicate db context args) ∧
    (¬RecordedBefore (db.tradesOf context.chatId) args →
      ((ruleRefusing (db.tradesOf context.chatId) args).isSome → Refuses db context args) ∧
      (ruleRefusing (db.tradesOf context.chatId) args = none →
        (Storable db context args → Appends db context args) ∧
        (¬Storable db context args →
          db.run ⟨context, .recordTrade args⟩ = (db, .error .unavailable)))) := by
  have hused := usedMessageId_eq hid
  refine ⟨returnsDuplicate h hused, fun hbefore => ?_⟩
  have hnew := (alreadyRecorded_eq_nil hused).mpr hbefore
  refine ⟨fun hsome => ?_, fun hnone => ⟨appends h hnew hnone, unstorable hnew hnone⟩⟩
  obtain ⟨error, herror⟩ := Option.isSome_iff_exists.mp hsome
  exact refuses h hnew herror

/-- A buy of a coin whose symbol has 21 characters. -/
def longSymbolBuy : RecordArgs where
  side := .buy
  symbol := "ABCDEFGHIJKLMNOPQRSTU"
  quantity := ⟨"1", decimalPattern_one⟩
  priceUsd := 1
  sourceMessageId := none

theorem recordTrade_three_outcomes_fail :
    ¬∀ (db : Database) (context : Context) (args : RecordArgs),
      Sound (db.tradesOf context.chatId) →
      (∀ m ∈ args.sourceMessageId, m ≠ "" ∧ utf16Length m ≤ maxSourceMessageIdLength) →
      Appends db context args ∨ ReturnsDuplicate db context args ∨ Refuses db context args := by
  intro h
  have hstorable : ¬Storable {} ⟨"a", 0⟩ longSymbolBuy := by
    rintro ⟨hc, -⟩
    exact absurd hc.2.2.1.2 (by decide)
  have hrun : ({} : Database).run ⟨⟨"a", 0⟩, .recordTrade longSymbolBuy⟩ =
      ({}, .error .unavailable) := unstorable (by decide) (by decide +kernel) hstorable
  rcases h {} ⟨"a", 0⟩ longSymbolBuy Ledger.nil.sound (by decide) with
    ⟨db', row, -, -, -, -, ha⟩ | ⟨t, ht, -⟩ | ⟨error, herror, -⟩
  · rw [hrun] at ha
    exact absurd (congrArg Prod.snd ha) (by simp)
  · exact absurd ht List.not_mem_nil
  · have hnone : ruleRefusing [] longSymbolBuy = none := by decide +kernel
    exact absurd (hnone.symm.trans herror) (by simp)

/-- What chat `a` holds after its first trade. -/
def oneBitcoinHeld : Database := store.final {} [⟨⟨"a", 0⟩, .recordTrade buyOneBitcoin⟩]

/-- A sale of bitcoin for 70000 dollars each. -/
def sellBitcoin (quantity : DecimalText) (messageId : String) : RecordArgs where
  side := .sell
  symbol := "BTC"
  quantity := quantity
  priceUsd := 70000
  sourceMessageId := some messageId

/-- The same message again, a sale of more than is held, and a sale of a part of it. -/
theorem recordTrade_outcome_oneBitcoinHeld :
    ReturnsDuplicate oneBitcoinHeld ⟨"a", 1⟩ buyOneBitcoin ∧
      Refuses oneBitcoinHeld ⟨"a", 1⟩ (sellBitcoin ⟨"2", by decide⟩ "m2") ∧
      Appends oneBitcoinHeld ⟨"a", 1⟩ (sellBitcoin ⟨"0.25", by decide⟩ "m3") := by
  have hsound : Sound (oneBitcoinHeld.tradesOf "a") := (ledger_of_store _ "a").sound
  have hids : (oneBitcoinHeld.tradesOf "a").map (·.sourceMessageId) = [some "m1"] := by
    decide +kernel
  have hbefore : ∀ args : RecordArgs,
      RecordedBefore (oneBitcoinHeld.tradesOf "a") args ↔ args.sourceMessageId = some "m1" := by
    intro args
    have hmem : ∀ m, (∃ t ∈ oneBitcoinHeld.tradesOf "a", t.sourceMessageId = m) ↔
        m = some "m1" := by
      intro m
      rw [← List.mem_map, hids, List.mem_singleton]
    constructor
    · rintro ⟨t, ht, m, hm, htm⟩
      exact hm.trans ((hmem (some m)).mp ⟨t, ht, htm⟩)
    · intro hm
      obtain ⟨t, ht, htm⟩ := (hmem (some "m1")).mpr rfl
      exact ⟨t, ht, "m1", hm, htm⟩
  refine ⟨?_, ?_, ?_⟩
  · exact (recordTrade_outcome oneBitcoinHeld ⟨"a", 1⟩ buyOneBitcoin hsound (by decide)).1
      ((hbefore _).mpr rfl)
  · have hnew := (recordTrade_outcome oneBitcoinHeld ⟨"a", 1⟩
      (sellBitcoin ⟨"2", by decide⟩ "m2") hsound (by decide)).2
        fun h => absurd ((hbefore _).mp h) (by decide)
    exact hnew.1 (by decide +kernel)
  · have hstorable : Storable oneBitcoinHeld ⟨"a", 1⟩ (sellBitcoin ⟨"0.25", by decide⟩ "m3") :=
      ⟨by decide +kernel, by decide +kernel⟩
    have hnew := (recordTrade_outcome oneBitcoinHeld ⟨"a", 1⟩
      (sellBitcoin ⟨"0.25", by decide⟩ "m3") hsound (by decide)).2
        fun h => absurd ((hbefore _).mp h) (by decide)
    exact (hnew.2 (by decide +kernel)).1 hstorable

end Portfolio

end CryptoZaloBot
