import CryptoZaloBot.Portfolio.Sessions

/-!
# What the portfolio keeps

The rules of the service are there for one thing: a chat's trades can always be
replayed. The invariant is `CryptoZaloBot.Portfolio.Ledger`: the trade numbers
increase along the table, there are not too many trades, and coin by coin no running
sum of buys less sells is ever negative.

It is about **every** prefix of the trades, and each command checks only what it has
to. An insert comes last, so it is checked against the total; a deletion can come
from the middle, so every later sum of its coin is computed again; the other coins are
not looked at, as nothing happens to them.
-/

namespace CryptoZaloBot

namespace Portfolio

/-! ### Reading stored quantities -/

/-- **A quantity read back from the table** is the number of units it stores. -/
@[simp] theorem toQuantityUnits_numericText (units : ℕ) :
    toQuantityUnits (numericText units) = .ok units := by
  have hpos : 0 < quantityScale := by decide
  have hfrac : (Decimal.ofNat (units % quantityScale)).length ≤ maxQuantityDecimals :=
    Decimal.length_ofNat_le (by decide) (Nat.mod_lt units hpos)
  rw [numericText, toQuantityUnits_digits (Decimal.ofNat_ne_nil _)]
  · rw [Decimal.value_leftpad, Decimal.value_ofNat, Decimal.value_ofNat]
    exact congrArg Except.ok (Nat.div_add_mod' units quantityScale)
  · exact fun c hc => Decimal.isDigit_of_mem_ofNat hc
  · intro c hc
    rw [List.leftpad, List.mem_append] at hc
    rcases hc with hc | hc
    · rw [List.eq_of_mem_replicate hc]
      rfl
    · exact Decimal.isDigit_of_mem_ofNat hc
  · rw [List.length_leftpad, max_eq_left hfrac]

theorem TradeRow.quantity_pos (t : TradeRow) : 0 < t.quantity := t.checks.2.2.2.1.1

/-- The replay reads a row with the sign the database gives it. -/
@[simp] theorem signedUnits_toTrade (t : TradeRow) : signedUnits (toTrade t) = t.signed := by
  have hq := t.quantity_pos
  cases hs : t.side <;> simp [signedUnits, toTrade, TradeRow.signed, hs, Int.toNat_of_nonneg hq.le]

theorem readable_toTrade (rows : List TradeRow) : Readable (rows.map toTrade) := by
  intro t ht
  obtain ⟨row, -, rfl⟩ := List.mem_map.mp ht
  exact ⟨row.quantity.toNat, toQuantityUnits_numericText _⟩

theorem signedOf_toTrade (symbol : String) (rows : List TradeRow) :
    signedOf symbol (rows.map toTrade) = signedRows symbol rows := by
  rw [signedOf, signedRows, List.filter_map, List.map_map]
  exact List.map_congr_left fun t _ => signedUnits_toTrade t

/-! ### The order of the trades -/

theorem pairwise_orderBySeq (rows : List TradeRow) :
    (orderBySeq rows).Pairwise fun t t' => t.seq ≤ t'.seq :=
  List.pairwise_insertionSort _ rows

theorem perm_orderBySeq (rows : List TradeRow) : (orderBySeq rows).Perm rows :=
  List.perm_insertionSort _ rows

/-- Trades the database has sorted are not sorted again. -/
theorem sortBySeq_orderBySeq (rows : List TradeRow) :
    sortBySeq ((orderBySeq rows).map toTrade) = (orderBySeq rows).map toTrade :=
  List.Pairwise.insertionSort_eq (List.pairwise_map.mpr (pairwise_orderBySeq rows))

theorem balance_orderBySeq (rows : List TradeRow) (symbol : String) :
    balance (orderBySeq rows) symbol = balance rows symbol :=
  (((perm_orderBySeq rows).filter _).map _).sum_eq

/-- **The replay of stored trades**: when no running sum is negative it succeeds, and
what it says is held of a coin is the balance of that coin. -/
theorem computeHoldings_toTrade {rows : List TradeRow}
    (h : ∀ symbol, NeverNegative (signedRows symbol (orderBySeq rows))) :
    ∃ result, computeHoldings ((orderBySeq rows).map toTrade) = .ok result ∧
      ∀ symbol, heldQuantityOf result symbol = formatQuantityUnits (balance rows symbol).toNat := by
  have hnn : ∀ symbol,
      NeverNegative (signedOf symbol (sortBySeq ((orderBySeq rows).map toTrade))) := by
    intro symbol
    rw [sortBySeq_orderBySeq, signedOf_toTrade]
    exact h symbol
  obtain ⟨result, hresult, hheld⟩ := computeHoldings_of_neverNegative (readable_toTrade _) hnn
  refine ⟨result, hresult, fun symbol => ?_⟩
  obtain ⟨units, hunits, hq⟩ := hheld symbol
  rw [sortBySeq_orderBySeq, signedOf_toTrade] at hunits
  have hbal : (units : ℤ) = balance rows symbol := by
    rw [hunits, ← balance_orderBySeq]
    rfl
  rw [hq, ← hbal, Int.toNat_natCast]

/-! ### What a new trade adds -/

theorem le_maxSeq {rows : List TradeRow} {t : TradeRow} (h : t ∈ rows) : t.seq ≤ maxSeq rows := by
  have hmax : ∀ (seqs : List ℕ) (acc n : ℕ), n ≤ acc ∨ n ∈ seqs → n ≤ seqs.foldl max acc := by
    intro seqs
    induction seqs with
    | nil => simp
    | cons m seqs ih =>
      intro acc n hn
      refine ih (max acc m) n ?_
      rcases hn with hn | hn
      · exact Or.inl (le_max_of_le_left hn)
      · rcases List.mem_cons.mp hn with rfl | hn
        · exact Or.inl (le_max_right acc n)
        · exact Or.inr hn
  exact hmax _ 0 _ (Or.inr (List.mem_map_of_mem h))

/-- What is rounded to eight places stays below any bound of eight places it was
below. -/
theorem roundToUnits_le {x : ℚ} {units : ℤ} (h0 : 0 ≤ x) (h : x ≤ numericOfUnits units) :
    roundToUnits x ≤ units := by
  have hpos : (0 : ℚ) < quantityScale := by norm_num [quantityScale, maxQuantityDecimals]
  have hle : x * quantityScale ≤ units := by
    rw [numericOfUnits] at h
    exact (le_div_iff₀ hpos).mp h
  rw [roundToUnits, if_pos h0]
  refine Int.lt_add_one_iff.mp (Int.floor_lt.mpr ?_)
  push_cast
  linarith

theorem DecimalText.numeric_nonneg (q : DecimalText) : 0 ≤ q.numeric := by
  rw [DecimalText.numeric]
  positivity

@[simp] theorem signedRows_append (symbol : String) (rows rows' : List TradeRow) :
    signedRows symbol (rows ++ rows') = signedRows symbol rows ++ signedRows symbol rows' := by
  simp [signedRows]

/-- A row of another coin adds nothing. -/
theorem signedRows_singleton_of_ne {symbol : String} {row : TradeRow} (h : row.symbol ≠ symbol) :
    signedRows symbol [row] = [] := by
  simp [signedRows, h]

theorem signedRows_singleton_self (row : TradeRow) :
    signedRows row.symbol [row] = [row.signed] := by
  simp [signedRows]

/-! ### The invariant -/

/-- **A chat's trades**: in order of their numbers, not too many of them, and never
more sold of a coin than was held at that point. -/
structure Ledger (rows : List TradeRow) : Prop where
  increasing : rows.Pairwise fun t t' => t.seq < t'.seq
  few : rows.length ≤ maxTradesPerChat
  covered : ∀ symbol, NeverNegative (signedRows symbol rows)

namespace Ledger

variable {context : Context} {rows : List TradeRow}

theorem nil : Ledger [] := ⟨List.Pairwise.nil, Nat.zero_le _, fun _ => by simp [signedRows]⟩

/-- The table is in order already. -/
theorem orderBySeq_eq (h : Ledger rows) : orderBySeq rows = rows :=
  List.Pairwise.insertionSort_eq (h.increasing.imp fun hlt => hlt.le)

/-- No two trades share a number. -/
theorem nodup (h : Ledger rows) : (rows.map (·.seq)).Nodup :=
  List.pairwise_map.mpr (h.increasing.imp fun hlt => hlt.ne)

/-- **An insert** is checked against the totals. -/
theorem inserted (h : Ledger rows) {args : RecordArgs} {row : TradeRow}
    (having : havingClause rows args.newTrade)
    (columns : row.toTradeColumns = newColumns context rows args.newTrade) :
    Ledger (rows ++ [row]) := by
  obtain ⟨-, hroom, hsell, -⟩ := having
  have hseq : row.seq = maxSeq rows + 1 := congrArg TradeColumns.seq columns
  have hsymbol : row.symbol = args.newTrade.symbol := congrArg TradeColumns.symbol columns
  have hside : row.side = args.newTrade.side := congrArg TradeColumns.side columns
  have hquantity : row.quantity = roundToUnits args.newTrade.quantity.numeric :=
    congrArg TradeColumns.quantity columns
  refine ⟨?_, by simpa using hroom, fun symbol => ?_⟩
  · refine List.pairwise_append.mpr ⟨h.increasing, List.pairwise_singleton _ _, ?_⟩
    intro t ht t' ht'
    obtain rfl := List.mem_singleton.mp ht'
    have := le_maxSeq ht
    omega
  · rw [signedRows_append]
    by_cases hs : row.symbol = symbol
    · subst hs
      rw [signedRows_singleton_self, neverNegative_concat]
      refine ⟨h.covered _, ?_⟩
      have hsum : 0 ≤ (signedRows row.symbol rows).sum := by
        simpa using (h.covered row.symbol).sum_nonneg le_rfl
      have hpos := row.quantity_pos
      -- A buy adds to the last sum, and a sell was compared with it.
      cases hs : row.side with
      | buy =>
        simp only [TradeRow.signed, hs]
        omega
      | sell =>
        have hle : roundToUnits args.newTrade.quantity.numeric ≤
            balance rows args.newTrade.symbol := by
          refine roundToUnits_le args.newTrade.quantity.numeric_nonneg ?_
          rcases hsell with hbuy | hheld
          · rw [← hside, hs] at hbuy
            exact absurd hbuy (by decide)
          · exact hheld
        rw [← hquantity, ← hsymbol, balance] at hle
        simp only [TradeRow.signed, hs]
        omega
    · rw [signedRows_singleton_of_ne hs, List.append_nil]
      exact h.covered symbol

/-- **A deletion** is checked against every sum that comes after it. -/
theorem deleted (h : Ledger rows) {index : ℕ} {target : TradeRow}
    (mem : target ∈ deletable rows index) : Ledger (rows.filter (·.seq ≠ index)) := by
  rw [deletable, List.mem_filter, decide_eq_true_eq] at mem
  obtain ⟨hmem, hseq, hleft⟩ := mem
  have hinc : (rows.filter (·.seq ≠ index)).Pairwise fun t t' => t.seq < t'.seq :=
    h.increasing.filter _
  refine ⟨hinc, (List.length_filter_le _ _).trans h.few, fun symbol => ?_⟩
  by_cases hs : target.symbol = symbol
  · subst hs
    rwa [orderBySeq, List.Pairwise.insertionSort_eq (hinc.imp fun hlt => hlt.le)] at hleft
  · have hsame : signedRows symbol (rows.filter (·.seq ≠ index)) = signedRows symbol rows := by
      rw [signedRows, signedRows, List.filter_filter]
      refine congrArg _ (List.filter_congr fun t ht => ?_)
      by_cases hts : t.symbol = symbol
      · have hne : t.seq ≠ index := by
          intro hti
          obtain rfl := List.inj_on_of_nodup_map h.nodup ht hmem (hti.trans hseq.symm)
          exact hs hts
        simp [hne]
      · simp [hts]
    rw [hsame]
    exact h.covered symbol

/-- **What one call keeps.** -/
theorem step (h : Ledger rows) {command : Command} {rows' : List TradeRow}
    (hstep : TradesStep context rows command rows') : Ledger rows' := by
  cases hstep with
  | same => exact h
  | inserted having columns => exact h.inserted having columns
  | deleted mem => exact h.deleted mem
  | cleared => exact nil

end Ledger

/-- **After any calls**, one after the other, every chat's trades are a ledger. -/
theorem ledger_of_store (calls : List Call) (chatId : String) :
    Ledger ((store.final {} calls).tradesOf chatId) := by
  have hkeep : store.Keeps fun db => ∀ chatId, Ledger (db.tradesOf chatId) := by
    intro db call hdb _ chatId
    rcases eq_or_ne chatId call.chatId with rfl | hne
    · exact (hdb call.chatId).step (tradesStep_run db call)
    · have hview : (db.run call).1.tradesOf chatId = db.tradesOf chatId :=
        congrArg Prod.fst (view_run_of_ne hne)
      exact hview.symm ▸ hdb chatId
  have hempty : ∀ chatId, Ledger (({} : Database).tradesOf chatId) := fun _ => Ledger.nil
  exact System.Run.invariant hkeep hempty (store_run {} calls) chatId

/-- **The trades of a chat can always be replayed**: whatever transactions ran, of any
chats and interleaved in any way, each chat's stored trades have distinct numbers, are
at most 200, never sell more of a coin than was held, and the replay succeeds. -/
theorem stored_trades_replayable {hashtext : String → ℤ} {es : List ServerEvent}
    (hr : (server hashtext).Run {} es) (chatId : String) :
    let rows := ((server hashtext).final {} es).committed.tradesOf chatId
    (rows.map (·.seq)).Nodup ∧ rows.length ≤ maxTradesPerChat ∧
      (∀ symbol, NeverNegative (signedRows symbol (orderBySeq rows))) ∧
      ∃ result, computeHoldings ((orderBySeq rows).map toTrade) = .ok result := by
  intro rows
  obtain ⟨calls, hcommitted, -⟩ := server_serializable hr
  have hledger : Ledger rows := by
    have := ledger_of_store calls chatId
    rwa [← hcommitted] at this
  have hcovered : ∀ symbol, NeverNegative (signedRows symbol (orderBySeq rows)) := by
    intro symbol
    rw [hledger.orderBySeq_eq]
    exact hledger.covered symbol
  obtain ⟨result, hresult, -⟩ := computeHoldings_toTrade hcovered
  exact ⟨hledger.nodup, hledger.few, hcovered, result, hresult⟩

/-! A buy in one chat and a clear in another, statement by statement. -/

/-- One bitcoin for 60000 dollars, in chat `a`. -/
def buyOneBitcoin : RecordArgs where
  side := .buy
  symbol := "BTC"
  quantity := ⟨"1", decimalPattern_one⟩
  priceUsd := 60000
  sourceMessageId := some "m1"

def overlappingTransactions : List ServerEvent :=
  [.begin 0 ⟨⟨"a", 0⟩, .recordTrade buyOneBitcoin⟩, .begin 1 ⟨⟨"bb", 5⟩, .clearTrades⟩,
    .execute 0, .execute 0, .execute 1, .execute 0, .execute 0, .commit 0, .execute 1, .commit 1]

theorem overlappingTransactions_run :
    (server fun chatId => chatId.length).Run {} overlappingTransactions := by
  have hinsert : ∃ ws r, exec ⟨"a", 0⟩ {} (.insertTrade buyOneBitcoin.newTrade) = .ok (ws, r) := by
    have hok : (exec ⟨"a", 0⟩ {} (.insertTrade buyOneBitcoin.newTrade)).isOk = true := by
      decide +kernel
    cases he : exec ⟨"a", 0⟩ {} (.insertTrade buyOneBitcoin.newTrade) with
    | error error =>
      rw [he] at hok
      exact absurd hok Bool.false_ne_true
    | ok result => exact ⟨result.1, result.2, rfl⟩
  obtain ⟨ws, r, hinsert⟩ := hinsert
  have hlocked : ∀ s : Session, s.Locked ↔ s.results ≠ [] := fun _ => Iff.rfl
  simp [overlappingTransactions, server, Server.legal, Server.next, Session.execute, Session.next?,
    Command.statements, hinsert, Server.put, Function.update, Server.LockFree, hlocked]
  refine ⟨fun id s h hid => ?_, fun id s h hid => ?_⟩
  · split_ifs at h
    obtain rfl := Option.some.inj h
    simp
  · split_ifs at h
    obtain rfl := Option.some.inj h
    exact fun _ => (by decide : ¬"a".length = "bb".length)

theorem stored_trades_replayable_overlapping :
    let rows := ((server fun chatId => chatId.length).final {} overlappingTransactions)
      |>.committed.tradesOf "a"
    (rows.map (·.seq)).Nodup ∧ rows.length ≤ maxTradesPerChat ∧
      (∀ symbol, NeverNegative (signedRows symbol (orderBySeq rows))) ∧
      ∃ result, computeHoldings ((orderBySeq rows).map toTrade) = .ok result :=
  stored_trades_replayable overlappingTransactions_run "a"

end Portfolio

end CryptoZaloBot
