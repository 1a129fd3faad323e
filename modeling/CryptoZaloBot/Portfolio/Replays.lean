import Mathlib.Tactic.FieldSimp
import CryptoZaloBot.Portfolio.Outcomes

/-!
# The statements and the replay

Two things can refuse a write: a statement of the database, over sums and running sums of
`NUMERIC`s, and the replay of `CryptoZaloBot.Portfolio.computeHoldings`, trade by trade in
units of `10⁻⁸`. This module says that they are one rule. A trade can be deleted exactly
when the rest can be replayed, and a sell goes through exactly when the trades with it can
(`CryptoZaloBot.Portfolio.replay_decides`).

Two things stand outside the rule. The replay does not look at what the columns can hold,
and the database rounds a quantity of more than eight places that the replay refuses to read.
-/

namespace CryptoZaloBot

namespace Portfolio

/-! ### One quantity, read twice -/

/-- **The database and the calculator read the same number.** -/
theorem numeric_of_toQuantityUnits {q : DecimalText} {units : ℕ}
    (h : toQuantityUnits q.text = .ok units) : q.numeric = numericOfUnits units := by
  obtain ⟨n, hn, -, hunits⟩ := toQuantityUnits_eq_ok_iff.mp h
  have hscale : ((quantityScale : ℕ) : ℚ) = 10 ^ maxQuantityDecimals := by
    rw [quantityScale]
    push_cast
    rfl
  rw [DecimalText.numeric_eq_value hn, numericOfUnits, hscale, eq_div_iff (by positivity)]
  exact_mod_cast hunits.symm

theorem numericOfUnits_le {m n : ℤ} : numericOfUnits m ≤ numericOfUnits n ↔ m ≤ n := by
  have hpos : (0 : ℚ) < quantityScale := by norm_num [quantityScale, maxQuantityDecimals]
  rw [numericOfUnits, numericOfUnits, div_le_div_iff_of_pos_right hpos, Int.cast_le]

/-! ### Replays of stored trades -/

/-- A chat's trades as the service reads them, oldest first. -/
abbrev Database.storedTrades (db : Database) (chatId : String) : List PortfolioTrade :=
  (orderBySeq (db.tradesOf chatId)).map toTrade

/-- **Stored trades can be replayed** exactly when no running sum is negative. -/
theorem replayable_toTrade_iff {rows : List TradeRow} :
    Replayable ((orderBySeq rows).map toTrade) ↔
      ∀ symbol, NeverNegative (signedRows symbol (orderBySeq rows)) := by
  rw [replayable_iff, and_iff_right (readable_toTrade _), sortBySeq_orderBySeq]
  exact forall_congr' fun symbol => by rw [signedOf_toTrade]

/-- Sorting and leaving out one number can be exchanged. -/
theorem filter_orderBySeq {rows : List TradeRow} (hnodup : (rows.map (·.seq)).Nodup)
    (p : TradeRow → Bool) : (orderBySeq rows).filter p = orderBySeq (rows.filter p) := by
  refine List.Perm.eq_of_pairwise (fun t t' ht ht' hle hge => ?_)
    ((pairwise_orderBySeq rows).filter p) (pairwise_orderBySeq _) ?_
  · have hmem : t ∈ rows := (perm_orderBySeq rows).mem_iff.mp (List.mem_of_mem_filter ht)
    have hmem' : t' ∈ rows :=
      List.mem_of_mem_filter ((perm_orderBySeq (rows.filter p)).mem_iff.mp ht')
    exact List.inj_on_of_nodup_map hnodup hmem hmem' (le_antisymm hle hge)
  · exact ((perm_orderBySeq rows).filter p).trans (perm_orderBySeq _).symm

theorem filter_toTrade {rows : List TradeRow} (hnodup : (rows.map (·.seq)).Nodup) (index : ℕ) :
    ((orderBySeq rows).map toTrade).filter (·.seq ≠ index) =
      (orderBySeq (rows.filter (·.seq ≠ index))).map toTrade := by
  rw [List.filter_map, ← filter_orderBySeq hnodup]
  rfl

/-- Without a trade of another coin, a coin's rows are the same. -/
theorem signedRows_filter_of_ne {rows : List TradeRow} (hnodup : (rows.map (·.seq)).Nodup)
    {target : TradeRow} (hmem : target ∈ rows) {symbol : String}
    (hne : target.symbol ≠ symbol) :
    signedRows symbol ((orderBySeq rows).filter (·.seq ≠ target.seq)) =
      signedRows symbol (orderBySeq rows) := by
  rw [signedRows, signedRows, List.filter_filter]
  refine congrArg _ (List.filter_congr fun t ht => ?_)
  have htr : t ∈ rows := (perm_orderBySeq rows).mem_iff.mp ht
  by_cases hs : t.symbol = symbol
  · have hseq : t.seq ≠ target.seq := by
      intro heq
      obtain rfl := List.inj_on_of_nodup_map hnodup htr hmem heq
      exact hne hs
    simp [hseq]
  · simp [hs]

/-- **The rule of a deletion**: the window over one coin decides for all coins, as the others
do not change. -/
theorem mem_deletable_iff {rows : List TradeRow} (hnodup : (rows.map (·.seq)).Nodup)
    (hreplay : Replayable ((orderBySeq rows).map toTrade))
    {target : TradeRow} (hmem : target ∈ rows) :
    target ∈ deletable rows target.seq ↔
      Replayable (((orderBySeq rows).map toTrade).filter (·.seq ≠ target.seq)) := by
  rw [filter_toTrade hnodup, replayable_toTrade_iff, deletable, List.mem_filter, decide_eq_true_eq,
    and_iff_right hmem, and_iff_right rfl]
  refine ⟨fun h symbol => ?_, fun h => h target.symbol⟩
  by_cases hs : target.symbol = symbol
  · exact hs ▸ h
  · rw [← filter_orderBySeq hnodup, signedRows_filter_of_ne hnodup hmem hs]
    exact replayable_toTrade_iff.mp hreplay symbol

/-! ### A deletion -/

section Deletions

variable {db : Database} {context : Context}

/-- Numbers are in use once at most, so at most one trade is deleted. -/
theorem deletable_eq_singleton {rows : List TradeRow} (hnodup : (rows.map (·.seq)).Nodup)
    {target : TradeRow} (h : target ∈ deletable rows target.seq) :
    deletable rows target.seq = [target] := by
  have hall : ∀ t ∈ deletable rows target.seq, t = target := by
    intro t ht
    have htarget := List.mem_filter.mp h
    rw [deletable, List.mem_filter, decide_eq_true_eq] at ht
    exact List.inj_on_of_nodup_map hnodup ht.1 htarget.1 ht.2.1
  have hnd : (deletable rows target.seq).Nodup := (hnodup.of_map _).filter _
  cases hlist : deletable rows target.seq with
  | nil =>
    rw [hlist] at h
    exact absurd h List.not_mem_nil
  | cons t ts =>
    rw [hlist] at hall hnd
    obtain rfl := hall t List.mem_cons_self
    cases ts with
    | nil => rfl
    | cons t' ts =>
      obtain rfl := hall t' (List.mem_cons_of_mem _ List.mem_cons_self)
      exact absurd List.mem_cons_self (List.nodup_cons.mp hnd).1

theorem run_deleteTrade_deleted (hnodup : ((db.tradesOf context.chatId).map (·.seq)).Nodup)
    {target : TradeRow} (h : target ∈ deletable (db.tradesOf context.chatId) target.seq) :
    (orderBySeq ((db.run ⟨context, .deleteTrade target.seq⟩).1.tradesOf context.chatId)).map
        toTrade =
      ((orderBySeq (db.tradesOf context.chatId)).map toTrade).filter (·.seq ≠ target.seq) ∧
    (db.run ⟨context, .deleteTrade target.seq⟩).2 = .ok (.deleted ⟨toTrade target,
      ((orderBySeq (db.tradesOf context.chatId)).map toTrade).filter (·.seq ≠ target.seq)⟩) := by
  have hleft : ((db.tradesOf context.chatId).filter fun t => ∀ t' ∈ [target], t.seq ≠ t'.seq) =
      (db.tradesOf context.chatId).filter (·.seq ≠ target.seq) :=
    List.filter_congr fun t _ => by simp
  rw [run_deleteTrade, deletable_eq_singleton hnodup h]
  dsimp only
  rw [tradesOf_deleteTrades, hleft, filter_toTrade hnodup]
  exact ⟨rfl, rfl⟩

theorem run_deleteTrade_kept {index : ℕ}
    (h : deletable (db.tradesOf context.chatId) index = []) :
    db.run ⟨context, .deleteTrade index⟩ =
      (db, finishDelete index [] (orderBySeq (db.tradesOf context.chatId))) := by
  rw [run_deleteTrade, h]
  rfl

end Deletions

/-! ### A sell -/

/-- The trade a call asks for, with the next number. -/
def RecordArgs.asTrade (args : RecordArgs) (rows : List TradeRow) (now : ℤ) :
    PortfolioTrade where
  seq := maxSeq rows + 1
  side := args.side
  symbol := args.symbol
  quantity := args.quantity.text
  priceUsd := args.priceUsd
  createdAt := now

section Sells

variable {rows : List TradeRow} {args : RecordArgs} {units : ℕ}

theorem sortBySeq_asTrade (rows : List TradeRow) (args : RecordArgs) (now : ℤ) :
    sortBySeq ((orderBySeq rows).map toTrade ++ [args.asTrade rows now]) =
      (orderBySeq rows).map toTrade ++ [args.asTrade rows now] := by
  refine List.Pairwise.insertionSort_eq (List.pairwise_append.mpr
    ⟨List.pairwise_map.mpr (pairwise_orderBySeq rows), List.pairwise_singleton _ _, ?_⟩)
  intro t ht t' ht'
  obtain ⟨row, hrow, rfl⟩ := List.mem_map.mp ht
  obtain rfl := List.mem_singleton.mp ht'
  have hle := le_maxSeq ((perm_orderBySeq rows).mem_iff.mp hrow)
  simp only [toTrade, RecordArgs.asTrade]
  omega

/-- **The rule of a sell**: the last sum decides, as the ones before do not change. -/
theorem replayable_sell_iff (hreplay : Replayable ((orderBySeq rows).map toTrade))
    (hside : args.side = .sell) (hunits : toQuantityUnits args.quantity.text = .ok units)
    (now : ℤ) :
    Replayable ((orderBySeq rows).map toTrade ++ [args.asTrade rows now]) ↔
      args.quantity.numeric ≤ numericOfUnits (balance rows args.symbol) := by
  have hcovered := replayable_toTrade_iff.mp hreplay
  have hread : Readable ((orderBySeq rows).map toTrade ++ [args.asTrade rows now]) := by
    intro t ht
    rcases List.mem_append.mp ht with hstored | hnew
    · exact readable_toTrade _ t hstored
    · obtain rfl := List.mem_singleton.mp hnew
      exact ⟨units, hunits⟩
  -- The new trade comes last, in its own coin only.
  have hsigned : ∀ symbol, signedOf symbol
      ((orderBySeq rows).map toTrade ++ [args.asTrade rows now]) =
        signedRows symbol (orderBySeq rows) ++
          if args.symbol = symbol then [-(units : ℤ)] else [] := by
    intro symbol
    have hlast : signedUnits (args.asTrade rows now) = -(units : ℤ) := by
      simp only [signedUnits, RecordArgs.asTrade, hunits, hside]
    rw [signedOf, List.filter_append, List.map_append, ← signedOf, signedOf_toTrade]
    by_cases hs : args.symbol = symbol
    · simp [RecordArgs.asTrade, hs, ← hlast]
    · simp [RecordArgs.asTrade, hs]
  rw [replayable_iff, and_iff_right hread, sortBySeq_asTrade,
    numeric_of_toQuantityUnits hunits, numericOfUnits_le]
  have hbalance : balance rows args.symbol = (signedRows args.symbol (orderBySeq rows)).sum :=
    (balance_orderBySeq rows args.symbol).symm
  constructor
  · intro h
    have hown := h args.symbol
    rw [hsigned, if_pos rfl, neverNegative_concat, ← hbalance] at hown
    omega
  · intro hle symbol
    rw [hsigned]
    split_ifs with hs
    · subst hs
      rw [neverNegative_concat, ← hbalance]
      exact ⟨hcovered args.symbol, by omega⟩
    · rw [List.append_nil]
      exact hcovered symbol

theorem ruleRefusing_sell (hroom : rows.length < maxTradesPerChat) (hside : args.side = .sell) :
    ruleRefusing rows args =
      if args.quantity.numeric ≤ numericOfUnits (balance rows args.symbol) then none
      else some (.oversell args.symbol
        (formatQuantityUnits (balance rows args.symbol).toNat)) := by
  rw [ruleRefusing, if_neg (not_le.mpr hroom)]
  by_cases hle : args.quantity.numeric ≤ numericOfUnits (balance rows args.symbol)
  · simp [hside, hle]
  · simp [hside, hle, not_le.mp hle]

end Sells

/-! ### One rule -/

/-- **The replay decides**, on stored trades that can be replayed. A trade is deleted exactly
when it exists and the rest can be replayed, and the errors say which of the two fails. Below
the cap, a sell with a new message id, of a quantity the calculator can read and that the
table can hold, is recorded exactly when the trades with it can be replayed. No other chat's
rows are touched. -/
theorem replay_decides (db : Database) (context : Context)
    (hnodup : ((db.tradesOf context.chatId).map (·.seq)).Nodup)
    (hreplay : Replayable (db.storedTrades context.chatId)) :
    (∀ index,
      ((∀ t ∈ db.storedTrades context.chatId, t.seq ≠ index) →
        db.run ⟨context, .deleteTrade index⟩ = (db, .error (.tradeNotFound index))) ∧
      ∀ t ∈ db.storedTrades context.chatId, t.seq = index →
        (Replayable ((db.storedTrades context.chatId).filter (·.seq ≠ index)) →
          (db.run ⟨context, .deleteTrade index⟩).1.storedTrades context.chatId =
            (db.storedTrades context.chatId).filter (·.seq ≠ index) ∧
          (db.run ⟨context, .deleteTrade index⟩).2 =
            .ok (.deleted ⟨t, (db.storedTrades context.chatId).filter (·.seq ≠ index)⟩)) ∧
        (¬Replayable ((db.storedTrades context.chatId).filter (·.seq ≠ index)) →
          db.run ⟨context, .deleteTrade index⟩ =
            (db, .error (.deleteWouldOversell index t.symbol)))) ∧
    (∀ (args : RecordArgs) (units : ℕ), args.side = .sell →
      toQuantityUnits args.quantity.text = .ok units →
      (db.tradesOf context.chatId).length < maxTradesPerChat →
      alreadyRecorded (db.tradesOf context.chatId) args.newTrade.messageId = [] →
      Storable db context args →
        (Replayable (db.storedTrades context.chatId ++
            [args.asTrade (db.tradesOf context.chatId) context.now]) →
          Appends db context args) ∧
        (¬Replayable (db.storedTrades context.chatId ++
            [args.asTrade (db.tradesOf context.chatId) context.now]) →
          db.run ⟨context, .recordTrade args⟩ = (db, .error (.oversell args.symbol
            (formatQuantityUnits (balance (db.tradesOf context.chatId) args.symbol).toNat))))) ∧
    ∀ command chatId, chatId ≠ context.chatId →
      (db.run ⟨context, command⟩).1.view chatId = db.view chatId := by
  refine ⟨fun index => ⟨fun hnone => ?_, fun t ht hseq => ?_⟩,
    fun args units hside hunits hroom hnew hstorable => ?_,
    fun command chatId hne => view_run_of_ne hne⟩
  · -- No trade has the number, so nothing is deleted and nothing found.
    have hdeletable : deletable (db.tradesOf context.chatId) index = [] := by
      refine List.filter_eq_nil_iff.mpr fun row hrow htrue => ?_
      have hmem := List.mem_map_of_mem (f := toTrade) ((perm_orderBySeq _).mem_iff.mpr hrow)
      exact hnone _ hmem (of_decide_eq_true htrue).1
    -- Whether it was found or not decides which error it is.
    have hfind : ((orderBySeq (db.tradesOf context.chatId)).map toTrade).find?
        (·.seq = index) = none :=
      List.find?_eq_none.mpr fun t ht htrue => hnone t ht (of_decide_eq_true htrue)
    rw [run_deleteTrade_kept hdeletable]
    simp only [finishDelete, hfind]
  · obtain ⟨row, hrow, rfl⟩ := List.mem_map.mp ht
    obtain rfl : row.seq = index := hseq
    have hmem : row ∈ db.tradesOf context.chatId := (perm_orderBySeq _).mem_iff.mp hrow
    refine ⟨fun hrest => ?_, fun hrest => ?_⟩
    · exact run_deleteTrade_deleted hnodup ((mem_deletable_iff hnodup hreplay hmem).mpr hrest)
    · -- The window over the trade's own coin goes negative, so nothing is deleted.
      have hdeletable : deletable (db.tradesOf context.chatId) row.seq = [] := by
        refine List.eq_nil_iff_forall_not_mem.mpr fun other hother => ?_
        have hfound := List.mem_filter.mp hother
        have hsame : other = row := List.inj_on_of_nodup_map hnodup hfound.1 hmem
          (of_decide_eq_true hfound.2).1
        subst hsame
        exact hrest ((mem_deletable_iff hnodup hreplay hmem).mp hother)
      rw [run_deleteTrade_kept hdeletable]
      simp only [finishDelete, find?_toTrade hnodup hmem, toTrade]
  · -- Sound rows leave the rule of the sell as the only one that can refuse it.
    have hsound : Sound (db.tradesOf context.chatId) :=
      ⟨hnodup, hroom.le, replayable_toTrade_iff.mp hreplay⟩
    rw [replayable_sell_iff hreplay hside hunits]
    have hrule := ruleRefusing_sell hroom hside
    refine ⟨fun hle => ?_, fun hgt => ?_⟩
    · rw [if_pos hle] at hrule
      exact appends hsound hnew hrule hstorable
    · rw [if_neg hgt] at hrule
      obtain ⟨error, herror, hrun⟩ := refuses hsound hnew hrule
      obtain rfl := Option.some.inj (hrule.symm.trans herror)
      exact hrun

/-! A chat that is about to run out of trade numbers. -/

/-- One bitcoin, bought under some number. -/
def bitcoinBought (seq : ℕ) : TradeColumns where
  chatId := "a"
  seq := seq
  side := .buy
  symbol := "BTC"
  quantity := 100000000
  priceUsd := 6000000000000
  createdAt := 0
  sourceMessageId := none

theorem bitcoinBought_one_checks : (bitcoinBought 1).Checks := by decide

theorem bitcoinBought_last_checks : (bitcoinBought maxInteger).Checks := by decide

def firstNumber : Database := ⟨[⟨bitcoinBought 1, bitcoinBought_one_checks⟩], []⟩

def lastNumber : Database := ⟨[⟨bitcoinBought maxInteger, bitcoinBought_last_checks⟩], []⟩

def sellOneBitcoin : RecordArgs where
  side := .sell
  symbol := "BTC"
  quantity := ⟨"1", decimalPattern_one⟩
  priceUsd := 70000
  sourceMessageId := some "m2"

theorem replay_decides_firstNumber :
    Appends firstNumber ⟨"a", 0⟩ sellOneBitcoin ∧
      (firstNumber.run ⟨⟨"a", 0⟩, .deleteTrade 1⟩).1.storedTrades "a" = [] := by
  obtain ⟨hdelete, hsell, -⟩ := replay_decides firstNumber ⟨"a", 0⟩ (by decide +kernel)
    (replayable_of_isOk (by decide +kernel))
  refine ⟨(hsell sellOneBitcoin 100000000 rfl (by decide +kernel) (by decide) (by decide)
    ⟨by decide +kernel, by decide⟩).1 (replayable_of_isOk (by decide +kernel)), ?_⟩
  obtain ⟨-, hone⟩ := hdelete 1
  exact ((hone (toTrade ⟨bitcoinBought 1, bitcoinBought_one_checks⟩) (by decide +kernel)
    rfl).1 (replayable_of_isOk (by decide +kernel))).1.trans (by decide +kernel)

/-- **A sell that can be replayed and is not recorded**: the next trade number does not fit
its column. -/
theorem sell_past_last_number :
    Replayable (lastNumber.storedTrades "a") ∧
      Replayable (lastNumber.storedTrades "a" ++
        [sellOneBitcoin.asTrade (lastNumber.tradesOf "a") 0]) ∧
      lastNumber.run ⟨⟨"a", 0⟩, .recordTrade sellOneBitcoin⟩ =
        (lastNumber, .error .unavailable) := by
  have hunstorable : ¬Storable lastNumber ⟨"a", 0⟩ sellOneBitcoin := by
    rintro ⟨hchecks, -⟩
    exact absurd hchecks.2.1.2 (by decide +kernel)
  exact ⟨replayable_of_isOk (by decide +kernel), replayable_of_isOk (by decide +kernel),
    unstorable (by decide) (by decide +kernel) hunstorable⟩

end Portfolio

end CryptoZaloBot
