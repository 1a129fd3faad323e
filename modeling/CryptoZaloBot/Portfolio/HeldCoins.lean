import CryptoZaloBot.Portfolio.Ledger

/-!
# How many coins a chat can hold

A chat is meant to hold at most 20 coins. Three commands change which coins are held
and only one of them looks: a buy is refused when 20 *other* coins are held.

A deletion is not checked, and deleting a **sell** gives back what it sold. When the
coin was sold down to nothing, its place can have been taken by another coin in the
meantime, and the deletion then leaves 21 (`CryptoZaloBot.Portfolio.held_coins_exceeded`).
That is the only way: as long as no deletion does this
(`CryptoZaloBot.Portfolio.LeavesRoom`), the limit holds throughout
(`CryptoZaloBot.Portfolio.held_coins_bounded`).
-/

namespace CryptoZaloBot

namespace Portfolio

/-! ### Balances -/

theorem balance_append (rows rows' : List TradeRow) (symbol : String) :
    balance (rows ++ rows') symbol = balance rows symbol + balance rows' symbol := by
  simp [balance]

theorem balance_singleton (row : TradeRow) (symbol : String) :
    balance [row] symbol = if row.symbol = symbol then row.signed else 0 := by
  by_cases h : row.symbol = symbol <;> simp [balance, signedRows, h]

theorem mem_heldSymbols {rows : List TradeRow} {symbol : String} :
    symbol ∈ heldSymbols rows ↔ 0 < balance rows symbol := by
  rw [heldSymbols, List.mem_filter, List.mem_dedup, decide_eq_true_eq, and_iff_right_iff_imp]
  intro hpos
  by_contra hnot
  have hnil : rows.filter (·.symbol = symbol) = [] := by
    refine List.filter_eq_nil_iff.mpr fun t ht hts => hnot ?_
    exact List.mem_map.mpr ⟨t, ht, of_decide_eq_true hts⟩
  rw [balance, signedRows, hnil] at hpos
  exact absurd hpos (by decide)

theorem nodup_heldSymbols (rows : List TradeRow) : (heldSymbols rows).Nodup :=
  (List.nodup_dedup _).filter _

theorem nodup_otherHeld (rows : List TradeRow) (symbol : String) : (otherHeld rows symbol).Nodup :=
  (nodup_heldSymbols rows).filter _

theorem mem_otherHeld {rows : List TradeRow} {symbol symbol' : String} :
    symbol' ∈ otherHeld rows symbol ↔ 0 < balance rows symbol' ∧ symbol' ≠ symbol := by
  rw [otherHeld, List.mem_filter, mem_heldSymbols, decide_eq_true_eq]

/-- No coin is newly held: the count does not grow. -/
theorem length_heldSymbols_le {rows rows' : List TradeRow}
    (h : ∀ symbol, 0 < balance rows' symbol → 0 < balance rows symbol) :
    (heldSymbols rows').length ≤ (heldSymbols rows).length := by
  refine ((nodup_heldSymbols rows').subperm fun symbol hs => ?_).length_le
  exact mem_heldSymbols.mpr (h symbol (mem_heldSymbols.mp hs))

/-- One coin may be newly held: there has to be room beside the others. -/
theorem length_heldSymbols_le_succ {rows rows' : List TradeRow} {symbol : String}
    (h : ∀ symbol', symbol' ≠ symbol → 0 < balance rows' symbol' → 0 < balance rows symbol') :
    (heldSymbols rows').length ≤ (otherHeld rows symbol).length + 1 := by
  have hsub : heldSymbols rows' ⊆ symbol :: otherHeld rows symbol := by
    intro symbol' hs
    rcases eq_or_ne symbol' symbol with rfl | hne
    · exact List.mem_cons_self
    · have hpos := h symbol' hne (mem_heldSymbols.mp hs)
      exact List.mem_cons_of_mem _ (mem_otherHeld.mpr ⟨hpos, hne⟩)
  simpa using ((nodup_heldSymbols rows').subperm hsub).length_le

/-- **A deletion takes back what the trade did to its coin**, and does nothing to the
others. -/
theorem Ledger.balance_deleted {rows : List TradeRow} (h : Ledger rows) {target : TradeRow}
    (hmem : target ∈ rows) (symbol : String) :
    balance (rows.filter (·.seq ≠ target.seq)) symbol =
      balance rows symbol - if target.symbol = symbol then target.signed else 0 := by
  have hsplit := List.filter_append_perm (fun t : TradeRow => decide (t.seq ≠ target.seq)) rows
  have hone : rows.filter (fun t => !decide (t.seq ≠ target.seq)) = [target] := by
    have hnd : (rows.filter fun t => !decide (t.seq ≠ target.seq)).Nodup :=
      (List.Nodup.of_map _ h.nodup).filter _
    refine List.perm_singleton.mp
      ((List.perm_ext_iff_of_nodup hnd (List.nodup_singleton target)).mpr fun t => ?_)
    rw [List.mem_filter, List.mem_singleton]
    refine ⟨fun ht => ?_, fun ht => ?_⟩
    · exact List.inj_on_of_nodup_map h.nodup ht.1 hmem (by simpa using ht.2)
    · exact ⟨ht ▸ hmem, by simp [ht]⟩
  have hsum : balance rows symbol =
      balance (rows.filter (·.seq ≠ target.seq) ++ [target]) symbol := by
    rw [← hone]
    exact (((hsplit.symm).filter _).map _).sum_eq
  rw [hsum, balance_append, balance_singleton, add_sub_cancel_right]

/-! ### The limit -/

/-- **A deletion that leaves room**: it does not bring back a coin that was sold out
while 20 others are held. -/
def LeavesRoom (rows : List TradeRow) : Command → Prop
  | .deleteTrade index => ∀ t ∈ rows, t.seq = index → t.side = .sell →
      0 < balance rows t.symbol ∨ (otherHeld rows t.symbol).length < maxHeldCoins
  | _ => True

instance (rows : List TradeRow) (command : Command) : Decidable (LeavesRoom rows command) :=
  match command with
  | .deleteTrade index => inferInstanceAs (Decidable (∀ t ∈ rows, t.seq = index → t.side = .sell →
      0 < balance rows t.symbol ∨ (otherHeld rows t.symbol).length < maxHeldCoins))
  | .recordTrade _ => .isTrue trivial
  | .clearTrades => .isTrue trivial

/-- The store, with only such deletions. -/
def carefulStore : System Database Call (Call × Except PortfolioError Reply) :=
  { store with legal := fun db call => LeavesRoom (db.tradesOf call.chatId) call.command }

instance (db : Database) (call : Call) : Decidable (carefulStore.legal db call) :=
  inferInstanceAs (Decidable (LeavesRoom (db.tradesOf call.chatId) call.command))

/-- **What one call keeps.** -/
theorem heldCoins_step {context : Context} {rows rows' : List TradeRow} {command : Command}
    (hledger : Ledger rows) (hfew : (heldSymbols rows).length ≤ maxHeldCoins)
    (hroom : LeavesRoom rows command) (hstep : TradesStep context rows command rows') :
    (heldSymbols rows').length ≤ maxHeldCoins := by
  cases hstep with
  | same => exact hfew
  | @inserted args row having columns =>
    have hsymbol : row.symbol = args.newTrade.symbol := congrArg TradeColumns.symbol columns
    have hside : row.side = args.newTrade.side := congrArg TradeColumns.side columns
    have hpos := row.quantity_pos
    cases hs : row.side with
    | buy =>
      -- The coin that is bought is the only one that can be new.
      have hroom : (otherHeld rows row.symbol).length < maxHeldCoins := by
        rcases having.2.2.2 with hsell | hlt
        · rw [← hside, hs] at hsell
          exact absurd hsell (by decide)
        · rwa [hsymbol]
      refine (length_heldSymbols_le_succ fun symbol hne hbal => ?_).trans hroom
      rw [balance_append, balance_singleton, if_neg hne.symm] at hbal
      omega
    | sell =>
      refine (length_heldSymbols_le fun symbol hbal => ?_).trans hfew
      rw [balance_append, balance_singleton] at hbal
      simp only [TradeRow.signed, hs] at hbal
      split_ifs at hbal <;> omega
  | @deleted index target mem =>
    rw [deletable, List.mem_filter, decide_eq_true_eq] at mem
    obtain ⟨hmem, rfl, -⟩ := mem
    have hpos := target.quantity_pos
    cases hs : target.side with
    | buy =>
      refine (length_heldSymbols_le fun symbol hbal => ?_).trans hfew
      rw [hledger.balance_deleted hmem] at hbal
      simp only [TradeRow.signed, hs] at hbal
      split_ifs at hbal <;> omega
    | sell =>
      -- Without this sell its coin is held again, which needs room if it was sold out.
      rcases hroom target hmem rfl hs with hheld | hlt
      · refine (length_heldSymbols_le fun symbol hbal => ?_).trans hfew
        rw [hledger.balance_deleted hmem] at hbal
        by_cases hts : target.symbol = symbol
        · exact hts ▸ hheld
        · rw [if_neg hts] at hbal
          omega
      · refine (length_heldSymbols_le_succ fun symbol hne hbal => ?_).trans hlt
        rw [hledger.balance_deleted hmem, if_neg hne.symm] at hbal
        omega
  | cleared => simp [heldSymbols]

/-- **At most 20 coins**, in every state that calls whose deletions leave room lead
to. -/
theorem held_coins_bounded (calls : List Call) (hr : carefulStore.Run {} calls) (chatId : String) :
    (heldSymbols ((carefulStore.final {} calls).tradesOf chatId)).length ≤ maxHeldCoins := by
  have hkeep : carefulStore.Keeps fun db => ∀ chatId, Ledger (db.tradesOf chatId) ∧
      (heldSymbols (db.tradesOf chatId)).length ≤ maxHeldCoins := by
    intro db call hdb hleg chatId
    rcases eq_or_ne chatId call.chatId with rfl | hne
    · obtain ⟨hledger, hfew⟩ := hdb call.chatId
      have hstep := tradesStep_run db call
      exact ⟨hledger.step hstep, heldCoins_step hledger hfew hleg hstep⟩
    · have hview : (db.run call).1.tradesOf chatId = db.tradesOf chatId :=
        congrArg Prod.fst (view_run_of_ne hne)
      exact hview.symm ▸ hdb chatId
  have hempty : ∀ chatId, Ledger (({} : Database).tradesOf chatId) ∧
      (heldSymbols (({} : Database).tradesOf chatId)).length ≤ maxHeldCoins :=
    fun _ => ⟨Ledger.nil, Nat.zero_le _⟩
  exact (System.Run.invariant hkeep hempty hr chatId).2

/-- **And that condition is what it takes**: a deletion that does not leave room leaves
21 coins, where there were 20. -/
theorem held_coins_of_not_leavesRoom {rows : List TradeRow} {target : TradeRow}
    (hledger : Ledger rows) (hmem : target ∈ rows) (hside : target.side = .sell)
    (hgone : ¬0 < balance rows target.symbol)
    (hfull : maxHeldCoins ≤ (otherHeld rows target.symbol).length) :
    maxHeldCoins < (heldSymbols (rows.filter (·.seq ≠ target.seq))).length := by
  have hbal := hledger.balance_deleted hmem
  have hpos := target.quantity_pos
  have hzero : 0 ≤ balance rows target.symbol := by
    simpa [balance] using (hledger.covered target.symbol).sum_nonneg le_rfl
  have hsub : target.symbol :: otherHeld rows target.symbol ⊆
      heldSymbols (rows.filter (·.seq ≠ target.seq)) := by
    intro symbol hs
    rw [mem_heldSymbols, hbal]
    rcases List.mem_cons.mp hs with rfl | hs
    · simp only [TradeRow.signed, hside, if_true]
      omega
    · obtain ⟨hheld, hne⟩ := mem_otherHeld.mp hs
      rw [if_neg hne.symm]
      omega
  have hnd : (target.symbol :: otherHeld rows target.symbol).Nodup :=
    List.nodup_cons.mpr ⟨fun h => (mem_otherHeld.mp h).2 rfl, nodup_otherHeld rows target.symbol⟩
  have hlen := (hnd.subperm hsub).length_le
  rw [List.length_cons] at hlen
  omega

/-! ### The twenty-first coin -/

/-- A trade of one unit of some coin at one dollar, in chat `a`. -/
def tradeOne (side : TradeSide) (symbol : String) : Call :=
  ⟨⟨"a", 0⟩, .recordTrade ⟨side, symbol, ⟨"1", decimalPattern_one⟩, 1, none⟩⟩

/-- Twenty coins are bought, the first is sold, another is bought in its place, and
then the sell is deleted. -/
def sellDeletedCalls : List Call :=
  (List.range 20).map (fun k => tradeOne .buy (String.ofList ('C' :: Decimal.ofNat k))) ++
    [tradeOne .sell "C0", tradeOne .buy "C20", ⟨⟨"a", 0⟩, .deleteTrade 21⟩]

theorem held_coins_exceeded :
    ¬∀ (calls : List Call) (chatId : String),
      (heldSymbols ((store.final {} calls).tradesOf chatId)).length ≤ maxHeldCoins := by
  intro h
  exact absurd (h sellDeletedCalls "a") (by decide +kernel)

theorem held_coins_bounded_sell_deleted :
    (heldSymbols ((carefulStore.final {} [tradeOne .buy "C0", tradeOne .sell "C0",
      ⟨⟨"a", 0⟩, .deleteTrade 2⟩]).tradesOf "a")).length ≤ maxHeldCoins :=
  held_coins_bounded [tradeOne .buy "C0", tradeOne .sell "C0", ⟨⟨"a", 0⟩, .deleteTrade 2⟩]
    (by decide +kernel) "a"

end Portfolio

end CryptoZaloBot
