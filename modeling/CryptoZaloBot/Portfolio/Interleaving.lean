import CryptoZaloBot.Base.Keyed
import CryptoZaloBot.Portfolio.Costs

/-!
# One coin among many

The replay keeps the coins of a chat in one map and changes it trade by trade, in the order of
the numbers. Nothing goes from one coin to another: the replay is a machine for each coin
(`CryptoZaloBot.Portfolio.replayTrade_eq_stepAt`), so that what it ends with for a coin depends
on the trades of that coin alone, and the coins come in the order of their first trades.

The order in which the trades were handed over does not matter, as their numbers are distinct.
A coin is listed as long as more of it was bought than sold, and what is said of it is what its
own machine ends with (`CryptoZaloBot.Portfolio.computeHoldings_by_symbol`).
-/

namespace CryptoZaloBot

namespace Portfolio

/-- What a trade does to its own coin. -/
def replayState (state : SymbolState) (trade : PortfolioTrade) :
    Except InconsistentTradesError SymbolState :=
  match toQuantityUnits trade.quantity with
  | .error error => .error error
  | .ok units =>
    let quantity := unitsToNumber units
    match trade.side with
    | .buy =>
      .ok { state with
        units := state.units + units
        costUsd := state.costUsd + quantity * trade.priceUsd }
    | .sell =>
      if state.units < units then
        .error ⟨"Trade #" ++ toString trade.seq ++ " sells more " ++ trade.symbol ++
          " than was held"⟩
      else
        let avgCostUsd := state.costUsd / unitsToNumber state.units
        let left := state.units - units
        .ok
          { units := left
            costUsd := if left = 0 then 0 else avgCostUsd * unitsToNumber left
            realizedUsd := state.realizedUsd + quantity * (trade.priceUsd - avgCostUsd) }

/-- **The replay is a machine for each coin.** -/
theorem replayTrade_eq_stepAt (bySymbol : InsertionMap String SymbolState)
    (trade : PortfolioTrade) :
    replayTrade bySymbol trade =
      Keyed.stepAt PortfolioTrade.symbol {} replayState bySymbol trade := by
  rw [replayTrade, Keyed.stepAt, Keyed.component, replayState]
  cases toQuantityUnits trade.quantity with
  | error error => rfl
  | ok units =>
    cases trade.side with
    | buy => rfl
    | sell =>
      dsimp only
      split_ifs <;> rfl

theorem foldlM_replayTrade_eq (trades : List PortfolioTrade) :
    trades.foldlM replayTrade InsertionMap.empty =
      trades.foldlM (Keyed.stepAt PortfolioTrade.symbol {} replayState) InsertionMap.empty := by
  rw [funext fun m => funext fun t => replayTrade_eq_stepAt m t]

/-- What the replay looks at in a trade: its number only goes into the error. -/
def PortfolioTrade.terms (trade : PortfolioTrade) : TradeSide × String × ℚ :=
  (trade.side, trade.quantity, trade.priceUsd)

/-- The trades of one coin, in the order of their numbers. -/
def ownTrades (symbol : String) (trades : List PortfolioTrade) : List (TradeSide × String × ℚ) :=
  ((sortBySeq trades).filter (·.symbol = symbol)).map PortfolioTrade.terms

theorem replayState_of_terms_eq (state : SymbolState) (a b : PortfolioTrade) (state' : SymbolState)
    (h : a.terms = b.terms) (ha : replayState state a = .ok state') :
    replayState state b = .ok state' := by
  obtain ⟨hside, hquantity, hprice⟩ : a.side = b.side ∧ a.quantity = b.quantity ∧
      a.priceUsd = b.priceUsd := by simpa [PortfolioTrade.terms] using h
  rw [replayState, ← hside, ← hquantity, ← hprice]
  rw [replayState] at ha
  cases hunits : toQuantityUnits a.quantity with
  | error error =>
    rw [hunits] at ha
    cases ha
  | ok units =>
    rw [hunits] at ha
    cases hs : a.side with
    | buy =>
      rw [hs] at ha
      exact ha
    | sell =>
      rw [hs] at ha
      by_cases hlt : state.units < units
      · simp only [if_pos hlt] at ha
        cases ha
      · simp only [if_neg hlt] at ha ⊢
        exact ha

/-! ### The order of the numbers -/

theorem pairwise_lt_sortBySeq {trades : List PortfolioTrade} (h : (trades.map (·.seq)).Nodup) :
    (sortBySeq trades).Pairwise fun a b => a.seq < b.seq := by
  have hperm : (sortBySeq trades).Perm trades := List.perm_insertionSort _ trades
  have hne : (sortBySeq trades).Pairwise fun a b => a.seq ≠ b.seq :=
    List.pairwise_map.mp ((hperm.map _).nodup_iff.mpr h)
  exact ((pairwise_sortBySeq trades).and hne).imp fun h => lt_of_le_of_ne h.1 h.2

/-- **Trades with distinct numbers have one order.** -/
theorem sortBySeq_of_perm {trades trades' : List PortfolioTrade}
    (hnodup : (trades.map (·.seq)).Nodup) (h : trades.Perm trades') :
    sortBySeq trades' = sortBySeq trades := by
  have hsorted : (sortBySeq trades').Perm (sortBySeq trades) :=
    (List.perm_insertionSort _ trades').trans
      (h.symm.trans (List.perm_insertionSort _ trades).symm)
  have hnodup' : (trades'.map (·.seq)).Nodup := (h.map _).nodup_iff.mp hnodup
  refine List.Perm.eq_of_pairwise ?_ (pairwise_lt_sortBySeq hnodup')
    (pairwise_lt_sortBySeq hnodup) hsorted
  intro a b _ _ hab hba
  exact absurd (hab.trans hba) (lt_irrefl _)

/-! ### What a coin's line depends on -/

/-- The result, as what the replay ended with. -/
theorem computeHoldings_eq_ok {trades : List PortfolioTrade} {result : HoldingsResult}
    (h : computeHoldings trades = .ok result) :
    ∃ m : InsertionMap String SymbolState,
      (sortBySeq trades).foldlM (Keyed.stepAt PortfolioTrade.symbol {} replayState)
          InsertionMap.empty = .ok m ∧
        result.holdings = (m.entries.filterMap fun e => holdingOf e.1 e.2) ∧
        ∀ symbol, result.line? symbol = (m.get? symbol).bind (holdingOf symbol) ∧
          result.realizedBySymbol.get? symbol = (m.get? symbol).map SymbolState.realizedUsd := by
  rw [computeHoldings, foldlM_replayTrade_eq] at h
  cases hm : (sortBySeq trades).foldlM (Keyed.stepAt PortfolioTrade.symbol {} replayState)
      InsertionMap.empty with
  | error error =>
    rw [hm] at h
    cases h
  | ok m =>
    rw [hm] at h
    obtain rfl := Except.ok.inj h
    refine ⟨m, rfl, rfl, fun symbol => ⟨find?_holdings m.nodup symbol, ?_⟩⟩
    rw [InsertionMap.get?_ofList_map, InsertionMap.get?_ofList_entries]

theorem symbol_of_holdingOf {symbol : String} {state : SymbolState} {holding : Holding}
    (h : holdingOf symbol state = some holding) : holding.symbol = symbol := by
  rw [holdingOf] at h
  split_ifs at h
  rw [← Option.some.inj h]

/-- **What is said of a coin is what its own trades make of it**, replayed without the others. -/
theorem line?_eq_own {trades : List PortfolioTrade} {result : HoldingsResult}
    (h : computeHoldings trades = .ok result) (symbol : String) :
    ∃ state, ((sortBySeq trades).filter (·.symbol = symbol)).foldlM replayState {} = .ok state ∧
      result.line? symbol = holdingOf symbol state ∧
      result.realizedOf symbol = state.realizedUsd := by
  obtain ⟨m, hm, -, hline⟩ := computeHoldings_eq_ok h
  refine ⟨_, Keyed.foldlM_component hm symbol, ?_⟩
  obtain ⟨hown, hrealized⟩ := hline symbol
  rw [hown, HoldingsResult.realizedOf, hrealized, Keyed.component]
  cases m.get? symbol with
  | none => exact ⟨rfl, rfl⟩
  | some state => exact ⟨rfl, rfl⟩

/-- **A coin is listed as long as it is held**: more of it was bought than sold. -/
theorem mem_holdings_iff {trades : List PortfolioTrade} {result : HoldingsResult}
    (h : computeHoldings trades = .ok result) (symbol : String) :
    symbol ∈ result.holdings.map Holding.symbol ↔ 0 < (signedOf symbol trades).sum := by
  obtain ⟨m, hends⟩ := exists_endsWith h
  have hlisted : symbol ∈ result.holdings.map Holding.symbol ↔
      (result.line? symbol).isSome = true := by
    simp [HoldingsResult.line?]
  have hheld : (heldUnits m symbol : ℤ) = (signedOf symbol trades).sum := by
    rw [← hends.unitsOf, hends.held, sum_signedOf]
  rw [hlisted, hends.line, ← hheld, heldUnits]
  cases m.get? symbol with
  | none => simp
  | some state => simp [holdingOf]

/-- **The coins come in the order of their first trades.** -/
theorem pairwise_holdings {trades : List PortfolioTrade} {result : HoldingsResult}
    (hnodup : (trades.map (·.seq)).Nodup) (h : computeHoldings trades = .ok result) :
    result.holdings.Pairwise fun a b =>
      ∃ t ∈ trades, t.symbol = a.symbol ∧ ∀ t' ∈ trades, t'.symbol = b.symbol → t.seq < t'.seq := by
  obtain ⟨m, hm, hholdings, -⟩ := computeHoldings_eq_ok h
  have hkeys : m.entries.map Prod.fst = unique ((sortBySeq trades).map PortfolioTrade.symbol) :=
    Keyed.keys_foldlM hm
  have hfirst := pairwise_unique_map PortfolioTrade.symbol (pairwise_lt_sortBySeq hnodup)
  rw [← hkeys, List.pairwise_map] at hfirst
  rw [hholdings, List.pairwise_filterMap]
  refine hfirst.imp ?_
  rintro e e' ⟨t, ht, hte, hbefore⟩ a ha b hb
  have hmem : ∀ t, t ∈ sortBySeq trades ↔ t ∈ trades := fun t =>
    (List.perm_insertionSort _ trades).mem_iff
  refine ⟨t, (hmem t).mp ht, hte.trans (symbol_of_holdingOf ha).symm, fun t' ht' hb' => ?_⟩
  exact hbefore t' ((hmem t').mpr ht') (hb'.trans (symbol_of_holdingOf hb))

/-- **A chat's coins do not see each other.** The holdings are the same, or the error is, in
whatever order trades with distinct numbers are handed over. Two lists that can be replayed and
have the same trades of a coin, in the order of their numbers, give the same line and the same
realized profit for it, whatever else they have before, between and after: those that its own
trades make without any others. And the coins that are listed are those of which more was bought
than sold, each once, in the order of their first trades. -/
theorem computeHoldings_by_symbol :
    (∀ trades trades' : List PortfolioTrade, (trades.map (·.seq)).Nodup → trades.Perm trades' →
      computeHoldings trades' = computeHoldings trades) ∧
    (∀ (trades trades' : List PortfolioTrade) (result result' : HoldingsResult) (symbol : String),
      computeHoldings trades = .ok result → computeHoldings trades' = .ok result' →
        ownTrades symbol trades = ownTrades symbol trades' →
          result.line? symbol = result'.line? symbol ∧
            result.realizedBySymbol.get? symbol = result'.realizedBySymbol.get? symbol) ∧
    (∀ (trades : List PortfolioTrade) (result : HoldingsResult) (symbol : String),
      computeHoldings trades = .ok result →
        ∃ state,
          ((sortBySeq trades).filter (·.symbol = symbol)).foldlM replayState {} = .ok state ∧
            result.line? symbol = holdingOf symbol state ∧
            result.realizedOf symbol = state.realizedUsd) ∧
    ∀ (trades : List PortfolioTrade) (result : HoldingsResult), (trades.map (·.seq)).Nodup →
      computeHoldings trades = .ok result →
        (∀ symbol, symbol ∈ result.holdings.map Holding.symbol ↔
          0 < (signedOf symbol trades).sum) ∧
        (result.holdings.map Holding.symbol).Nodup ∧
        result.holdings.Pairwise fun a b => ∃ t ∈ trades, t.symbol = a.symbol ∧
          ∀ t' ∈ trades, t'.symbol = b.symbol → t.seq < t'.seq := by
  refine ⟨fun trades trades' hnodup hperm => ?_, ?_,
    fun trades result symbol h => line?_eq_own h symbol, ?_⟩
  · rw [computeHoldings, computeHoldings, sortBySeq_of_perm hnodup hperm]
  · intro trades trades' result result' symbol h h' hown
    obtain ⟨m, hm, -, hline⟩ := computeHoldings_eq_ok h
    obtain ⟨m', hm', -, hline'⟩ := computeHoldings_eq_ok h'
    have hsame : m.get? symbol = m'.get? symbol :=
      Keyed.get?_eq_of_map_eq replayState_of_terms_eq hm hm' hown
    rw [(hline symbol).1, (hline symbol).2, (hline' symbol).1, (hline' symbol).2, hsame]
    exact ⟨rfl, rfl⟩
  · intro trades result hnodup h
    have hfirst := pairwise_holdings hnodup h
    refine ⟨mem_holdings_iff h, List.pairwise_map.mpr (hfirst.imp ?_), hfirst⟩
    rintro a b ⟨t, ht, hta, hbefore⟩ hab
    exact absurd (hbefore t ht (hta.trans hab)) (lt_irrefl _)

/-- A coin that is bought and partly sold, with another coin bought in between. -/
def withEther : List PortfolioTrade :=
  [⟨1, .buy, "btc", "1", 10, 0⟩, ⟨2, .buy, "eth", "2", 5, 0⟩, ⟨3, .sell, "btc", "0.5", 12, 0⟩]

/-- The same, without the other coin and under other numbers. -/
def withoutEther : List PortfolioTrade :=
  [⟨9, .sell, "btc", "0.5", 12, 0⟩, ⟨4, .buy, "btc", "1", 10, 0⟩]

theorem computeHoldings_by_symbol_ether :
    computeHoldings withEther.reverse = computeHoldings withEther ∧
    ∃ result result', computeHoldings withEther = .ok result ∧
      computeHoldings withoutEther = .ok result' ∧
      result.line? "btc" = result'.line? "btc" ∧
      result.realizedBySymbol.get? "btc" = result'.realizedBySymbol.get? "btc" ∧
      "btc" ∈ result.holdings.map Holding.symbol ∧
      (result.holdings.map Holding.symbol).Nodup := by
  obtain ⟨hperm, hown, -, hlisted⟩ := computeHoldings_by_symbol
  have hnodup : (withEther.map (·.seq)).Nodup := by decide
  obtain ⟨result, h⟩ : Replayable withEther := replayable_of_isOk (by decide +kernel)
  obtain ⟨result', h'⟩ : Replayable withoutEther := replayable_of_isOk (by decide +kernel)
  obtain ⟨hline, hrealized⟩ := hown withEther withoutEther result result' "btc" h h'
    (by decide +kernel)
  obtain ⟨hheld, honce, -⟩ := hlisted withEther result hnodup h
  exact ⟨hperm withEther withEther.reverse hnodup (List.reverse_perm _).symm, result, result', h,
    h', hline, hrealized, (hheld "btc").mpr (by decide +kernel), honce⟩

end Portfolio

end CryptoZaloBot
